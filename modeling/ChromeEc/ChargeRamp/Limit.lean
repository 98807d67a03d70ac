import ChromeEc.ChargeRamp.Model
import ChromeEc.Lib.Steps

/- The limits that are set while suppliers change.

  An observer remembers whether the task began a turn in `CHARGE_DETECT_DELAY` since a supplier
  changed last (`passed`), whether one changed since the task copied `ramp_st`
  (`disturbed`) or since the limit was taken (`late`), and whether that limit was a ramped one.

  A limit is right when nothing is written back that belongs to a supplier that is gone, and
  where a limit comes from a record or a board it is one for this supplier (`Fits`). The
  invariant says what the task knows at each of its statements, as long as it is not
  disturbed (`Calm`). -/
namespace ChromeEc.ChargeRamp
open Lib Steps

variable {b : Board} {s s' : St} {env : Env} {c : Change} {now : Time}

structure Seen where
  passed : Bool
  disturbed : Bool
  late : Bool
  ramped : Bool

def Seen.initial : Seen := ⟨false, false, false, false⟩

def watch (a : Seen) : St × Call → Seen
  | (_, .change _ _) => { a with passed := false, disturbed := true, late := true }
  | (s, .task _) =>
    match s.pc with
    | .copySt => { a with passed := a.passed || s.rampSt = .chargeDetectDelay, disturbed := false }
    | .getLimit => { a with late := false, ramped := s.rampSt.Ramped }
    | _ => a

/-- A limit that is set is not negative and at most the maximum, and a ramped one comes after the delay. -/
def Right (a : Seen) : St × Call → Prop
  | (_, .change _ _) => True
  | (s, .task _) => s.pc = .apply → 0 ≤ s.lim ∧ s.lim ≤ s.maxIcl ∧ (a.ramped = true → a.passed = true)

/-- A supplier may change at the statement: not between the state and the limit, if the state is kept. -/
def Welcome (s : St) : Prop :=
  s.rampSt = .stabilize → s.pc ≠ .storeIcl ∧ s.pc ≠ .checkStable ∧ s.pc ≠ .getLimit

def Ordered (b : Board) (c : Change) : Prop :=
  if b.chgRampAllowed c.port c.supplier then rampCurrStartMa ≤ b.chgRampMax c.port c.supplier c.current else 0 ≤ c.current

/-- What the statement that is next does is for the active supplier. -/
def Fits (a : Seen) (s : St) : Pc → Prop
  | .checkRegTime => s.activePort ≠ chargePortNone
  | .setDetected => s.activePort ≠ chargePortNone
  | .clearDetected _ => s.activePort ≠ chargePortNone
  | .compareOc _ => s.activePort ≠ chargePortNone
  | .takeThreshold =>
    s.activePort ≠ chargePortNone ∧ rampIclBackoff ≤ s.activeOcInfo.icl ∧ s.activeOcInfo.icl ≤ s.maxIcl + rampIclBackoff
  | .stabilize => s.activePort = s.stablizePort → s.activeSup = s.stablizeSup → a.passed = true
  | .storeSt => a.disturbed = true → s.rampStNew = .disconnected ∨ s.rampStNew = .chargeDetectDelay
  | .apply => a.late = true → a.ramped = false ∧ s.lim ≤ s.maxIcl
  | _ => True

def Ok (b : Board) (a : Seen) : St × Call → Prop
  | (s, .change c _) => Welcome s ∧ Ordered b c
  | (s, .task _) => Fits a s s.pc

/-! ## What is known at a statement -/

def Within (s : St) (icl : Int) : Prop := 0 ≤ icl ∧ icl ≤ s.maxIcl

/-- What the task will write back. -/
def Pending (a : Seen) (s : St) : Prop :=
  (s.rampStNew = .overcurrentDetect → a.passed = true) ∧ (s.rampStNew.Ramped → a.passed = true ∧ Within s s.activeIclNew)

/-- A task that is not disturbed works on the state as it is. -/
def Calm (a : Seen) (s : St) : Pc → Prop
  | .copyIcl => s.rampStNew = s.rampSt ∧ (s.rampSt = .chargeDetectDelay → a.passed = true)
  | .switch =>
    s.rampStNew = s.rampSt ∧ (s.rampSt = .chargeDetectDelay → a.passed = true) ∧ s.activeIclNew = s.activeIcl
  | .detectDelay => s.rampStNew = .chargeDetectDelay ∧ a.passed = true
  | .setLastPort => s.rampStNew = .chargeDetectDelay ∧ a.passed = true
  | .checkRegTime => s.rampStNew = .chargeDetectDelay ∧ a.passed = true
  | .setDetected => s.rampStNew = .chargeDetectDelay ∧ a.passed = true
  | .clearDetected _ => s.rampStNew = .chargeDetectDelay ∧ a.passed = true
  | .setEndTime => s.rampStNew = .chargeDetectDelay ∧ a.passed = true
  | .checkEndTime => s.rampStNew = .chargeDetectDelay ∧ a.passed = true
  | .overcurrentDetect => s.rampStNew = .overcurrentDetect ∧ a.passed = true
  | .skipRamp => a.passed = true
  | .checkDrawing => s.rampStNew = .overcurrentDetect ∧ a.passed = true
  | .compareOc _ => a.passed = true
  | .takeThreshold => a.passed = true
  | .startRamp => a.passed = true
  | .ramp => s.rampSt = .ramp ∧ s.rampStNew = .ramp ∧ s.activeIclNew = s.activeIcl
  | .checkSagging => s.rampSt = .ramp ∧ s.rampStNew = .ramp ∧ s.activeIclNew = s.activeIcl
  | .backOff => s.rampSt = .ramp ∧ s.rampStNew = .ramp ∧ s.activeIclNew = s.activeIcl
  | .setStablizePort => Pending a s
  | .setStablizeSup => Pending a s
  | .checkMax => s.rampSt = .ramp ∧ s.rampStNew = .ramp ∧ s.activeIclNew = s.activeIcl
  | .checkIncrement => s.rampSt = .ramp ∧ s.rampStNew = .ramp
  | .setMax => s.rampSt = .ramp ∧ s.rampStNew = .ramp
  | .increment => s.rampSt = .ramp ∧ s.rampStNew = .ramp ∧ s.activeIcl + rampCurrIncrMa ≤ s.maxIcl
  | .stabilize => s.rampSt = .stabilize ∧ s.activeIclNew = s.activeIcl
  | .stable => s.rampSt = .stable ∧ s.rampStNew = .stable ∧ s.activeIclNew = s.activeIcl
  | .monitor => s.rampSt = .stable ∧ s.rampStNew = .stable ∧ s.activeIclNew = s.activeIcl
  | .lowerMax => s.rampSt = .stable
  | .reRamp => a.passed = true
  | .savePrev => Pending a s
  | .storeSt => Pending a s
  | _ => True

/-- The limit of a state that is ramped is written later than the state. -/
def Written : Pc → Prop
  | .reRamp => False
  | .savePrev => False
  | .storeSt => False
  | .storeIcl => False
  | _ => True

def Setting (a : Seen) (s : St) : Pc → Prop
  | .storeIcl => s.rampSt.Ramped → a.passed = true ∧ Within s s.activeIclNew
  | .checkStable => s.rampSt.Ramped → a.passed = true
  | .getLimit => s.rampSt.Ramped → a.passed = true
  | .apply => 0 ≤ s.lim ∧ (a.late = false → s.lim ≤ s.maxIcl ∧ (a.ramped = true → a.passed = true))
  | _ => True

structure Inv (s : St) (a : Seen) : Prop where
  bounds : 0 ≤ s.minIcl ∧ s.minIcl ≤ s.maxIcl
  passed : s.rampSt = .overcurrentDetect ∨ s.rampSt = .ramp ∨ s.rampSt = .stable → a.passed = true
  active : Written s.pc → s.rampSt.Ramped → a.passed = true → Within s s.activeIcl
  calm : a.disturbed = false → Calm a s s.pc
  setting : Setting a s s.pc

/-! ## Statements -/

variable {a : Seen}

/-- Which statements change the state, the limits and their bounds. -/
theorem task_frame (h : chgRampTask b env s = some s') :
    s'.rampSt = (if s.pc = .storeSt then s.rampStNew else s.rampSt) ∧ s'.minIcl = s.minIcl ∧
      s'.maxIcl = (if s.pc = .lowerMax then max s.minIcl (s.maxIcl - rampIclBackoff) else s.maxIcl) ∧
      s'.activeIcl = (if s.pc = .storeIcl then s.activeIclNew else s.activeIcl) := by
  unfold chgRampTask at h
  cases hpc : s.pc <;> simp only [hpc] at h ⊢
  case asleep => cases h
  case checkEndTime =>
    split at h <;> cases h <;> exact ⟨rfl, rfl, rfl, rfl⟩
  case checkMax =>
    split at h <;> cases h <;> exact ⟨rfl, rfl, rfl, rfl⟩
  case stabilize =>
    split at h <;> cases h <;> exact ⟨rfl, rfl, rfl, rfl⟩
  all_goals
    cases h
    exact ⟨rfl, rfl, rfl, rfl⟩

theorem bounds_task (h : Inv s a) (hstep : chgRampTask b env s = some s') : 0 ≤ s'.minIcl ∧ s'.minIcl ≤ s'.maxIcl := by
  obtain ⟨-, hmin, hmax, -⟩ := task_frame hstep
  have hbounds := h.bounds
  rw [hmin, hmax]
  refine ⟨hbounds.1, ?_⟩
  split
  · exact le_max_left _ _
  · exact hbounds.2

/-- A turn that begins in the delay passes it, and nothing that the task does takes that back. -/
theorem watch_passed (h : a.passed = true) : (watch a (s, .task env)).passed = true := by
  dsimp only [watch]
  split
  · rw [h]
    rfl
  · exact h
  · exact h

theorem passed_task (h : Inv s a) (hfits : Fits a s s.pc) (hstep : chgRampTask b env s = some s')
    (hst : s'.rampSt = .overcurrentDetect ∨ s'.rampSt = .ramp ∨ s'.rampSt = .stable) :
    (watch a (s, .task env)).passed = true := by
  obtain ⟨hrampSt, -⟩ := task_frame hstep
  apply watch_passed
  rw [hrampSt] at hst
  split at hst
  · rename_i hpc
    have hcalm := h.calm
    rw [hpc] at hfits hcalm
    by_cases hdisturbed : a.disturbed = true
    · -- a new supplier gets no state from before the delay
      rcases hfits hdisturbed with hnew | hnew <;> rw [hnew] at hst <;> simp at hst
    · obtain ⟨hdetect, hramped⟩ := hcalm (Bool.eq_false_iff.mpr hdisturbed)
      rcases hst with hnew | hnew | hnew
      · exact hdetect hnew
      · exact (hramped (by rw [hnew]; exact trivial)).1
      · exact (hramped (by rw [hnew]; exact trivial)).1
  · exact h.passed hst

theorem within_of_ramp (h : Inv s a) (hpc : Written s.pc) (hst : s.rampSt = .ramp ∨ s.rampSt = .stable) :
    a.passed = true ∧ Within s s.activeIcl := by
  have hpassed := h.passed (.inr hst)
  refine ⟨hpassed, h.active hpc ?_ hpassed⟩
  rcases hst with hst | hst <;> rw [hst] <;> exact trivial

/-- What a task that is not disturbed has decided to write back. -/
theorem pending_of_eq {icl : Int} (hicl : s.activeIclNew = icl)
    (hpassed : a.passed = true) (hwithin : Within s icl) : Pending a s := by
  subst hicl
  exact ⟨fun _ => hpassed, fun _ => ⟨hpassed, hwithin⟩⟩

theorem pending_of_unramped (hpassed : s.rampStNew = .overcurrentDetect → a.passed = true) (hnot : ¬s.rampStNew.Ramped) :
    Pending a s :=
  ⟨hpassed, fun h => absurd h hnot⟩

theorem calm_ite {p : Prop} [Decidable p] {x y : Pc} (hx : p → Calm a s x) (hy : ¬p → Calm a s y) :
    Calm a s (if p then x else y) := by
  split
  · rename_i hp
    exact hx hp
  · rename_i hp
    exact hy hp

theorem calm_task (h : Inv s a) (hfits : Fits a s s.pc) (hstep : chgRampTask b env s = some s')
    (hcalm : (watch a (s, .task env)).disturbed = false) : Calm (watch a (s, .task env)) s' s'.pc := by
  have hbefore := h.calm
  have hramp := within_of_ramp h
  have hbounds := h.bounds
  unfold chgRampTask at hstep
  cases hpc : s.pc <;> simp only [hpc, watch] at hstep hcalm ⊢ <;>
    simp only [hpc, Fits, Calm, Written, true_implies] at hfits hbefore hramp
  case asleep => cases hstep
  case copySt =>
    cases hstep
    exact ⟨rfl, fun hst => by simp [show s.rampSt = .chargeDetectDelay from hst]⟩
  case copyIcl =>
    cases hstep
    exact ⟨(hbefore hcalm).1, (hbefore hcalm).2, rfl⟩
  case switch =>
    cases hstep
    obtain ⟨hnew, hdelay, hicl⟩ := hbefore hcalm
    cases hst : s.rampSt with
    | disconnected => exact pending_of_unramped (by simp [hnew, hst]) (by simp [hnew, hst, ChgRampState.Ramped])
    | chargeDetectDelay => exact ⟨hnew.trans hst, hdelay hst⟩
    | overcurrentDetect => exact ⟨hnew.trans hst, h.passed (.inl hst)⟩
    | ramp => exact ⟨rfl, hnew.trans hst, hicl⟩
    | stabilize => exact ⟨rfl, hicl⟩
    | stable => exact ⟨rfl, hnew.trans hst, hicl⟩
  case detectDelay =>
    cases hstep
    exact calm_ite (fun _ => hbefore hcalm) fun _ => hbefore hcalm
  case setLastPort =>
    cases hstep
    exact hbefore hcalm
  case checkRegTime =>
    cases hstep
    generalize s.activeOcInfo.ts + ocRecoverMaxTime = limit
    exact calm_ite (fun _ => hbefore hcalm) fun _ => hbefore hcalm
  case setDetected =>
    cases hstep
    exact hbefore hcalm
  case clearDetected i =>
    cases hstep
    exact calm_ite (fun _ => hbefore hcalm) fun _ => hbefore hcalm
  case setEndTime =>
    cases hstep
    obtain ⟨hnew, -⟩ := hbefore hcalm
    exact pending_of_unramped (by simp [hnew]) (by simp [hnew, ChgRampState.Ramped])
  case checkEndTime =>
    obtain ⟨hnew, hpassed⟩ := hbefore hcalm
    split at hstep
    · cases hstep
      exact pending_of_unramped (by simp [hnew]) (by simp [hnew, ChgRampState.Ramped])
    · cases hstep
      exact ⟨rfl, hpassed⟩
  case overcurrentDetect =>
    cases hstep
    exact calm_ite (fun _ => hbefore hcalm) fun _ => (hbefore hcalm).2
  case skipRamp =>
    cases hstep
    exact pending_of_eq rfl (hbefore hcalm) hbounds
  case checkDrawing =>
    cases hstep
    obtain ⟨hnew, hpassed⟩ := hbefore hcalm
    have hnot : ¬s.rampStNew.Ramped := by simp [hnew, ChgRampState.Ramped]
    exact calm_ite (fun _ => hpassed) fun _ => pending_of_unramped (fun _ => hpassed) hnot
  case compareOc i =>
    cases hstep
    exact calm_ite (fun _ => hbefore hcalm) fun _ => calm_ite (fun _ => hbefore hcalm) fun _ => hbefore hcalm
  case takeThreshold =>
    cases hstep
    obtain ⟨-, hlow, hhigh⟩ := hfits
    exact pending_of_eq rfl (hbefore hcalm) ⟨Int.sub_nonneg_of_le hlow, Int.sub_right_le_of_le_add hhigh⟩
  case startRamp =>
    cases hstep
    exact pending_of_eq rfl (hbefore hcalm) hbounds
  case ramp =>
    cases hstep
    obtain ⟨hst, hnew, hicl⟩ := hbefore hcalm
    obtain ⟨hpassed, hwithin⟩ := hramp (.inl hst)
    exact calm_ite (fun _ => ⟨hst, hnew, hicl⟩) fun _ => pending_of_eq hicl hpassed hwithin
  case checkSagging =>
    cases hstep
    exact calm_ite (fun _ => hbefore hcalm) fun _ => hbefore hcalm
  case backOff =>
    cases hstep
    obtain ⟨hst, -, -⟩ := hbefore hcalm
    obtain ⟨hpassed, hlow, hhigh⟩ := hramp (.inl hst)
    refine pending_of_eq rfl hpassed ⟨le_max_of_le_left hbounds.1, max_le hbounds.2 ?_⟩
    exact (Int.sub_le_self _ (by decide)).trans hhigh
  case setStablizePort =>
    cases hstep
    exact hbefore hcalm
  case setStablizeSup =>
    cases hstep
    exact hbefore hcalm
  case checkMax =>
    obtain ⟨hst, hnew, hicl⟩ := hbefore hcalm
    obtain ⟨hpassed, hwithin⟩ := hramp (.inl hst)
    split at hstep
    · cases hstep
      exact pending_of_eq hicl hpassed hwithin
    · cases hstep
      exact ⟨hst, hnew⟩
  case checkIncrement =>
    cases hstep
    obtain ⟨hst, hnew⟩ := hbefore hcalm
    exact calm_ite (fun _ => ⟨hst, hnew⟩) fun hroom => ⟨hst, hnew, Int.not_lt.mp hroom⟩
  case setMax =>
    cases hstep
    obtain ⟨hst, hnew⟩ := hbefore hcalm
    exact pending_of_eq rfl (hramp (.inl hst)).1 ⟨hbounds.1.trans hbounds.2, le_refl _⟩
  case increment =>
    cases hstep
    obtain ⟨hst, hnew, hroom⟩ := hbefore hcalm
    obtain ⟨hpassed, hlow, -⟩ := hramp (.inl hst)
    exact pending_of_eq rfl hpassed ⟨Int.add_nonneg hlow (by decide), hroom⟩
  case stabilize =>
    obtain ⟨hst, hicl⟩ := hbefore hcalm
    split at hstep
    · rename_i hsame
      cases hstep
      have hpassed := hfits hsame.1 hsame.2
      have hwithin := h.active (by rw [hpc]; exact trivial) (by rw [hst]; exact trivial) hpassed
      exact pending_of_eq hicl hpassed hwithin
    · cases hstep
      exact trivial
  case restart =>
    cases hstep
    by_cases hnone : s.activePort = chargePortNone
    · exact pending_of_unramped (by simp [hnone]) (by simp [hnone, ChgRampState.Ramped])
    · exact pending_of_unramped (by simp [hnone]) (by simp [hnone, ChgRampState.Ramped])
  case stable =>
    cases hstep
    obtain ⟨hst, hnew, hicl⟩ := hbefore hcalm
    obtain ⟨hpassed, hwithin⟩ := hramp (.inr hst)
    exact calm_ite (fun _ => ⟨hst, hnew, hicl⟩) fun _ => pending_of_eq hicl hpassed hwithin
  case monitor =>
    cases hstep
    obtain ⟨hst, hnew, hicl⟩ := hbefore hcalm
    obtain ⟨hpassed, hwithin⟩ := hramp (.inr hst)
    exact calm_ite (fun _ => hst) fun _ => pending_of_eq hicl hpassed hwithin
  case lowerMax =>
    cases hstep
    exact h.passed (.inr (.inr (hbefore hcalm)))
  case reRamp =>
    cases hstep
    exact pending_of_eq rfl (hbefore hcalm) hbounds
  case savePrev =>
    cases hstep
    exact hbefore hcalm
  case checkStable =>
    cases hstep
    exact calm_ite (fun _ => trivial) fun _ => trivial
  all_goals
    cases hstep
    exact trivial

theorem watch_ramped (hst : s.rampSt.Ramped) (h : (watch a (s, .task env)).passed = true) : a.passed = true := by
  dsimp only [watch] at h
  split at h
  · -- no ramped state is the delay
    rcases (Bool.or_eq_true _ _).mp h with hpassed | hdelay
    · exact hpassed
    · rw [of_decide_eq_true hdelay] at hst
      exact hst.elim
  · exact h
  · exact h

theorem active_task (h : Inv s a) (hstep : chgRampTask b env s = some s') (hpc' : Written s'.pc) (hst : s'.rampSt.Ramped)
    (hpassed : (watch a (s, .task env)).passed = true) : Within s' s'.activeIcl := by
  obtain ⟨hrampSt, -, hmax, hactive⟩ := task_frame hstep
  have hsetting := h.setting
  cases hpc : s.pc
  case reRamp =>
    simp only [chgRampTask, hpc] at hstep
    cases hstep
    exact hpc'.elim
  case savePrev =>
    simp only [chgRampTask, hpc] at hstep
    cases hstep
    exact hpc'.elim
  case storeSt =>
    simp only [chgRampTask, hpc] at hstep
    cases hstep
    exact hpc'.elim
  case lowerMax =>
    simp only [chgRampTask, hpc] at hstep
    cases hstep
    exact hpc'.elim
  case storeIcl =>
    simp only [chgRampTask, hpc] at hstep
    rw [hpc] at hsetting
    cases hstep
    exact (hsetting hst).2
  all_goals
    rw [hpc, if_neg Pc.noConfusion] at hrampSt hmax hactive
    rw [hrampSt] at hst
    unfold Within
    rw [hmax, hactive]
    exact h.active (by rw [hpc]; exact trivial) hst (watch_ramped hst hpassed)

theorem setting_ite {p : Prop} [Decidable p] {x y : Pc} (hx : Setting a s x) (hy : Setting a s y) :
    Setting a s (if p then x else y) := by
  split
  · exact hx
  · exact hy

theorem setting_task (h : Inv s a) (hfits : Fits a s s.pc) (hstep : chgRampTask b env s = some s') :
    Setting (watch a (s, .task env)) s' s'.pc := by
  have hsetting := h.setting
  have hcalm := h.calm
  have hactive := h.active
  unfold chgRampTask at hstep
  cases hpc : s.pc <;> simp only [hpc, watch] at hstep ⊢ <;> rw [hpc] at hsetting hcalm hactive hfits
  case storeSt =>
    cases hstep
    intro hst
    by_cases hdisturbed : a.disturbed = true
    · rcases hfits hdisturbed with hnew | hnew
      · exact absurd hst (by simp [hnew, ChgRampState.Ramped])
      · exact absurd hst (by simp [hnew, ChgRampState.Ramped])
    · exact (hcalm (Bool.eq_false_iff.mpr hdisturbed)).2 hst
  case storeIcl =>
    cases hstep
    exact fun hst => (hsetting hst).1
  case checkStable =>
    cases hstep
    dsimp only
    by_cases hset : s.rampStPrev ≠ .stable ∨ s.rampSt ≠ .stable
    · rw [if_pos hset]
      exact hsetting
    · rw [if_neg hset]
      exact trivial
  case getLimit =>
    cases hstep
    have hbounds := h.bounds
    by_cases hst : s.rampSt.Ramped
    · have hlim : chgRampGetCurrentLimit s = s.activeIcl := if_pos hst
      obtain ⟨hlow, hhigh⟩ := hactive trivial hst (hsetting hst)
      exact ⟨hlim ▸ hlow, fun _ => ⟨hlim ▸ hhigh, fun _ => hsetting hst⟩⟩
    · have hlim : chgRampGetCurrentLimit s = s.minIcl := if_neg hst
      exact ⟨hlim ▸ hbounds.1, fun _ => ⟨hlim ▸ hbounds.2, fun hramped => absurd (of_decide_eq_true hramped) hst⟩⟩
  -- no other statement leads to these
  case asleep => cases hstep
  case switch =>
    cases hstep
    cases s.rampSt <;> exact trivial
  case checkRegTime =>
    cases hstep
    generalize s.activeOcInfo.ts + ocRecoverMaxTime = limit
    exact setting_ite trivial trivial
  case checkEndTime =>
    split at hstep <;> cases hstep <;> exact trivial
  case checkMax =>
    split at hstep <;> cases hstep <;> exact trivial
  case stabilize =>
    split at hstep <;> cases hstep <;> exact trivial
  case compareOc i =>
    cases hstep
    exact setting_ite trivial (setting_ite trivial trivial)
  all_goals cases hstep
  all_goals first
    | exact trivial
    | exact setting_ite trivial trivial

theorem inv_task (h : Inv s a) (hfits : Fits a s s.pc) (hstep : chgRampTask b env s = some s') :
    Inv s' (watch a (s, .task env)) where
  bounds := bounds_task h hstep
  passed := passed_task h hfits hstep
  active := active_task h hstep
  calm := calm_task h hfits hstep
  setting := setting_task h hfits hstep

/-! ## Suppliers -/
theorem noteOc_frame (p : Prop) [Decidable p] :
    ∃ oc idx, (if p then noteOc now s else s) = { s with ocInfo := oc, ocInfoIdx := idx } := by
  split
  · exact ⟨_, _, rfl⟩
  · exact ⟨_, _, rfl⟩

theorem setSupplier_frame : ∃ port sup vtg reg, setSupplier b c s =
    { s with
      activePort := port, activeSup := sup, activeVtg := vtg, regTime := reg
      minIcl := if b.chgRampAllowed c.port c.supplier then rampCurrStartMa else c.current
      maxIcl := if b.chgRampAllowed c.port c.supplier then b.chgRampMax c.port c.supplier c.current else c.current } := by
  refine ⟨c.port, c.supplier, c.voltage, c.registrationTime, ?_⟩
  unfold setSupplier
  dsimp only
  split <;> rfl

/-- A new supplier starts over, unless the task waits for the current to stabilize. -/
theorem resetRamp_frame : s.rampSt = .stabilize ∧ resetRamp s = s ∨
    ∃ st pc, (st = .disconnected ∨ st = .chargeDetectDelay) ∧ (pc = s.pc ∨ pc = .copySt) ∧
      resetRamp s = { s with rampSt := st, pc := pc } := by
  unfold resetRamp
  split
  · refine .inr ⟨_, _, ?_, ?_, rfl⟩
    · split
      · exact .inl rfl
      · exact .inr rfl
    · split
      · exact .inr rfl
      · exact .inl rfl
  · rename_i hst
    exact .inl ⟨not_not.mp hst, rfl⟩

theorem Ordered.bounds (h : Ordered b c) :
    0 ≤ (if b.chgRampAllowed c.port c.supplier then rampCurrStartMa else c.current) ∧
      (if b.chgRampAllowed c.port c.supplier then rampCurrStartMa else c.current) ≤
        (if b.chgRampAllowed c.port c.supplier then b.chgRampMax c.port c.supplier c.current else c.current) := by
  unfold Ordered at h
  split
  · rename_i hallowed
    rw [if_pos hallowed] at h
    exact ⟨by decide, h⟩
  · rename_i hdenied
    rw [if_neg hdenied] at h
    exact ⟨h, le_refl _⟩

/-- What the task knew is gone, and it sets no limit for a state that is kept. -/
theorem inv_of_change {t : St} (h : Inv s a) (hwelcome : Welcome s) (hbounds : 0 ≤ t.minIcl ∧ t.minIcl ≤ t.maxIcl)
    (hlim : t.lim = s.lim)
    (hstate : s.rampSt = .stabilize ∧ t.rampSt = .stabilize ∧ t.pc = s.pc ∨
      (t.rampSt = .disconnected ∨ t.rampSt = .chargeDetectDelay) ∧ (t.pc = s.pc ∨ t.pc = .copySt)) :
    Inv t (watch a (s, .change c now)) where
  bounds := hbounds
  passed hst := by
    rcases hstate with ⟨-, heq, -⟩ | ⟨heq | heq, -⟩ <;> rw [heq] at hst <;> simp at hst
  active _ _ hpassed := absurd hpassed Bool.noConfusion
  calm hcalm := absurd hcalm Bool.noConfusion
  setting := by
    have hsetting := h.setting
    have hkept : t.rampSt.Ramped → t.pc = s.pc ∧ s.rampSt = .stabilize := by
      intro hramped
      rcases hstate with ⟨hst, -, hpc⟩ | ⟨heq | heq, -⟩
      · exact ⟨hpc, hst⟩
      · exact absurd hramped (by simp [heq, ChgRampState.Ramped])
      · exact absurd hramped (by simp [heq, ChgRampState.Ramped])
    cases hpc : t.pc
    case storeIcl =>
      intro hramped
      obtain ⟨hsame, hst⟩ := hkept hramped
      exact absurd (hsame ▸ hpc) (hwelcome hst).1
    case checkStable =>
      intro hramped
      obtain ⟨hsame, hst⟩ := hkept hramped
      exact absurd (hsame ▸ hpc) (hwelcome hst).2.1
    case getLimit =>
      intro hramped
      obtain ⟨hsame, hst⟩ := hkept hramped
      exact absurd (hsame ▸ hpc) (hwelcome hst).2.2
    case apply =>
      have hsame : s.pc = .apply := by
        rcases hstate with ⟨-, -, heq⟩ | ⟨-, heq | heq⟩
        · exact heq ▸ hpc
        · exact heq ▸ hpc
        · exact absurd (heq.symm.trans hpc) Pc.noConfusion
      rw [hsame] at hsetting
      exact ⟨hlim ▸ hsetting.1, fun hlate => absurd hlate Bool.noConfusion⟩
    all_goals exact trivial

theorem inv_change (h : Inv s a) (hwelcome : Welcome s) (hordered : Ordered b c) :
    Inv (chgRampChargeSupplierChange b c now s) (watch a (s, .change c now)) := by
  obtain ⟨oc, idx, hnote⟩ := noteOc_frame (s := s) (s.activePort ≠ chargePortNone ∧ c.port ≠ s.activePort)
  obtain ⟨port, sup, vtg, reg, hset⟩ :=
    setSupplier_frame (b := b) (c := c) (s := { s with ocInfo := oc, ocInfoIdx := idx })
  unfold chgRampChargeSupplierChange
  dsimp only
  rw [hnote, hset]
  rcases resetRamp_frame (s := { s with
    ocInfo := oc, ocInfoIdx := idx, activePort := port, activeSup := sup, activeVtg := vtg, regTime := reg
    minIcl := if b.chgRampAllowed c.port c.supplier then rampCurrStartMa else c.current
    maxIcl := if b.chgRampAllowed c.port c.supplier then b.chgRampMax c.port c.supplier c.current else c.current }) with
    ⟨hst, heq⟩ | ⟨st, pc, hst, hpc, heq⟩
  · rw [heq]
    exact inv_of_change h hwelcome hordered.bounds rfl (.inl ⟨hst, hst, rfl⟩)
  · rw [heq]
    exact inv_of_change h hwelcome hordered.bounds rfl (.inr ⟨hst, hpc⟩)

/-! ## Runs -/

theorem inv_step {call : Call} (h : Inv s a) (hok : Ok b a (s, call)) (hstep : step b call s = some s') :
    Inv s' (watch a (s, call)) := by
  cases call with
  | change c now =>
    obtain rfl := Option.some.inj hstep
    exact inv_change h hok.1 hok.2
  | task env => exact inv_task h hok hstep

theorem right_of_inv {call : Call} (h : Inv s a) (hok : Ok b a (s, call)) : Right a (s, call) := by
  cases call with
  | change c now => exact trivial
  | task env =>
    intro hpc
    have hsetting := h.setting
    have hfits : Fits a s s.pc := hok
    rw [hpc] at hsetting hfits
    obtain ⟨hlow, hhigh⟩ := hsetting
    by_cases hlate : a.late = true
    · obtain ⟨hplain, hmax⟩ := hfits hlate
      exact ⟨hlow, hmax, fun hramped => absurd (hplain.symm.trans hramped) Bool.noConfusion⟩
    · obtain ⟨hmax, hpassed⟩ := hhigh (Bool.eq_false_iff.mpr hlate)
      exact ⟨hlow, hmax, hpassed⟩

theorem inv_initial : Inv .initial .initial where
  bounds := ⟨le_refl _, le_refl _⟩
  passed h := by simp [St.initial] at h
  active _ h := h.elim
  calm _ := trivial
  setting := trivial

/-- Every limit that is set in a run is in bounds and after the delay, if each supplier comes with its limits in order and
not between the state and the limit of a task that stabilizes, and each statement fits. -/
theorem limits_right {l : List (St × Call)} (h : Run (step b) .initial l s) (hok : Always watch (Ok b) .initial l) :
    Always watch Right .initial l :=
  Run.always_of (R := Inv) inv_initial (fun _ _ _ _ => inv_step) (fun _ _ _ _ hs hok _ => right_of_inv hs hok) h hok

/-! ## Two runs -/

instance : Decidable (Welcome s) := inferInstanceAs (Decidable (_ → _))

instance : Decidable (Ordered b c) :=
  inferInstanceAs (Decidable (if b.chgRampAllowed c.port c.supplier then
    rampCurrStartMa ≤ b.chgRampMax c.port c.supplier c.current else 0 ≤ c.current))

instance : ∀ pc, Decidable (Fits a s pc)
  | .checkRegTime => inferInstanceAs (Decidable (_ ≠ _))
  | .setDetected => inferInstanceAs (Decidable (_ ≠ _))
  | .clearDetected _ => inferInstanceAs (Decidable (_ ≠ _))
  | .compareOc _ => inferInstanceAs (Decidable (_ ≠ _))
  | .takeThreshold => inferInstanceAs (Decidable (_ ≠ _ ∧ _ ∧ _))
  | .stabilize => inferInstanceAs (Decidable (_ → _ → _))
  | .storeSt => inferInstanceAs (Decidable (_ → _ ∨ _))
  | .apply => inferInstanceAs (Decidable (_ → _ ∧ _))
  | .asleep | .copySt | .copyIcl | .switch | .detectDelay | .setLastPort | .setEndTime | .checkEndTime
  | .overcurrentDetect | .skipRamp | .checkDrawing | .startRamp | .ramp | .checkSagging | .backOff | .setStablizePort
  | .setStablizeSup | .checkMax | .checkIncrement | .setMax | .increment | .restart | .stable | .monitor | .lowerMax
  | .reRamp | .savePrev | .storeIcl | .checkStable | .getLimit => isTrue trivial

instance : ∀ x, Decidable (Ok b a x)
  | (_, .change _ _) => inferInstanceAs (Decidable (_ ∧ _))
  | (s, .task _) => inferInstanceAs (Decidable (Fits a s s.pc))

instance : ∀ x, Decidable (Right a x)
  | (_, .change _ _) => isTrue trivial
  | (_, .task _) => inferInstanceAs (Decidable (_ → _))

/-- Every supplier of a port is ramped, up to what it supplies. -/
def rampAll : Board := ⟨fun port _ => 0 ≤ port, fun _ _ current => current⟩

def supplierAt (port : Int) (ms : Nat) : List Call :=
  [.change ⟨port, 3, 3000, BitVec.ofNat 64 (ms * msec), 5000⟩ (BitVec.ofNat 64 (ms * msec))]

/-- Statements of the task while the full current is drawn and VBUS is high enough. -/
def statements (n ms : Nat) : List Call := List.replicate n (.task ⟨BitVec.ofNat 64 (ms * msec), true, false⟩)

/-- A port ramps, and then another one. -/
def movedOn : List Call :=
  supplierAt 0 10000 ++ statements 16 10000 ++ statements 15 13000 ++ statements 14 14000 ++ statements 14 15000 ++
    supplierAt 1 16000 ++ statements 16 16000 ++ statements 11 17000 ++ statements 15 19000 ++ statements 14 20000

def lostAt (ms : Nat) : List Call :=
  supplierAt chargePortNone ms ++ statements 9 ms ++ supplierAt 0 (ms + 100) ++ statements 14 (ms + 100)

/-- A port is lost three times, each time before the ramp starts. -/
def lostThrice : List Call :=
  supplierAt 0 10000 ++ statements 16 10000 ++ lostAt 10100 ++ lostAt 10300 ++ lostAt 10500 ++ statements 17 20000

theorem limits_right_movedOn : ∃ l s, Run (step rampAll) .initial l s ∧ l.map Prod.snd = movedOn ∧ s.lim = 564 ∧
    Always watch Right .initial l := by
  have hsome : (trace (step rampAll) movedOn ([], .initial)).any fun r =>
      decide (r.2.lim = 564 ∧ Always watch (Ok rampAll) .initial r.1) := by decide +kernel
  obtain ⟨l, s, run, hlabels, hlim, hok⟩ := exists_run hsome
  exact ⟨l, s, run, hlabels, hlim, limits_right run hok⟩

/-- Three records of no current make the threshold. -/
theorem negative_limit : ∃ l s, Run (step rampAll) .initial l s ∧ l.map Prod.snd = lostThrice ∧ s.lim = -128 ∧
    ¬Always watch Right .initial l := by
  have hsome : (trace (step rampAll) lostThrice ([], .initial)).any fun r =>
      decide (r.2.lim = -128 ∧ ¬Always watch Right .initial r.1) := by decide +kernel
  obtain ⟨l, s, run, hlabels, hlim, hwrong⟩ := exists_run hsome
  exact ⟨l, s, run, hlabels, hlim, hwrong⟩

end ChromeEc.ChargeRamp
