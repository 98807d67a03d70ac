import ChromeEc.ChargeControl.Requests

/- Runs of the charge control: requests, the battery sustainer, and what the console and the
  charger task do besides.

  A request keeps the sustainer `Parked` while it is off and its limits `Ordered` while it is
  on, and so does everything else. With that a request is all or nothing exactly when it is
  `Clean`, and a step of the battery sustainer never fails to follow the upper limit. -/
namespace ChromeEc.ChargeControl
open Lib Steps

variable {c : Config} {e : Env} {version : Nat} {p : Params} {s s' : St}

inductive Call where
  | control (e : Env) (version : Nat) (p : Params)
  | sustain (e : Env)
  /-- The console command, or the charger task when AC is gone. -/
  | setMode (e : Env) (mode : Nat)
  | sustainer (lower upper : Int8)
  | manualCurrent (value : Int)
  | manualVoltage (value : Int)

def step (c : Config) : Call → St → Option St
  | .control e version p, s => some (chargeCommandChargeControl c e version p s).2.2
  | .sustain e, s => some (sustainBatterySoc c e s)
  | .setMode e mode, s => some (setChgCtrlMode c e mode s).2
  | .sustainer lower upper, s => some (batterySustainerSet c lower upper s).2
  | .manualCurrent value, s => some { s with manualCurrent := value }
  | .manualVoltage value, s => some { s with manualVoltage := value }

/-! ## What every call keeps -/

/-- The sustainer is off with both limits at -1, or on with limits in order. -/
structure Inv (s : St) : Prop where
  parked : Parked s
  ordered : Ordered s

theorem Inv.congr (h : Inv s) (heq : s'.sustainSoc = s.sustainSoc) : Inv s' := by
  constructor
  · unfold Parked batterySustainerEnabled
    rw [heq]
    exact h.parked
  · unfold Ordered batterySustainerEnabled
    rw [heq]
    exact h.ordered

theorem inv_off (h : s'.sustainSoc.lower = -1 ∧ s'.sustainSoc.upper = -1) : Inv s' := by
  refine ⟨fun _ => h, fun henabled => ?_⟩
  rw [h.1, h.2]

theorem inv_on (hlower : s'.sustainSoc.lower ≠ -1) (hupper : s'.sustainSoc.upper ≠ -1)
    (hle : s'.sustainSoc.lower.toInt ≤ s'.sustainSoc.upper.toInt) : Inv s' := by
  have henabled : batterySustainerEnabled s' = true := by simp [batterySustainerEnabled, hlower, hupper]
  exact ⟨fun hoff => absurd (henabled.symm.trans hoff) Bool.noConfusion, fun _ => hle⟩

theorem setChgCtrlMode_sustainSoc {mode : Nat} : (setChgCtrlMode c e mode s).2.sustainSoc = s.sustainSoc := by
  by_cases h : Refuses c e mode
  · obtain ⟨rv, -, heq⟩ := @setChgCtrlMode_refused c e s mode h
    rw [heq]
  · obtain ⟨m, -, heq⟩ := @setChgCtrlMode_accepted c e s mode h
    rw [heq]

theorem inv_set (hinv : Inv s) {lower upper : Int8} : Inv (batterySustainerSet c lower upper s).2 := by
  by_cases hoff : lower = -1 ∨ upper = -1
  · rw [set_off hoff]
    cases henabled : batterySustainerEnabled s
    · exact hinv
    · exact inv_off ⟨rfl, rfl⟩
  · obtain ⟨hlower, hupper⟩ := not_or.mp hoff
    unfold batterySustainerSet
    rw [if_neg hoff]
    split
    · rename_i hrange
      split
      · exact inv_on hlower hupper hrange.1
      · exact hinv
    · exact hinv

theorem inv_asked (hinv : Inv s) (h : p.TurnsOff ∨ p.TurnsOn c) :
    Inv { s with sustainSoc := asked version p s } := by
  by_cases hoff : p.TurnsOff
  · refine inv_off ?_
    unfold asked
    rw [if_pos hoff]
    cases henabled : batterySustainerEnabled s
    · exact hinv.parked henabled
    · exact ⟨rfl, rfl⟩
  · obtain ⟨-, hrange, -⟩ := h.resolve_left hoff
    have hlimits := hoff
    simp only [Params.TurnsOff, not_or] at hlimits
    unfold asked
    rw [if_neg hoff]
    exact inv_on hlimits.2.1 hlimits.2.2 hrange.1

theorem inv_command (hinv : Inv s) : Inv (chargeCommandChargeControl c e version p s).2.2 := by
  by_cases hset : p.isSet
  · by_cases hgoes : p.TurnsOff ∨ p.TurnsOn c
    · have hasked : Inv { s with sustainSoc := asked version p s } := inv_asked hinv hgoes
      by_cases hrefused : Refuses c e p.mode
      · obtain ⟨-, heq⟩ := @command_refused c e version p s hset hinv.parked hgoes hrefused
        rw [heq]
        exact hasked
      · obtain ⟨-, heq, -⟩ := @command_accepted c e version p s hset hinv.parked hgoes hrefused
        exact hasked.congr heq
    · obtain ⟨hoff, hon⟩ := not_or.mp hgoes
      obtain ⟨-, heq⟩ := @command_rejected c e version p s hset hoff hon
      rw [heq]
      exact hinv
  · -- the other requests set nothing
    unfold chargeCommandChargeControl
    cases hcmd : p.cmd with
    | set => exact absurd hcmd hset
    | get => exact hinv
    | other => exact hinv

theorem sustainBatterySoc_sustainSoc : (sustainBatterySoc c e s).sustainSoc = s.sustainSoc := by
  unfold sustainBatterySoc
  split
  · rfl
  · dsimp only
    split
    · rfl
    · exact setChgCtrlMode_sustainSoc

theorem inv_step {call : Call} (hinv : Inv s) (h : step c call s = some s') : Inv s' := by
  cases call <;> obtain rfl := Option.some.inj h
  case control => exact inv_command hinv
  case sustain => exact hinv.congr sustainBatterySoc_sustainSoc
  case setMode => exact hinv.congr setChgCtrlMode_sustainSoc
  case sustainer => exact inv_set hinv
  case manualCurrent => exact hinv.congr rfl
  case manualVoltage => exact hinv.congr rfl

theorem inv_initial : Inv .initial := inv_off ⟨rfl, rfl⟩

/-! ## The battery sustainer -/

/-- The step has AC, battery and a sustainer, and the mode that it wants is accepted. -/
def Sustains (c : Config) (e : Env) (s : St) : Prop :=
  e.ac = true ∧ e.battPresent = true ∧ batterySustainerEnabled s = true ∧
    ¬Refuses c e (sustainSwitchMode e s.chgCtlMode s).toNat

/-- The mode at or above the upper limit is not NORMAL, and above it is DISCHARGE. -/
def Sustained (c : Config) (e : Env) (s : St) : Prop :=
  (s.sustainSoc.upper.toInt ≤ soc e → (sustainBatterySoc c e s).chgCtlMode ≠ .normal) ∧
    (s.sustainSoc.upper.toInt < soc e → (sustainBatterySoc c e s).chgCtlMode = .discharge)

theorem sustainBatterySoc_mode (h : Sustains c e s) :
    (sustainBatterySoc c e s).chgCtlMode = sustainSwitchMode e s.chgCtlMode s := by
  obtain ⟨hac, hbatt, henabled, haccepts⟩ := h
  unfold sustainBatterySoc
  rw [hac, hbatt, henabled, if_neg (by simp)]
  dsimp only
  split
  · rename_i hsame
    exact hsame.symm
  · obtain ⟨m, hm, heq⟩ := @setChgCtrlMode_accepted c e s _ haccepts
    rw [heq]
    exact (toNat_injective hm).symm

theorem switch_above (h : s.sustainSoc.upper.toInt < soc e) (hle : s.sustainSoc.lower.toInt ≤ s.sustainSoc.upper.toInt)
    {mode : Mode} : sustainSwitchMode e mode s = .discharge := by
  have hlower : ¬soc e < s.sustainSoc.lower.toInt := by omega
  have hupper : ¬soc e ≤ s.sustainSoc.upper.toInt := by omega
  cases mode <;> simp [sustainSwitchMode, h, hlower, hupper]

theorem switch_at (h : s.sustainSoc.upper.toInt = soc e) (hle : s.sustainSoc.lower.toInt ≤ s.sustainSoc.upper.toInt)
    {mode : Mode} : sustainSwitchMode e mode s ≠ .normal := by
  have hlower : ¬soc e < s.sustainSoc.lower.toInt := by omega
  unfold sustainSwitchMode
  dsimp only
  cases mode with
  | normal =>
    dsimp only
    rw [h, if_neg (lt_irrefl _), if_pos rfl]
    split <;> exact Mode.noConfusion
  | idle =>
    dsimp only
    rw [h, if_neg hlower, if_neg (lt_irrefl _)]
    exact Mode.noConfusion
  | discharge =>
    dsimp only
    rw [if_neg hlower]
    split <;> exact Mode.noConfusion

theorem sustained_step (hinv : Inv s) (h : Sustains c e s) : Sustained c e s := by
  have hle := hinv.ordered h.2.2.1
  unfold Sustained
  rw [sustainBatterySoc_mode h]
  refine ⟨fun hat => ?_, fun habove => switch_above habove hle⟩
  obtain habove | hequal := lt_or_eq_of_le hat
  · rw [switch_above habove hle]
    exact Mode.noConfusion
  · exact switch_at hequal hle

/-! ## Runs -/

/-- What is to hold of a call in the state that it finds. -/
def Good (c : Config) : St × Call → Prop
  | (s, .control e version p) => p.isSet → version = 2 ∨ version = 3 → AllOrNothing c e version p s
  | (s, .sustain e) => Sustains c e s → Sustained c e s
  | _ => True

/-- A SET request shows nothing of what it found. -/
def Undisturbed (c : Config) : St × Call → Prop
  | (s, .control e version p) => p.isSet → version = 2 ∨ version = 3 → Clean c e version p s
  | _ => True

theorem good_iff (hinv : Inv s) {call : Call} : Good c (s, call) ↔ Undisturbed c (s, call) := by
  cases call with
  | control e version p => exact forall_congr' fun hset => forall_congr' fun _ => allOrNothing_iff hset hinv.parked
  | sustain e => exact iff_of_true (sustained_step hinv) trivial
  | setMode => exact Iff.rfl
  | sustainer => exact Iff.rfl
  | manualCurrent => exact Iff.rfl
  | manualVoltage => exact Iff.rfl

/-- All the calls of a run are as they should be exactly when each of its requests is clean. -/
theorem charge_control_clean {l : List (St × Call)} (h : Run (step c) .initial l s) :
    (∀ x ∈ l, Good c x) ↔ ∀ x ∈ l, Undisturbed c x :=
  Run.forall_iff (P := Inv) inv_initial (fun _ _ _ hinv _ => inv_step hinv) (fun _ _ _ hinv _ => good_iff hinv) h

/-- On a board with discharge on AC, at 65%. -/
def exampleEnv (ac : Bool) : Env := ⟨ac, true, 650, fun _ => 0⟩

/-- Sustain between 50% and 60% without idle. -/
def exampleRange : Params := ⟨0, .set, 1, 50, 60⟩

def sustaining : St := ⟨⟨50, 60, 1⟩, .normal, -1, -1⟩

/-- The first step of the sustainer after the range is set. -/
theorem charge_control_clean_example :
    Good ⟨true⟩ (.initial, .control (exampleEnv true) 3 exampleRange) ∧
      Good ⟨true⟩ (sustaining, .sustain (exampleEnv true)) := by
  have run : Run (step ⟨true⟩) .initial
      ([] ++ [(.initial, .control (exampleEnv true) 3 exampleRange)] ++ [(sustaining, .sustain (exampleEnv true))])
      { sustaining with chgCtlMode := .discharge } :=
    .step (.step .start rfl) rfl
  have hclean : Clean ⟨true⟩ (exampleEnv true) 3 exampleRange .initial := by
    refine fun _ => ⟨fun hrefused => absurd hrefused (by decide), fun _ hflags => absurd hflags (by decide)⟩
  have hgood := (charge_control_clean run).mpr (by
    intro x hx
    simp only [List.nil_append, List.cons_append, List.mem_cons, List.not_mem_nil, or_false] at hx
    obtain rfl | rfl := hx
    · exact fun _ _ => hclean
    · exact trivial)
  exact ⟨hgood _ (by simp), hgood _ (by simp)⟩

/-- IDLE without AC is refused when the sustainer is off already. -/
theorem refused_but_changed :
    ∃ l s, Run (step ⟨true⟩) .initial l s ∧ ¬∀ x ∈ l, Good ⟨true⟩ x := by
  let idle : Params := ⟨1, .set, 0, 0, 0⟩
  refine ⟨_, _, .step (.step .start (i := .control (exampleEnv true) 3 exampleRange) rfl)
    (i := .control (exampleEnv false) 3 idle) rfl, fun hgood => ?_⟩
  have hatomic := (hgood _ (List.mem_append_right _ (List.mem_singleton_self _)) rfl (.inr rfl)).1
  have herror : (chargeCommandChargeControl ⟨true⟩ (exampleEnv false) 3 idle sustaining).1 ≠ .success := by decide
  have hlower : (chargeCommandChargeControl ⟨true⟩ (exampleEnv false) 3 idle sustaining).2.2 ≠ sustaining := by decide
  exact hlower (hatomic herror)

end ChromeEc.ChargeControl
