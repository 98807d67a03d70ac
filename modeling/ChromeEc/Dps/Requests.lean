import ChromeEc.Dps.Scan
import ChromeEc.Lib.Steps

/- What DPS requests: the iterations of `dps_task`.

  When a new power level is requested, the port is to exist, and the voltage to be that of one
  of its PDOs and at most the maximum (`Valid`). The current limit of the charger is to be used
  only as it was read: what is used does not change with what was in the variable before
  (`ReadLimit`).

  The scan ends with the candidate that it starts with when it can take no PDO at all, and that
  one is requested like any other after as many samples as it takes. So these hold in an
  iteration exactly when `Admits`. -/
namespace ChromeEc.Dps
open PdRequest Lib Steps

inductive Event where
  | iterate (now later : Nat) (e : Env)
  | enable (en : Bool)
  | stabilized (now : Nat)

def step (b : Board) {c : Config} : Event → Task c → Option (Task c)
  | .iterate now later e, t => some (dpsTask b now later e t).1
  | .enable en, t => some (dpsEnable en t).1
  | .stabilized now, t => some (dpsUpdateStabilizedTime now t)

/-- An iteration gets to the evaluation. -/
def Evaluates {c : Config} (now : Nat) (e : Env) (t : Task c) : Prop :=
  t.flag.stop = false ∧ t.timeout ≤ now ∧ t.isEnabled = true ∧ hasSrccap e = true ∧ e.batteryPresent = true

/-- What is requested is offered. -/
def Valid {c : Config} (e : Env) (t : Task c) : Prop :=
  ∃ i p pdo, t.dpsPort = some i ∧ e.ports[i]? = some p ∧ pdo ∈ p.srcCaps ∧ t.dynamicMv = volt pdo ∧
    t.dynamicMv ≤ e.maxVoltage

def ReadLimit (e : Env) : Prop := ∀ v, usedLimit { e with staleLimit := v } = usedLimit e

/-- A request is for what is offered, and the limit is used as it was read. -/
def Good (b : Board) {c : Config} (x : Task c × Event) : Prop :=
  match x.2 with
  | .iterate now later e =>
    ((dpsTask b now later e x.1).2 = true → Valid e (dpsTask b now later e x.1).1) ∧
      (Evaluates now e x.1 → (averages e x.1.stats).2.isSome = true → ReadLimit e)
  | _ => True

/-- The scan can take a PDO for the candidate that it starts with. -/
def Takeable (c : Config) (x : Demand) (o : Candidate) : Prop :=
  x.needMore = true → 0 < o.mw ∨ isMoreEfficient c o.mv int32Max x.battMv x.battMw x.inputPwrAvg = true

/-- In an iteration that evaluates, the limit can be read, and there is a PDO that the scan can take, unless the sample
would not be the last one anyway. -/
def Admits (b : Board) {c : Config} (x : Task c × Event) : Prop :=
  match x.2 with
  | .iterate now _ e =>
    Evaluates now e x.1 → ∀ s port battMv, averages e x.1.stats = (s, some (port, battMv)) →
      e.inputCurrentLimit.isSome = true ∧
        ((∃ o ∈ offers b (demand e s port battMv) 0 e.ports, Takeable c (demand e s port battMv) o) ∨
          nextCount x.1 noCandidate (int32Max != e.reqMv) ≠ c.kSample)
  | _ => True

variable {b : Board} {c : Config} {x : Demand} {o cand : Candidate} {os : List Candidate} {e : Env} {t : Task c}
  {s : Stats c} {now later port battMv : Nat}

/-! ## The candidate -/

theorem replaces_first (havg : 0 < x.inputPwrAvg) : replaces c x o noCandidate = true ↔ Takeable c x o := by
  have hstart : noCandidate.mw = 0 ∧ noCandidate.mv = int32Max := ⟨rfl, rfl⟩
  rw [replaces, Takeable, hstart.1, hstart.2]
  by_cases hmore : x.needMore = true
  · cases isMoreEfficient c o.mv int32Max x.battMv x.battMw x.inputPwrAvg <;> simp [hmore, havg]
    omega
  · simp [hmore]

theorem scan_mem {seen : List Candidate} (h : cand ∈ seen) : os.foldl (consider c x) cand ∈ seen ++ os :=
  Lib.foldl_seen (P := fun seen cand => cand ∈ seen) (fun _ _ _ hmem => consider_mem hmem) h os

/-- The scan ends with a PDO when there is one that it can take, and else as it starts. -/
theorem scan_cases (havg : 0 < x.inputPwrAvg) (hmv : ∀ o ∈ os, o.mv < int32Max) :
    (os.foldl (consider c x) noCandidate ∈ os ∧ ∃ o ∈ os, Takeable c x o) ∨
      (os.foldl (consider c x) noCandidate = noCandidate ∧ ∀ o ∈ os, ¬Takeable c x o) := by
  induction os with
  | nil => exact Or.inr ⟨rfl, fun o ho => absurd ho List.not_mem_nil⟩
  | cons o os ih =>
    rw [List.foldl_cons]
    by_cases htake : Takeable c x o
    · have hreplaces := (replaces_first havg).mpr htake
      have hconsider : consider c x noCandidate o = o := by
        simp only [consider, if_pos hreplaces, ite_self]
      rw [hconsider]
      exact Or.inl ⟨scan_mem (List.mem_singleton_self o), o, List.mem_cons_self .., htake⟩
    · have hnot : replaces c x o noCandidate = false := by
        rw [← Bool.not_eq_true, replaces_first havg]
        exact htake
      rw [consider_stays hnot (hmv o (List.mem_cons_self ..))]
      rcases ih fun p hp => hmv p (List.mem_cons_of_mem _ hp) with ⟨hmem, p, hp, hptake⟩ | ⟨hstay, hnone⟩
      · exact Or.inl ⟨List.mem_cons_of_mem _ hmem, p, List.mem_cons_of_mem _ hp, hptake⟩
      · exact Or.inr ⟨hstay, List.forall_mem_cons.mpr ⟨htake, hnone⟩⟩

theorem usedLimit_read : ReadLimit e ↔ e.inputCurrentLimit.isSome = true := by
  unfold ReadLimit usedLimit
  cases e.inputCurrentLimit with
  | none =>
    refine iff_of_false (fun h => ?_) (by simp)
    have hother : e.staleLimit + 1 = e.staleLimit := h (e.staleLimit + 1)
    omega
  | some v => simp

/-! ## One iteration -/

theorem dpsTask_evaluates (h : Evaluates now e t) : dpsTask b now later e t = evaluate b later e t := by
  obtain ⟨hstop, htime, hen, hcap, hbatt⟩ := h
  simp [dpsTask, hstop, Nat.not_lt.mpr htime, hen, hcap, hbatt]

theorem dpsTask_not_evaluates (h : ¬Evaluates now e t) : (dpsTask b now later e t).2 = false := by
  unfold dpsTask
  split_ifs <;> first | rfl | skip
  simp_all [Evaluates]

theorem evaluate_requests : (evaluate b later e t).2 =
    decide (nextCount t (hasNewPowerRequest b e t.stats).2.1 (hasNewPowerRequest b e t.stats).2.2 = c.kSample) := by
  simp only [evaluate]
  split <;> simp_all

theorem evaluate_level (h : (evaluate b later e t).2 = true) :
    (evaluate b later e t).1.dynamicMv = (hasNewPowerRequest b e t.stats).2.1.mv ∧
      (evaluate b later e t).1.dpsPort = (hasNewPowerRequest b e t.stats).2.1.port := by
  rw [evaluate_requests, decide_eq_true_iff] at h
  simp only [evaluate, if_pos h]
  exact ⟨rfl, rfl⟩

theorem evaluate_none (h : averages e t.stats = (s, none)) : (evaluate b later e t).2 = false := by
  have hnew : (hasNewPowerRequest b e t.stats).2.2 = false := by rw [hasNewPowerRequest, h]
  rw [evaluate_requests, hnew, decide_eq_false_iff_not, nextCount, if_neg Bool.false_ne_true]
  exact Nat.ne_of_lt c.kSample_pos

/-- A request is valid exactly when it is not the candidate that the scan starts with. -/
theorem evaluate_valid (h : averages e t.stats = (s, some (port, battMv))) :
    ((evaluate b later e t).2 = true → Valid e (evaluate b later e t).1) ↔
      (∃ o ∈ offers b (demand e s port battMv) 0 e.ports, Takeable c (demand e s port battMv) o) ∨
        nextCount t noCandidate (int32Max != e.reqMv) ≠ c.kSample := by
  have hcand := candidate_eq b h
  have hnew : (hasNewPowerRequest b e t.stats).2.2 = ((hasNewPowerRequest b e t.stats).2.1.mv != e.reqMv) := by
    rw [hasNewPowerRequest, h]
  rcases scan_cases (inputPwrAvg_pos h) fun o ho => mv_lt (b := b) ho with ⟨hmem, htake⟩ | ⟨hstay, hnone⟩
  · rw [← hcand] at hmem
    refine iff_of_true (fun hreq => ?_) (Or.inl htake)
    obtain ⟨hmv, hport⟩ := evaluate_level hreq
    obtain ⟨k, p, pdo, hp, -, hpdo, -, hvolt, hoffer⟩ := mem_offers.mp hmem
    rw [hoffer] at hmv hport
    exact ⟨0 + k, p, pdo, hport, (Nat.zero_add k).symm ▸ hp, hpdo, hmv, hmv ▸ hvolt⟩
  · rw [← hcand] at hstay
    have hexists : ¬∃ o ∈ offers b (demand e s port battMv) 0 e.ports, Takeable c (demand e s port battMv) o := by
      rintro ⟨o, ho, htake⟩
      exact hnone o ho htake
    rw [or_iff_right hexists, evaluate_requests, hnew, hstay, decide_eq_true_iff]
    constructor
    · intro hvalid hcount
      have hreq : (evaluate b later e t).2 = true := by
        rw [evaluate_requests, hnew, hstay, decide_eq_true_iff]
        exact hcount
      obtain ⟨i, p, pdo, hport, -⟩ := hvalid hcount
      rw [(evaluate_level hreq).2, hstay] at hport
      cases hport
    · exact fun hcount hreq => absurd hreq hcount

theorem good_iff (a : Event) (t : Task c) : Good b (t, a) ↔ Admits b (t, a) := by
  cases a with
  | iterate now later e =>
    by_cases hev : Evaluates now e t
    · simp only [Good, Admits, dpsTask_evaluates hev, usedLimit_read]
      cases hav : averages e t.stats with
      | mk s r =>
        cases r with
        | none =>
          have hnone := @evaluate_none b _ _ _ _ later hav
          simp [hnone]
        | some avg =>
          obtain ⟨port, battMv⟩ := avg
          rw [evaluate_valid hav]
          constructor
          · rintro ⟨hvalid, hlimit⟩ _ s' port' battMv' heq
            cases heq
            exact ⟨hlimit hev rfl, hvalid⟩
          · intro h
            obtain ⟨hlimit, hvalid⟩ := h hev s port battMv rfl
            exact ⟨hvalid, fun _ _ => hlimit⟩
    · refine iff_of_true ⟨fun hreq => ?_, fun h => absurd h hev⟩ fun h => absurd h hev
      rw [dpsTask_not_evaluates hev] at hreq
      cases hreq
  | enable en => exact Iff.rfl
  | stabilized now => exact Iff.rfl

/-! ## Runs -/

/-- In every run, what is requested is offered and the limit is used as it was read in each iteration, exactly when each
iteration that evaluates admits it. -/
theorem requests_iff {start : Task c} {l : List (Task c × Event)} (h : Run (step b) start l t) :
    (∀ x ∈ l, Good b x) ↔ ∀ x ∈ l, Admits b x :=
  Run.forall_iff (P := fun _ => True) trivial (fun _ _ _ _ _ _ => trivial) (fun t a _ _ _ => good_iff a t) h

def started : Task defaultConfig where
  flag := .clear
  timeout := 0
  isEnabled := true
  dynamicMv := 20000
  dpsPort := none
  lastCand := ⟨none, 0, 0⟩
  sampleCount := 0
  stats := sampled

/-- 15 V are requested, and then there are three samples at 15 V before DPS is disabled. -/
def iterations : List Event :=
  [.iterate 1 1 manyOffers, .stabilized 2, .iterate 3 3 manyOffers,
    .iterate 12000000 12000001 { manyOffers with reqMv := 15000 },
    .iterate 18000000 18000001 { manyOffers with reqMv := 15000 },
    .iterate 24000000 24000001 { manyOffers with reqMv := 15000 },
    .enable false, .iterate 30000000 30000001 { manyOffers with reqMv := 15000 }]

theorem admits_manyOffers {t : Task defaultConfig} {reqMv : Nat} :
    Admits octopus (t, .iterate now later { manyOffers with reqMv := reqMv }) := by
  refine fun _ s port battMv _ => ⟨rfl, Or.inl ⟨⟨some 0, 5000, 15000⟩, ?_, fun _ => Or.inl (by decide)⟩⟩
  exact mem_offers.mpr ⟨0, _, 0x0001912C, rfl, rfl, List.mem_cons_self .., by decide,
    (by decide : 5000 ≤ 20000), by decide⟩

theorem requests_iff_iterations : ∃ l t, Run (step octopus) started l t ∧ l.map Prod.snd = iterations ∧
    (t.dpsPort = some 0 ∧ t.dynamicMv = 15000 ∧ t.flag.disabled = true) ∧ ∀ x ∈ l, Good octopus x := by
  have hsome : (trace (step octopus) iterations ([], started)).any fun r =>
      decide (r.2.dpsPort = some 0 ∧ r.2.dynamicMv = 15000 ∧ r.2.flag.disabled = true) := by decide +kernel
  obtain ⟨l, t, run, hlabels, hend⟩ := exists_run hsome
  refine ⟨l, t, run, hlabels, hend, (requests_iff run).mpr ?_⟩
  rintro ⟨u, i⟩ hx
  have hi : i ∈ iterations := hlabels ▸ List.mem_map_of_mem hx
  simp only [iterations, List.mem_cons, List.not_mem_nil, or_false] at hi
  rcases hi with rfl | rfl | rfl | rfl | rfl | rfl | rfl | rfl
  all_goals first | exact trivial | exact admits_manyOffers

/-- The active port has only an augmented PDO: no port and the highest voltage of an `int` are requested. -/
theorem sentinel_requested : ¬Good octopus (started, .iterate 1 1 (sampling [⟨true, .sink, [0xC0DC213C]⟩])) := by
  intro h
  obtain ⟨i, -, -, hport, -⟩ := h.1 (by decide +kernel)
  have hnone : (dpsTask octopus 1 1 (sampling [⟨true, .sink, [0xC0DC213C]⟩]) started).1.dpsPort = none := by decide +kernel
  rw [hnone] at hport
  cases hport

end ChromeEc.Dps
