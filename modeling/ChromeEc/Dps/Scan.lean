import ChromeEc.Dps.Model
import ChromeEc.PdRequest.Request
import ChromeEc.Lib.Select

/- The PDO that DPS picks: the scan of `has_new_power_request`.

  The loops consider the fixed PDOs of the sink ports at or below the maximum voltage, in the
  order of the ports (`offers`). One is picked as it should be (`Picked`) when it is one of them;
  if one is enough for the average input power, it is too, and the closest to the battery's
  voltage of those that are if more power is needed; if none is, it has the most power; and it
  is of the active port if that port has one of its voltage and power.

  The candidate that the scan starts with has no power, and a candidate without power is taken
  for none at all when more power is not needed. Otherwise the scan is that of `Lib.prefer`.
  So the PDO is picked as it should be exactly when `Spread`. -/
namespace ChromeEc.Dps
open PdRequest

/-! ## What is considered -/

def offersOf (b : Board) (x : Demand) (i : Nat) (p : Port) : List Candidate :=
  if p.role = .sink then
    (p.srcCaps.filter fun pdo => decide (pdoType pdo = .fixed ∧ volt pdo ≤ x.maxMv)).map fun pdo =>
      ⟨some i, volt pdo, pdoMw b pdo⟩
  else []

/-- The fixed PDOs of sink ports from the port `i` on. -/
def offers (b : Board) (x : Demand) : Nat → List Port → List Candidate
  | _, [] => []
  | i, p :: rest => offersOf b x i p ++ offers b x (i + 1) rest

/-- The PDO is enough for the average input power. -/
def Enough (c : Config) (x : Demand) (o : Candidate) : Prop :=
  x.inputPwrAvg ≤ if x.needMore = true then o.mw else adjust c o.mw

instance {c : Config} {x : Demand} {o : Candidate} : Decidable (Enough c x o) := inferInstanceAs (Decidable (_ ≤ _))

structure Picked (c : Config) (x : Demand) (os : List Candidate) (r : Candidate) : Prop where
  offered : r ∈ os
  enough : ∀ o ∈ os, Enough c x o → Enough c x r ∧
    (x.needMore = true → distance r.mv x.battMv ≤ distance o.mv x.battMv)
  power : (∀ o ∈ os, ¬Enough c x o) → ∀ o ∈ os, o.mw ≤ r.mw
  active : ∀ o ∈ os, o.mv = r.mv → o.mw = r.mw → o.port = some x.activePort → r.port = some x.activePort

/-- If no PDO that is considered has any power: one is closer to the battery's voltage than the candidate that the scan
starts with, or, if more power is not needed, the last one is of the active port, or no PDO of that port
has its voltage. -/
def Spread (x : Demand) (os : List Candidate) : Prop :=
  (∀ o ∈ os, o.mw = 0) →
    if x.needMore = true then ∃ o ∈ os, distance o.mv x.battMv < distance int32Max x.battMv
    else ∀ last ∈ os.getLast?, last.port = some x.activePort ∨ ∀ o ∈ os, o.mv = last.mv → o.port ≠ some x.activePort

variable {b : Board} {c : Config} {x : Demand} {o r cand : Candidate} {os : List Candidate} {ports : List Port} {i : Nat}

theorem foldl_scanPdo {pdos : List Pdo} : pdos.foldl (scanPdo b c x i) cand =
    ((pdos.filter fun pdo => decide (pdoType pdo = .fixed ∧ volt pdo ≤ x.maxMv)).map fun pdo =>
      (⟨some i, volt pdo, pdoMw b pdo⟩ : Candidate)).foldl (consider c x) cand := by
  induction pdos generalizing cand with
  | nil => rfl
  | cons pdo rest ih =>
    rw [List.foldl_cons, ih, List.filter_cons]
    by_cases hadm : pdoType pdo = .fixed ∧ volt pdo ≤ x.maxMv
    · rw [if_pos (by simpa using hadm), List.map_cons, List.foldl_cons, scanPdo, if_neg (not_not.mpr hadm.1),
        pdExtractPdoPower_maxMv, if_neg (Nat.not_lt.mpr hadm.2)]
    · rw [if_neg (by simpa using hadm)]
      have hskip : scanPdo b c x i cand pdo = cand := by
        rw [scanPdo, pdExtractPdoPower_maxMv]
        by_cases hfixed : pdoType pdo = .fixed
        · rw [if_neg (not_not.mpr hfixed), if_pos (Nat.lt_of_not_le fun hle => hadm ⟨hfixed, hle⟩)]
        · rw [if_pos hfixed]
      rw [hskip]

theorem scanPorts_eq : scanPorts b c x i ports cand = (offers b x i ports).foldl (consider c x) cand := by
  induction ports generalizing i cand with
  | nil => rfl
  | cons p rest ih =>
    rw [scanPorts, ih, offers, List.foldl_append, offersOf]
    split
    · rw [foldl_scanPdo]
    · rfl

theorem mem_offers : o ∈ offers b x i ports ↔ ∃ k p pdo, ports[k]? = some p ∧ p.role = .sink ∧ pdo ∈ p.srcCaps ∧
    pdoType pdo = .fixed ∧ volt pdo ≤ x.maxMv ∧ o = ⟨some (i + k), volt pdo, pdoMw b pdo⟩ := by
  induction ports generalizing i with
  | nil => simp [offers]
  | cons p rest ih =>
    rw [offers, List.mem_append, ih]
    constructor
    · rintro (hmem | ⟨k, q, pdo, hk, hrest⟩)
      · rw [offersOf] at hmem
        split at hmem
        · rename_i hrole
          obtain ⟨pdo, hpdo, rfl⟩ := List.mem_map.mp hmem
          obtain ⟨hin, hadm⟩ := List.mem_filter.mp hpdo
          have hboth := of_decide_eq_true hadm
          exact ⟨0, p, pdo, rfl, hrole, hin, hboth.1, hboth.2, rfl⟩
        · cases hmem
      · refine ⟨k + 1, q, pdo, hk, ?_⟩
        rwa [show i + (k + 1) = i + 1 + k by omega]
    · rintro ⟨k, q, pdo, hk, hrole, hin, hfixed, hvolt, rfl⟩
      cases k with
      | zero =>
        obtain rfl : p = q := Option.some.inj hk
        refine Or.inl ?_
        rw [offersOf, if_pos hrole]
        exact List.mem_map.mpr ⟨pdo, List.mem_filter.mpr ⟨hin, decide_eq_true ⟨hfixed, hvolt⟩⟩, rfl⟩
      | succ k => exact Or.inr ⟨k, q, pdo, hk, hrole, hin, hfixed, hvolt, by rw [Nat.add_assoc, Nat.add_comm 1]⟩

/-- No PDO has the voltage of the candidate that the scan starts with. -/
theorem mv_lt (h : o ∈ offers b x i ports) : o.mv < int32Max := by
  obtain ⟨k, p, pdo, -, -, -, hfixed, -, rfl⟩ := mem_offers.mp h
  have hfield := (pdo.extractLsb' 10 10).isLt
  have hvolt : volt pdo = pdoFixedVoltage pdo := by rw [volt, pdoVoltages, hfixed]
  simp only [hvolt, pdoFixedVoltage, int32Max]
  omega

/-! ## The order -/

def sameOffer (o cand : Candidate) : Bool := decide (o.mw = cand.mw ∧ o.mv = cand.mv)

def onActive (x : Demand) (o : Candidate) : Bool := decide (o.port = some x.activePort)

theorem consider_eq : consider c x cand o = Lib.prefer (replaces c x) sameOffer (onActive x) cand o := by
  simp only [consider, Lib.prefer, sameOffer, onActive]
  split <;> simp [and_assoc]

/-- What replaces a candidate, when one without power is left only for one with power. -/
def improves (c : Config) (x : Demand) (o cand : Candidate) : Bool :=
  if x.needMore = true ∨ cand.mw ≠ 0 then replaces c x o cand else decide (0 < o.mw)

theorem distance_lt (hdefault : c.isMoreEfficient = none) {mv mv' : Nat} :
    isMoreEfficient c mv mv' x.battMv x.battMw x.inputPwrAvg = true ↔ distance mv x.battMv < distance mv' x.battMv := by
  simp [isMoreEfficient, hdefault]

theorem adjust_mono {m n : Nat} (h : m ≤ n) : adjust c m ≤ adjust c n :=
  Nat.div_le_div_right (Nat.mul_le_mul_right _ h)

theorem adjust_zero : adjust c 0 = 0 := by rw [adjust, Nat.zero_mul, Nat.zero_div]

/-- The order in numbers: the one that is not enough by its power, and, if more is needed, by its distance; one that is
enough by its distance. -/
theorem improves_iff (hdefault : c.isMoreEfficient = none) (havg : 0 < x.inputPwrAvg) : improves c x o cand = true ↔
    if x.needMore = true then
      (cand.mw < x.inputPwrAvg ∧ (cand.mw < o.mw ∨ o.mw = cand.mw ∧ distance o.mv x.battMv < distance cand.mv x.battMv)) ∨
        (x.inputPwrAvg ≤ o.mw ∧ distance o.mv x.battMv < distance cand.mv x.battMv)
    else
      (adjust c cand.mw < x.inputPwrAvg ∧ cand.mw < o.mw) ∨
        (x.inputPwrAvg ≤ adjust c cand.mw ∧ x.inputPwrAvg ≤ adjust c o.mw ∧
          distance o.mv x.battMv < distance cand.mv x.battMv) := by
  rw [improves, replaces]
  by_cases hmore : x.needMore = true
  · simp [hmore, distance_lt hdefault]
  · by_cases hzero : cand.mw = 0
    · simp [hmore, hzero, adjust_zero]
      omega
    · simp [hmore, hzero, distance_lt hdefault]

theorem improves_strict (hdefault : c.isMoreEfficient = none) (havg : 0 < x.inputPwrAvg) :
    Lib.Strict (improves c x) sameOffer := by
  have hsame : ∀ {p q : Candidate}, sameOffer p q = true → p.mw = q.mw ∧ p.mv = q.mv := of_decide_eq_true
  constructor
  · intro p q h
    rw [← Bool.not_eq_true]
    rw [improves_iff hdefault havg] at h ⊢
    by_cases hmore : x.needMore = true
    · rw [if_pos hmore] at h ⊢
      omega
    · have hmono := @adjust_mono c p.mw q.mw
      have hmono' := @adjust_mono c q.mw p.mw
      rw [if_neg hmore] at h ⊢
      omega
  · intro p q r hpq hqr
    rw [← Bool.not_eq_true] at hpq hqr ⊢
    rw [improves_iff hdefault havg] at hpq hqr ⊢
    by_cases hmore : x.needMore = true
    · rw [if_pos hmore] at hpq hqr ⊢
      omega
    · have hmono := @adjust_mono c p.mw q.mw
      have hmono' := @adjust_mono c q.mw r.mw
      rw [if_neg hmore] at hpq hqr ⊢
      omega
  · exact fun p => decide_eq_true ⟨rfl, rfl⟩
  · intro p q z h
    obtain ⟨hmw, hmv⟩ := hsame h
    rw [Bool.eq_iff_iff, improves_iff hdefault havg, improves_iff hdefault havg, hmw, hmv]
  · intro p q z h
    obtain ⟨hmw, hmv⟩ := hsame h
    rw [Bool.eq_iff_iff, improves_iff hdefault havg, improves_iff hdefault havg, hmw, hmv]

/-! ## The scan -/

/-- What the scan keeps: no PDO seen is better, and the one of the active port among those that are the same, unless a
candidate without power counts as none. -/
structure Holds (c : Config) (x : Demand) (seen : List Candidate) (cand : Candidate) : Prop where
  mem : cand ∈ seen
  notBetter : ∀ o ∈ seen, improves c x o cand = false
  kind : x.needMore = true ∨ cand.mw ≠ 0 → ∀ o ∈ seen, sameOffer o cand = true →
    onActive x o = true → onActive x cand = true

variable {seen : List Candidate}

theorem consider_mem (h : cand ∈ seen) : consider c x cand o ∈ seen ++ [o] := by
  have hor : consider c x cand o = o ∨ consider c x cand o = cand := by
    rw [consider_eq]
    exact Lib.prefer_or
  rcases hor with heq | heq
  · rw [heq]
    exact List.mem_append_right _ (List.mem_singleton_self o)
  · rw [heq]
    exact List.mem_append_left _ h

theorem consider_none (hmore : x.needMore = false) (hzero : cand.mw = 0) : consider c x cand o = o := by
  have hreplaces : replaces c x o cand = true := by simp [replaces, hmore, hzero]
  rw [consider_eq, Lib.prefer]
  simp only [if_pos hreplaces, ite_self]

theorem consider_improves (h : x.needMore = true ∨ cand.mw ≠ 0) :
    consider c x cand o = Lib.prefer (improves c x) sameOffer (onActive x) cand o := by
  have hsame : improves c x o cand = replaces c x o cand := if_pos h
  rw [consider_eq, Lib.prefer, Lib.prefer, hsame]

theorem Holds.step (hdefault : c.isMoreEfficient = none) (havg : 0 < x.inputPwrAvg) (h : Holds c x seen cand)
    (o : Candidate) : Holds c x (seen ++ [o]) (consider c x cand o) := by
  have hmem := consider_mem (c := c) (x := x) (o := o) h.mem
  by_cases hcounts : x.needMore = true ∨ cand.mw ≠ 0
  · have hkept : Lib.Kept (improves c x) sameOffer (onActive x) seen cand := ⟨h.notBetter, h.kind hcounts⟩
    have hnext := hkept.step (improves_strict hdefault havg) o
    rw [← consider_improves hcounts] at hnext
    exact ⟨hmem, hnext.notBetter, fun _ => hnext.kind⟩
  · rw [not_or, not_not, Bool.not_eq_true] at hcounts
    obtain ⟨hmore, hzero⟩ := hcounts
    -- Nothing that was seen has any power.
    have hseen : ∀ y ∈ seen, y.mw = 0 := by
      intro y hy
      have hnot := h.notBetter y hy
      rw [improves, if_neg (by simp [hmore, hzero]), decide_eq_false_iff_not] at hnot
      omega
    rw [consider_none hmore hzero] at hmem ⊢
    refine ⟨hmem, fun y hy => ?_, fun hpower y hy hsame hactive => ?_⟩
    · rcases List.mem_append.mp hy with hy | hy
      · rw [← Bool.not_eq_true, improves_iff hdefault havg, if_neg (by simp [hmore]), hseen y hy, adjust_zero]
        omega
      · rw [List.mem_singleton.mp hy]
        exact (improves_strict hdefault havg).irrefl o
    · rcases List.mem_append.mp hy with hy | hy
      · have hmw := (of_decide_eq_true hsame).1
        rw [hseen y hy] at hmw
        rcases hpower with hyes | hne
        · rw [hmore] at hyes
          cases hyes
        · exact absurd hmw.symm hne
      · rwa [List.mem_singleton.mp hy] at hactive

theorem holds_scan (hdefault : c.isMoreEfficient = none) (havg : 0 < x.inputPwrAvg) (os : List Candidate) :
    Holds c x (noCandidate :: os) (os.foldl (consider c x) noCandidate) := by
  have hstart : Holds c x [noCandidate] noCandidate := by
    refine ⟨List.mem_singleton_self _, fun o ho => ?_, fun _ o ho _ hactive => ?_⟩
    · rw [List.mem_singleton.mp ho]
      exact (improves_strict hdefault havg).irrefl noCandidate
    · rwa [List.mem_singleton.mp ho] at hactive
  exact Lib.foldl_seen (fun _ _ o h => h.step hdefault havg o) hstart os

theorem consider_stays (hnot : replaces c x o noCandidate = false) (hmv : o.mv < int32Max) :
    consider c x noCandidate o = noCandidate := by
  have hother : sameOffer o noCandidate = false := by simp [sameOffer, noCandidate, Nat.ne_of_lt hmv]
  simp only [consider_eq, Lib.prefer, hnot, Bool.false_eq_true, if_false, hother, Bool.false_and]

theorem scan_stays (hnot : ∀ o ∈ os, replaces c x o noCandidate = false) (hmv : ∀ o ∈ os, o.mv < int32Max) :
    os.foldl (consider c x) noCandidate = noCandidate := by
  induction os with
  | nil => rfl
  | cons o os ih =>
    rw [List.foldl_cons, consider_stays (hnot o (List.mem_cons_self ..)) (hmv o (List.mem_cons_self ..))]
    exact ih (fun p hp => hnot p (List.mem_cons_of_mem _ hp)) fun p hp => hmv p (List.mem_cons_of_mem _ hp)

/-- Of PDOs without power the last one is picked when more power is not needed. -/
theorem scan_last (hmore : x.needMore = false) (hzero : ∀ o ∈ os, o.mw = 0) (hcand : cand.mw = 0) :
    os.foldl (consider c x) cand = os.getLast?.getD cand := by
  induction os generalizing cand with
  | nil => rfl
  | cons o os ih =>
    have hmw := hzero o (List.mem_cons_self ..)
    rw [List.foldl_cons, consider_none hmore hcand, ih (fun p hp => hzero p (List.mem_cons_of_mem _ hp)) hmw,
      List.getLast?_cons]
    rfl

/-! ## The pick -/

/-- A PDO that nothing improves on is as it should be, but for the port. -/
theorem Holds.best (hdefault : c.isMoreEfficient = none) (havg : 0 < x.inputPwrAvg) (h : Holds c x (noCandidate :: os) r)
    (hr : r ∈ os) :
    (∀ o ∈ os, Enough c x o → Enough c x r ∧ (x.needMore = true → distance r.mv x.battMv ≤ distance o.mv x.battMv)) ∧
      ((∀ o ∈ os, ¬Enough c x o) → ∀ o ∈ os, o.mw ≤ r.mw) := by
  have hnot : ∀ o ∈ os, ¬improves c x o r = true :=
    fun o ho => Bool.not_eq_true _ ▸ h.notBetter o (List.mem_cons_of_mem _ ho)
  constructor
  · intro o ho henough
    have hbetter := hnot o ho
    rw [improves_iff hdefault havg] at hbetter
    unfold Enough at henough ⊢
    by_cases hmore : x.needMore = true
    · simp only [if_pos hmore] at hbetter henough ⊢
      exact ⟨by omega, fun _ => by omega⟩
    · have hmono := @adjust_mono c o.mw r.mw
      simp only [if_neg hmore] at hbetter henough ⊢
      exact ⟨by omega, fun hyes => absurd hyes hmore⟩
  · intro hnone o ho
    have hbetter := hnot o ho
    have hself := hnone r hr
    rw [improves_iff hdefault havg] at hbetter
    unfold Enough at hself
    by_cases hmore : x.needMore = true
    · simp only [if_pos hmore] at hbetter hself
      omega
    · simp only [if_neg hmore] at hbetter hself
      omega

theorem Picked.spread (hdefault : c.isMoreEfficient = none) (havg : 0 < x.inputPwrAvg) (hmv : ∀ o ∈ os, o.mv < int32Max)
    (h : Picked c x os (os.foldl (consider c x) noCandidate)) : Spread x os := by
  have hnone : noCandidate ∉ os := fun hmem => absurd (hmv _ hmem) (Nat.lt_irrefl _)
  intro hzero
  by_cases hmore : x.needMore = true
  · rw [if_pos hmore]
    by_contra hfar
    have hnot : ∀ o ∈ os, replaces c x o noCandidate = false := by
      intro o ho
      have hsame : improves c x o noCandidate = replaces c x o noCandidate := if_pos (Or.inl hmore)
      have hno : ¬distance o.mv x.battMv < distance int32Max x.battMv := fun hlt => hfar ⟨o, ho, hlt⟩
      have hstart : noCandidate.mw = 0 ∧ noCandidate.mv = int32Max := ⟨rfl, rfl⟩
      rw [← hsame, ← Bool.not_eq_true, improves_iff hdefault havg, if_pos hmore, hzero o ho, hstart.1, hstart.2]
      omega
    exact hnone (scan_stays hnot hmv ▸ h.offered)
  · rw [if_neg hmore]
    intro last hlast
    -- Each PDO replaces the one before it, as none has any power.
    have hpick : os.foldl (consider c x) noCandidate = last := by
      rw [scan_last (Bool.not_eq_true _ ▸ hmore) hzero rfl, Option.mem_def.mp hlast, Option.getD_some]
    rw [hpick] at h
    by_cases hport : last.port = some x.activePort
    · exact Or.inl hport
    · refine Or.inr fun o ho hvolt hactive => hport (h.active o ho hvolt ?_ hactive)
      rw [hzero o ho, hzero last h.offered]

theorem Holds.leaves (h : Holds c x (noCandidate :: os) r) (ho : o ∈ os) (himproves : improves c x o noCandidate = true) :
    r ∈ os := by
  refine (List.mem_cons.mp h.mem).resolve_left fun heq => ?_
  have hnot := h.notBetter o (List.mem_cons_of_mem _ ho)
  rw [heq, himproves] at hnot
  cases hnot

theorem scan_getLast (hmore : ¬x.needMore = true) (hzero : ∀ o ∈ os, o.mw = 0) (hsome : os ≠ []) :
    os.foldl (consider c x) noCandidate = os.getLast hsome := by
  rw [scan_last (Bool.not_eq_true _ ▸ hmore) hzero rfl, List.getLast?_eq_some_getLast hsome, Option.getD_some]

/-- A PDO is picked, and its port counts unless nothing has any power. -/
theorem Spread.offered (hdefault : c.isMoreEfficient = none) (havg : 0 < x.inputPwrAvg) (hsome : os ≠ []) (h : Spread x os)
    (hr : os.foldl (consider c x) noCandidate = r) : r ∈ os ∧ (x.needMore = true ∨ r.mw ≠ 0 ∨ ∀ o ∈ os, o.mw = 0) := by
  have hholds : Holds c x (noCandidate :: os) r := hr ▸ holds_scan hdefault havg os
  by_cases hzero : ∀ o ∈ os, o.mw = 0
  · have hcase := h hzero
    refine ⟨?_, Or.inr (Or.inr hzero)⟩
    by_cases hmore : x.needMore = true
    · rw [if_pos hmore] at hcase
      obtain ⟨o, ho, hcloser⟩ := hcase
      refine hholds.leaves ho ?_
      rw [improves_iff hdefault havg, if_pos hmore]
      exact Or.inl ⟨havg, Or.inr ⟨hzero o ho, hcloser⟩⟩
    · rw [← hr, scan_getLast hmore hzero hsome]
      exact List.getLast_mem hsome
  · obtain ⟨o, hrest⟩ := not_forall.mp hzero
    obtain ⟨ho, hmw⟩ := Classical.not_imp.mp hrest
    refine ⟨hholds.leaves ho ?_, ?_⟩
    · rw [improves_iff hdefault havg]
      have hzeroMw : noCandidate.mw = 0 := rfl
      rw [hzeroMw, adjust_zero]
      split <;> omega
    · by_cases hmore : x.needMore = true
      · exact Or.inl hmore
      · refine Or.inr (Or.inl fun hrmw => ?_)
        have hnot := hholds.notBetter o (List.mem_cons_of_mem _ ho)
        rw [improves, if_neg (by simp [hmore, hrmw]), decide_eq_false_iff_not] at hnot
        omega

theorem Spread.active (hdefault : c.isMoreEfficient = none) (havg : 0 < x.inputPwrAvg) (hsome : os ≠ []) (h : Spread x os)
    (hr : os.foldl (consider c x) noCandidate = r) (ho : o ∈ os) (hvolt : o.mv = r.mv) (hmw : o.mw = r.mw)
    (hactive : o.port = some x.activePort) : r.port = some x.activePort := by
  have hholds : Holds c x (noCandidate :: os) r := hr ▸ holds_scan hdefault havg os
  have hsame : sameOffer o r = true := decide_eq_true ⟨hmw, hvolt⟩
  have hkept : (x.needMore = true ∨ r.mw ≠ 0) → r.port = some x.activePort := fun hkind =>
    of_decide_eq_true (hholds.kind hkind o (List.mem_cons_of_mem _ ho) hsame (decide_eq_true hactive))
  rcases or_assoc.mpr (h.offered hdefault havg hsome hr).2 with hkind | hzero
  · exact hkept hkind
  · have hcase := h hzero
    by_cases hmore : x.needMore = true
    · exact hkept (Or.inl hmore)
    · rw [if_neg hmore] at hcase
      have hlast : r ∈ os.getLast? := by
        rw [← hr, scan_getLast hmore hzero hsome]
        exact List.getLast?_eq_some_getLast hsome
      exact (hcase r hlast).resolve_right fun hothers => hothers o ho hvolt hactive

theorem picked_iff (hdefault : c.isMoreEfficient = none) (havg : 0 < x.inputPwrAvg) (hsome : os ≠ [])
    (hmv : ∀ o ∈ os, o.mv < int32Max) : Picked c x os (os.foldl (consider c x) noCandidate) ↔ Spread x os := by
  refine ⟨fun h => h.spread hdefault havg hmv, fun h => ?_⟩
  obtain ⟨hmem, -⟩ := h.offered hdefault havg hsome rfl
  obtain ⟨henough, hpower⟩ := (holds_scan hdefault havg os).best hdefault havg hmem
  exact ⟨hmem, henough, hpower, fun o ho => h.active hdefault havg hsome rfl ho⟩

/-! ## The request -/

theorem length_le_sum {l : List Nat} {f : Nat → Nat} (h : ∀ i ∈ l, 0 < f i) : l.length ≤ (l.map f).sum := by
  induction l with
  | nil => exact le_refl _
  | cons a l ih =>
    have hone := h a (List.mem_cons_self ..)
    have hrest := ih fun i hi => h i (List.mem_cons_of_mem a hi)
    rw [List.length_cons, List.map_cons, List.sum_cons]
    omega

theorem Stats.average_pos {s : Stats c} (h : c.kWindow ≤ s.movingAvgCount) : 0 < s.average.1 := by
  have hsum : (List.range c.kWindow).length ≤ ((List.range c.kWindow).map s.inputPwrs).sum := by
    refine length_le_sum fun i hi => ?_
    have hlt := List.mem_range.mp hi
    exact s.recorded i (Nat.lt_of_lt_of_le hlt h) hlt
  rw [List.length_range] at hsum
  exact Nat.div_pos hsum c.kWindow_pos

variable {e : Env} {s s' : Stats c} {port battMv : Nat}

theorem averages_full (h : averages e s = (s', some (port, battMv))) : c.kWindow ≤ s'.movingAvgCount := by
  unfold averages at h
  split at h
  · cases h
  · split at h
    · cases h
    · split at h
      · cases h
      · simp only at h
        split at h
        · split at h
          · cases h
          · rename_i hfull
            obtain ⟨rfl, -⟩ := Prod.mk.inj h
            exact Nat.le_of_not_lt hfull
        · cases h

theorem inputPwrAvg_pos (h : averages e s = (s', some (port, battMv))) : 0 < (demand e s' port battMv).inputPwrAvg := by
  simp only [demand]
  split
  · exact Nat.succ_pos _
  · exact Stats.average_pos (averages_full h)

theorem candidate_eq (b : Board) (h : averages e s = (s', some (port, battMv))) : (hasNewPowerRequest b e s).2.1 =
    (offers b (demand e s' port battMv) 0 e.ports).foldl (consider c (demand e s' port battMv)) noCandidate := by
  rw [hasNewPowerRequest, h]
  exact scanPorts_eq

/-- With the measure that is the default, the PDO that DPS picks is as it should be exactly when the PDOs that it can pick
have some power, or lie as `Spread` says. -/
theorem picked_request_iff (b : Board) (hdefault : c.isMoreEfficient = none) (h : averages e s = (s', some (port, battMv)))
    (hsome : offers b (demand e s' port battMv) 0 e.ports ≠ []) :
    Picked c (demand e s' port battMv) (offers b (demand e s' port battMv) 0 e.ports) (hasNewPowerRequest b e s).2.1 ↔
      Spread (demand e s' port battMv) (offers b (demand e s' port battMv) 0 e.ports) := by
  rw [candidate_eq b h]
  exact picked_iff hdefault (inputPwrAvg_pos h) hsome fun o ho => mv_lt ho

def defaultConfig : Config where
  kLessPwr := 93
  kMorePwr := 96
  kSample := 1
  kWindow := 3
  tStable := 10000000
  tCheck := 5000000
  isMoreEfficient := none
  kWindow_pos := by decide
  kSample_pos := by decide

/-- Two samples of 4.5 W were recorded. -/
def sampled : Stats defaultConfig where
  inputPwrs := fun _ => 4500
  inputCurrs := fun _ => 500
  prevActivePort := some 0
  prevReqMv := 9000
  movingAvgCount := 2
  recorded := fun _ _ _ => by decide

/-- The third is taken, on port 0. -/
def sampling (ports : List Port) : Env where
  activePort := some 0
  reqMv := 9000
  reqMa := 3000
  battMv := some 7700
  battMw := 0
  inputCurrent := some 500
  vbus := 9000
  fake := none
  inputCurrentLimit := some 3000
  staleLimit := 0
  maxVoltage := 20000
  ports := ports
  batteryPresent := true

/-- 5 V, 9 V and 15 V of 3 A on the active port, 5 V and 9 V on another one, and a port that is a source. The battery
has 15.2 V. -/
def manyOffers : Env :=
  { sampling [⟨true, .sink, [0x0001912C, 0x0002D12C, 0x0004B12C]⟩, ⟨true, .sink, [0x0001912C, 0x0002D0C8]⟩,
      ⟨true, .source, []⟩] with battMv := some 15200 }

theorem picked_request_iff_15V :
    (hasNewPowerRequest octopus manyOffers sampled).2.1 = ⟨some 0, 15000, 45000⟩ ∧
      Picked defaultConfig (demand manyOffers (averages manyOffers sampled).1 0 15200)
        (offers octopus (demand manyOffers (averages manyOffers sampled).1 0 15200) 0 manyOffers.ports)
        (hasNewPowerRequest octopus manyOffers sampled).2.1 := by
  have hoffers : offers octopus (demand manyOffers (averages manyOffers sampled).1 0 15200) 0 manyOffers.ports =
      [⟨some 0, 5000, 15000⟩, ⟨some 0, 9000, 27000⟩, ⟨some 0, 15000, 45000⟩, ⟨some 1, 5000, 15000⟩,
        ⟨some 1, 9000, 18000⟩] := by decide +kernel
  refine ⟨by decide +kernel, (picked_request_iff octopus rfl rfl (by rw [hoffers]; exact List.cons_ne_nil _ _)).mpr ?_⟩
  intro hnone
  rw [hoffers] at hnone
  exact absurd (hnone _ (List.mem_cons_self ..)) (by decide)

/-- Two ports offer 5 V without a current. The active one is the first, and the second is picked. -/
def tie : Env := sampling [⟨true, .sink, [0x00019000]⟩, ⟨true, .sink, [0x00019000]⟩]

theorem tie_lost : (averages tie sampled).2 = some (0, 7700) ∧
    ¬Picked defaultConfig (demand tie (averages tie sampled).1 0 7700)
      (offers octopus (demand tie (averages tie sampled).1 0 7700) 0 tie.ports)
        (hasNewPowerRequest octopus tie sampled).2.1 := by
  refine ⟨rfl, fun h => ?_⟩
  have hpick : (hasNewPowerRequest octopus tie sampled).2.1 = ⟨some 1, 5000, 0⟩ := by decide +kernel
  have hoffer : (⟨some 0, 5000, 0⟩ : Candidate) ∈ offers octopus
      (demand tie (averages tie sampled).1 0 7700) 0 tie.ports := by
    decide +kernel
  rw [hpick] at h
  exact absurd (h.active _ hoffer rfl rfl rfl) (by decide)

end ChromeEc.Dps
