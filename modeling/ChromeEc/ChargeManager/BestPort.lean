import ChromeEc.Lib.Select
import ChromeEc.ChargeManager.Model

/- The best charge port.

  The two loops of `charge_manager_get_best_port` are one scan over all pairs of a
  supplier and a port, as long as DPS does not select a port. Without an override port
  the scan is that of `Lib.select`, with an order of priority, power and whether the
  port is the current one; with an override port the pairs of other ports drop out as
  soon as there is one of that port.

  What is proved: every pair that is selected is eligible (`scan_ok`), and the pair is an
  optimum (`best_port_optimal`). -/
namespace ChromeEc.ChargeManager
open Lib

section

variable (c : Config) (e : Env) (s : St)

/-! ## Candidates -/

/-- There is charge, and the port may be charged from. -/
def isOpen (i p : Nat) : Bool :=
  isValidPort c p && (s.availableCharge i p).current != 0 && (s.availableCharge i p).voltage != 0 &&
    isDualroleChargingCapable c e s p

/-- A pair of a supplier and a port that can be selected. -/
structure Eligible (i p : Nat) : Prop where
  supplier : i < c.supplierCount
  port : isValidPort c p = true
  current : (s.availableCharge i p).current ≠ 0
  voltage : (s.availableCharge i p).voltage ≠ 0
  dualrole : isDualroleChargingCapable c e s p = true

theorem eligible_iff (i p : Nat) :
    Eligible c e s i p ↔ i < c.supplierCount ∧ isOpen c e s i p = true := by
  simp only [isOpen, Bool.and_eq_true, bne_iff_ne]
  constructor
  · intro h
    exact ⟨h.supplier, ⟨⟨h.port, h.current⟩, h.voltage⟩, h.dualrole⟩
  · rintro ⟨hsup, ⟨⟨hport, hcurrent⟩, hvoltage⟩, hdualrole⟩
    exact ⟨hsup, hport, hcurrent, hvoltage, hdualrole⟩

theorem isValidPort_lt {p : Nat} (h : isValidPort c p = true) : p < c.chargePortCount := by
  simp only [isValidPort, Bool.and_eq_true, decide_eq_true_eq] at h
  exact h.1

def dpsSelects (i p : Nat) : Bool :=
  c.usbPdDps && s.overridePort == .off && i == chargeSupplierPd && e.dpsGetChargePort == some p

/-- A pair that is looked at replaces the best one, or not. -/
def visit (i : Nat) (b : Best) (p : Nat) : Best :=
  if isOpen c e s i p && !isOverridden s p b &&
      isBetter c s i p (getCandidatePortPower c e s i p) b then
    ⟨some i, some p, getCandidatePortPower c e s i p⟩
  else b

theorem scanPorts_cons (i p : Nat) (ps : List Nat) (b : Best) :
    scanPorts c e s i (p :: ps) b =
      if isOpen c e s i p && !isOverridden s p b && dpsSelects c e s i p then
        { b with supplier := some i, port := some p }
      else scanPorts c e s i ps (visit c e s i b p) := by
  rw [scanPorts]
  by_cases hvalid : isValidPort c p = true
  · by_cases hcharge : ((s.availableCharge i p).current == 0 ||
        (s.availableCharge i p).voltage == 0) = true
    · have hclosed : isOpen c e s i p = false := by
        simp only [Bool.or_eq_true, beq_iff_eq] at hcharge
        obtain h | h := hcharge <;> simp [isOpen, h]
      simp [hvalid, hcharge, hclosed, visit]
    · by_cases hdualrole : isDualroleChargingCapable c e s p = true
      · have hopen : isOpen c e s i p = true := by
          simp only [Bool.or_eq_true, beq_iff_eq, not_or] at hcharge
          simp [isOpen, hvalid, hcharge, hdualrole]
        cases hover : isOverridden s p b with
        | true => simp [hvalid, hcharge, hopen, hover, visit]
        | false =>
          cases hdps : dpsSelects c e s i p with
          | true =>
            simp only [dpsSelects] at hdps
            simp [hvalid, hcharge, hopen, hdualrole, hdps]
          | false =>
            simp only [dpsSelects] at hdps
            cases hbetter : isBetter c s i p (getCandidatePortPower c e s i p) b with
            | true => simp [hvalid, hcharge, hopen, hover, hdualrole, hdps, hbetter, visit]
            | false => simp [hvalid, hcharge, hopen, hover, hdualrole, hdps, hbetter, visit]
      · have hclosed : isOpen c e s i p = false := by simp [isOpen, hdualrole]
        simp [hvalid, hcharge, hdualrole, hclosed, visit]
  · have hclosed : isOpen c e s i p = false := by simp [isOpen, hvalid]
    simp [hvalid, hclosed, visit]

theorem scanPorts_eq_foldl {i : Nat} {ps : List Nat}
    (h : ∀ p ∈ ps, isOpen c e s i p = true → dpsSelects c e s i p = false) (b : Best) :
    scanPorts c e s i ps b = ps.foldl (visit c e s i) b := by
  induction ps generalizing b with
  | nil => rfl
  | cons p ps ih =>
    have hgo : (isOpen c e s i p && !isOverridden s p b && dpsSelects c e s i p) = false := by
      cases hp : isOpen c e s i p with
      | false => rfl
      | true => rw [h p List.mem_cons_self hp, Bool.and_false]
    rw [scanPorts_cons, hgo, if_neg Bool.false_ne_true, List.foldl_cons]
    exact ih (fun q hq => h q (List.mem_cons_of_mem p hq)) _

/-! ## What is selected is eligible -/

/-- Nothing was selected yet, or an eligible pair. -/
def BestOk (b : Best) : Prop :=
  (b.supplier = none ∧ b.port = none) ∨
    ∃ i p, b.supplier = some i ∧ b.port = some p ∧ Eligible c e s i p

variable {c e s}

theorem scanPorts_ok {i : Nat} (hi : i < c.supplierCount) (ps : List Nat) {b : Best}
    (hb : BestOk c e s b) : BestOk c e s (scanPorts c e s i ps b) := by
  induction ps generalizing b with
  | nil => exact hb
  | cons p ps ih =>
    have helig : isOpen c e s i p = true → Eligible c e s i p :=
      fun hopen => (eligible_iff c e s i p).mpr ⟨hi, hopen⟩
    rw [scanPorts_cons]
    split
    · next h =>
      simp only [Bool.and_eq_true] at h
      exact .inr ⟨i, p, rfl, rfl, helig h.1.1⟩
    · apply ih
      unfold visit
      split
      · next h =>
        simp only [Bool.and_eq_true] at h
        exact .inr ⟨i, p, rfl, rfl, helig h.1.1⟩
      · exact hb

theorem scan_ok : BestOk c e s (scan c e s) := by
  have hloop : ∀ (is : List Nat) (b : Best), (∀ i ∈ is, i < c.supplierCount) → BestOk c e s b →
      BestOk c e s (is.foldl (fun b i => scanPorts c e s i (List.range c.chargePortCount) b) b) := by
    intro is
    induction is with
    | nil => exact fun b _ hb => hb
    | cons i is ih =>
      intro b his hb
      have hi := his i (List.mem_cons_self ..)
      exact ih _ (fun j hj => his j (List.mem_cons_of_mem i hj)) (scanPorts_ok hi _ hb)
  exact hloop _ _ (fun i hi => List.mem_range.mp hi) (.inl ⟨rfl, rfl⟩)

end

/-! ## One scan over all pairs -/

section

variable (c : Config) (e : Env) (s : St)

def DpsSelects : Prop := ∃ i p, Eligible c e s i p ∧ dpsSelects c e s i p = true

def pairs : List (Nat × Nat) :=
  (List.range c.supplierCount).flatMap fun i => (List.range c.chargePortCount).map fun p => (i, p)

theorem mem_pairs {i p : Nat} :
    (i, p) ∈ pairs c ↔ i < c.supplierCount ∧ p < c.chargePortCount := by
  simp [pairs]

def toBest : Option (Nat × Nat) → Best
  | none => ⟨none, none, -1⟩
  | some (i, p) => ⟨some i, some p, getCandidatePortPower c e s i p⟩

variable {c e s}

theorem scan_eq (hdps : ¬DpsSelects c e s) :
    scan c e s = (pairs c).foldl (fun b x => visit c e s x.1 b x.2) (toBest c e s none) := by
  have hports : ∀ i, i < c.supplierCount → ∀ (ps : List Nat) (b : Best),
      scanPorts c e s i ps b = ps.foldl (visit c e s i) b := by
    intro i hi ps
    refine scanPorts_eq_foldl c e s ?_
    intro p _ hopen
    exact Bool.eq_false_iff.mpr fun h => hdps ⟨i, p, (eligible_iff c e s i p).mpr ⟨hi, hopen⟩, h⟩
  have hsuppliers : ∀ (is : List Nat) (b : Best), (∀ i ∈ is, i < c.supplierCount) →
      is.foldl (fun b i => scanPorts c e s i (List.range c.chargePortCount) b) b =
        is.foldl (fun b i => (List.range c.chargePortCount).foldl (visit c e s i) b) b := by
    intro is
    induction is with
    | nil => exact fun b _ => rfl
    | cons i is ih =>
      intro b his
      rw [List.foldl_cons, List.foldl_cons, hports i (his i (List.mem_cons_self ..))]
      exact ih _ fun j hj => his j (List.mem_cons_of_mem i hj)
  rw [scan, hsuppliers _ _ fun i hi => List.mem_range.mp hi, pairs, List.foldl_flatMap]
  simp only [List.foldl_map]
  rfl

/-! ## The order -/

variable (c e s)

/-- The rules for a pair to replace the best one, apart from that for an override port. -/
def takes (x b : Nat × Nat) : Bool :=
  c.supplierPriority x.1 < c.supplierPriority b.1 ||
    (c.supplierPriority x.1 == c.supplierPriority b.1 &&
      (getCandidatePortPower c e s x.1 x.2 > getCandidatePortPower c e s b.1 b.2 ||
        (getCandidatePortPower c e s x.1 x.2 == getCandidatePortPower c e s b.1 b.2 &&
          s.chargePort == some x.2)))

def NotBetter (y x : Nat × Nat) : Prop :=
  c.supplierPriority x.1 < c.supplierPriority y.1 ∨
    (c.supplierPriority x.1 = c.supplierPriority y.1 ∧
      (getCandidatePortPower c e s y.1 y.2 < getCandidatePortPower c e s x.1 x.2 ∨
        (getCandidatePortPower c e s y.1 y.2 = getCandidatePortPower c e s x.1 x.2 ∧
          (s.chargePort = some y.2 → s.chargePort = some x.2))))

theorem takes_follows : Follows (takes c e s) (NotBetter c e s) where
  refl := fun x => .inr ⟨rfl, .inr ⟨rfl, id⟩⟩
  trans := by
    intro x y z hxy hyz
    obtain h | ⟨h, hxy⟩ := hxy
    · obtain h' | ⟨h', -⟩ := hyz
      · exact .inl (Int.lt_trans h' h)
      · exact .inl (h' ▸ h)
    · obtain h' | ⟨h', hyz⟩ := hyz
      · exact .inl (h ▸ h')
      · refine .inr ⟨h'.trans h, ?_⟩
        obtain hlt | ⟨heq, hcur⟩ := hxy
        · obtain hlt' | ⟨heq', -⟩ := hyz
          · exact .inl (Int.lt_trans hlt hlt')
          · exact .inl (heq' ▸ hlt)
        · obtain hlt' | ⟨heq', hcur'⟩ := hyz
          · exact .inl (heq ▸ hlt')
          · exact .inr ⟨heq.trans heq', fun hx => hcur' (hcur hx)⟩
  taken := by
    intro x b h
    simp only [takes, Bool.or_eq_true, Bool.and_eq_true, decide_eq_true_eq, beq_iff_eq] at h
    obtain hlt | ⟨heq, hgt | ⟨hpow, hcur⟩⟩ := h
    · exact .inl hlt
    · exact .inr ⟨heq, .inl hgt⟩
    · exact .inr ⟨heq, .inr ⟨hpow.symm, fun _ => hcur⟩⟩
  left := by
    intro x b h
    simp only [takes, Bool.or_eq_false_iff, Bool.and_eq_false_iff, decide_eq_false_iff_not,
      beq_eq_false_iff_ne] at h
    obtain ⟨hprio, hrest⟩ := h
    obtain hlt | heq := Int.lt_or_eq_of_le (Int.not_lt.mp hprio)
    · exact .inl hlt
    · refine .inr ⟨heq, ?_⟩
      obtain hne | ⟨hgt, htie⟩ := hrest
      · exact absurd heq.symm hne
      · obtain hlt | hpow := Int.lt_or_eq_of_le (Int.not_lt.mp hgt)
        · exact .inl hlt
        · refine .inr ⟨hpow, ?_⟩
          intro hcur
          obtain hne | hne := htie
          · exact absurd hpow hne
          · exact absurd hcur hne

variable {c e s}

theorem isBetter_toBest {i p : Nat} {b : Nat × Nat} (h : s.overridePort ≠ .port p ∨ b.2 = p) :
    isBetter c s i p (getCandidatePortPower c e s i p) (toBest c e s (some b)) = takes c e s (i, p) b := by
  have hover : (s.overridePort == .port p && some b.2 != some p) = false := by
    obtain h | h := h
    · simp [h]
    · simp [h]
  simp only [isBetter, toBest, takes, hover, Bool.or_false]
  rfl

end

/-! ## The optimum -/

section

variable (c : Config) (e : Env) (s : St)

def offeredPower (i p : Nat) : Int :=
  let offered := (s.availableCharge i p).current * (s.availableCharge i p).voltage
  if c.usbPdcPowerMgmt && isPdPort c p then max (e.getPdPortMaxPower p) offered else offered

/-- A pair with `P` of the least priority value, of these one with the most power, and of
these one on the charge port if there is one. -/
structure Optimal (P : Nat → Nat → Prop) (i p : Nat) : Prop where
  mem : P i p
  priority : ∀ j q, P j q → c.supplierPriority i ≤ c.supplierPriority j
  power : ∀ j q, P j q → c.supplierPriority j = c.supplierPriority i →
    offeredPower c e s j q ≤ offeredPower c e s i p
  current : ∀ j q, P j q → c.supplierPriority j = c.supplierPriority i →
    offeredPower c e s j q = offeredPower c e s i p → s.chargePort = some q → s.chargePort = some p

/-- No product of a pair that can be selected overflows an `int`. -/
def ProductsFit : Prop :=
  ∀ i p, Eligible c e s i p →
    -2 ^ 31 ≤ (s.availableCharge i p).current * (s.availableCharge i p).voltage ∧
      (s.availableCharge i p).current * (s.availableCharge i p).voltage < 2 ^ 31

variable {c e s}

theorem getCandidatePortPower_eq (hfit : ProductsFit c e s) {i p : Nat} (h : Eligible c e s i p) :
    getCandidatePortPower c e s i p = offeredPower c e s i p := by
  obtain ⟨hlow, hhigh⟩ := hfit i p h
  have hpower : power (s.availableCharge i p) =
      (s.availableCharge i p).current * (s.availableCharge i p).voltage := by
    apply Int.bmod_eq_of_le <;> omega
  simp only [getCandidatePortPower, offeredPower, hpower]

/-- The greatest pair of the order is an optimum. -/
theorem Optimal.of_greatest (hfit : ProductsFit c e s) {P : Nat → Nat → Prop}
    (hP : ∀ i p, P i p → Eligible c e s i p) {i p : Nat} (hmem : P i p)
    (hall : ∀ j q, P j q → NotBetter c e s (j, q) (i, p)) : Optimal c e s P i p := by
  have hpower := getCandidatePortPower_eq hfit (hP i p hmem)
  refine ⟨hmem, ?_, ?_, ?_⟩
  · intro j q hq
    obtain h | ⟨h, -⟩ := hall j q hq
    · exact Int.le_of_lt h
    · exact Int.le_of_eq h
  · intro j q hq hprio
    rw [← hpower, ← getCandidatePortPower_eq hfit (hP j q hq)]
    obtain h | ⟨-, h | ⟨h, -⟩⟩ := hall j q hq
    · exact absurd hprio.symm (Int.ne_of_lt h)
    · exact Int.le_of_lt h
    · exact Int.le_of_eq h
  · intro j q hq hprio htie
    rw [← hpower, ← getCandidatePortPower_eq hfit (hP j q hq)] at htie
    obtain h | ⟨-, h | ⟨-, h⟩⟩ := hall j q hq
    · exact absurd hprio.symm (Int.ne_of_lt h)
    · exact absurd htie (Int.ne_of_lt h)
    · exact h

theorem getBestPort_eq_scan (hover : s.overridePort ≠ .dontCharge)
    (hbattery : isBatteryDisconnected c e = false) :
    getBestPort c e s = ((scan c e s).port, (scan c e s).supplier) := by
  have hkeeps : keepsPort c e s (scan c e s) = false := by simp [keepsPort, hbattery]
  simp [getBestPort, hover, hkeeps]

/-! ### Without an override port -/

theorem visit_off (hover : s.overridePort = .off) (i p : Nat) (best : Option (Nat × Nat)) :
    visit c e s i (toBest c e s best) p =
      toBest c e s (if isOpen c e s i p then select (takes c e s) best (i, p) else best) := by
  have hskip : ∀ b, isOverridden s p b = false := fun b => by simp [isOverridden, hover]
  cases hopen : isOpen c e s i p with
  | false => simp [visit, hopen]
  | true =>
    cases best with
    | none => simp [visit, hopen, hskip, isBetter, toBest, select]
    | some b =>
      have hbetter : isBetter c s i p (getCandidatePortPower c e s i p) (toBest c e s (some b)) =
          takes c e s (i, p) b := isBetter_toBest (.inl (by simp [hover]))
      cases htakes : takes c e s (i, p) b with
      | false => simp [visit, hbetter, htakes, select]
      | true =>
        simp only [visit, hopen, hskip, hbetter, htakes, select]
        rfl

theorem scan_off (hover : s.overridePort = .off) (hdps : ¬DpsSelects c e s) :
    scan c e s = toBest c e s
      (((pairs c).filter fun x => isOpen c e s x.1 x.2).foldl (select (takes c e s)) none) := by
  have hfold : ∀ (xs : List (Nat × Nat)) (best : Option (Nat × Nat)),
      xs.foldl (fun b x => visit c e s x.1 b x.2) (toBest c e s best) =
        toBest c e s (xs.foldl
          (fun o x => if isOpen c e s x.1 x.2 then select (takes c e s) o x else o) best) := by
    intro xs
    induction xs with
    | nil => exact fun best => rfl
    | cons x xs ih =>
      intro best
      rw [List.foldl_cons, visit_off hover, ih, List.foldl_cons]
  rw [scan_eq hdps, hfold, List.foldl_filter]

/-! ### With an override port -/

variable (c e s)

/-- What the loops have found, against the best pair of the override port `o`. -/
def Tracks (o : Nat) (b : Best) : Option (Nat × Nat) → Prop
  | none => b.port ≠ some o
  | some x => x.2 = o ∧ b = toBest c e s (some x)

variable {c e s}

/-- Pairs of other ports count only until there is one of the override port. -/
theorem Tracks.visit {o : Nat} (hover : s.overridePort = .port o) {b : Best}
    {best : Option (Nat × Nat)} (h : Tracks c e s o b best) (i p : Nat) :
    Tracks c e s o (visit c e s i b p)
      (if isOpen c e s i p && p == o then select (takes c e s) best (i, p) else best) := by
  cases hopen : isOpen c e s i p with
  | false => simpa [ChargeManager.visit, hopen] using h
  | true =>
    by_cases hp : p = o
    · subst hp
      have hskip : isOverridden s p b = false := by simp [isOverridden, hover]
      cases best with
      | none =>
        have hport : b.port ≠ some p := h
        have hbetter : isBetter c s i p (getCandidatePortPower c e s i p) b = true := by
          unfold isBetter
          split
          · rfl
          · simp [hover, hport]
        simp [ChargeManager.visit, hopen, hskip, hbetter, select, Tracks, toBest]
      | some x =>
        obtain ⟨hx, rfl⟩ := h
        have hbetter : isBetter c s i p (getCandidatePortPower c e s i p) (toBest c e s (some x)) =
            takes c e s (i, p) x := isBetter_toBest (.inr hx)
        cases htakes : takes c e s (i, p) x with
        | false => simp [ChargeManager.visit, hbetter, htakes, select, Tracks, hx]
        | true =>
          have hvisit : ChargeManager.visit c e s i (toBest c e s (some x)) p =
              toBest c e s (some (i, p)) := by
            simp only [ChargeManager.visit, hopen, hskip, hbetter, htakes]
            rfl
          rw [hvisit]
          simp [htakes, select, Tracks]
    · have hother : (true && p == o) = false := by simp [hp]
      rw [hother]
      cases best with
      | none =>
        have hport : b.port ≠ some o := h
        simp only [Bool.false_eq_true, if_false, Tracks, ChargeManager.visit]
        split
        · simpa using hp
        · exact hport
      | some x =>
        obtain ⟨hx, rfl⟩ := h
        -- The override port has a charge, so this one is skipped.
        have hskip : isOverridden s p (toBest c e s (some x)) = true := by
          simp [isOverridden, hover, toBest, hx, Ne.symm hp]
        simpa [ChargeManager.visit, hskip, Tracks] using hx

theorem scan_override {o : Nat} (hover : s.overridePort = .port o) (hdps : ¬DpsSelects c e s) :
    Tracks c e s o (scan c e s)
      (((pairs c).filter fun x => isOpen c e s x.1 x.2 && x.2 == o).foldl
        (select (takes c e s)) none) := by
  have hfold : ∀ (xs : List (Nat × Nat)) (b : Best) (best : Option (Nat × Nat)),
      Tracks c e s o b best →
      Tracks c e s o (xs.foldl (fun b x => visit c e s x.1 b x.2) b)
        (xs.foldl (fun r x => if isOpen c e s x.1 x.2 && x.2 == o then
          select (takes c e s) r x else r) best) := by
    intro xs
    induction xs with
    | nil => exact fun b best h => h
    | cons x xs ih => exact fun b best h => ih _ _ (h.visit hover x.1 x.2)
  rw [scan_eq hdps, List.foldl_filter]
  exact hfold _ _ _ (by simp [Tracks, toBest])

/-! ### The theorem -/

theorem mem_open_pairs {i p : Nat} :
    (i, p) ∈ (pairs c).filter (fun x => isOpen c e s x.1 x.2) ↔ Eligible c e s i p := by
  rw [List.mem_filter, mem_pairs, eligible_iff]
  constructor
  · rintro ⟨⟨hi, -⟩, hopen⟩
    exact ⟨hi, hopen⟩
  · rintro ⟨hi, hopen⟩
    have hvalid := ((eligible_iff c e s i p).mpr ⟨hi, hopen⟩).port
    exact ⟨⟨hi, isValidPort_lt c hvalid⟩, hopen⟩

theorem mem_override_pairs {o i p : Nat} :
    (i, p) ∈ (pairs c).filter (fun x => isOpen c e s x.1 x.2 && x.2 == o) ↔
      Eligible c e s i p ∧ p = o := by
  rw [← mem_open_pairs, List.mem_filter, List.mem_filter, Bool.and_eq_true, beq_iff_eq, and_assoc]

/-- With the battery there and no port selected by DPS, the best port is an optimum of all
ports or of the override port. -/
theorem best_port_optimal (hfit : ProductsFit c e s) (hbattery : isBatteryDisconnected c e = false)
    (hdps : ¬DpsSelects c e s) :
    (s.overridePort = .off →
      ((∀ i p, ¬Eligible c e s i p) ∧ getBestPort c e s = (none, none)) ∨
        ∃ i p, getBestPort c e s = (some p, some i) ∧ Optimal c e s (Eligible c e s) i p) ∧
    (∀ o, s.overridePort = .port o → (∃ i, Eligible c e s i o) →
      ∃ i, getBestPort c e s = (some o, some i) ∧
        Optimal c e s (fun j q => Eligible c e s j q ∧ q = o) i o) ∧
    (s.overridePort = .dontCharge → getBestPort c e s = (none, none)) := by
  refine ⟨?_, ?_, ?_⟩
  · intro hover
    rw [getBestPort_eq_scan (by simp [hover]) hbattery, scan_off hover hdps]
    cases hr : ((pairs c).filter fun x => isOpen c e s x.1 x.2).foldl (select (takes c e s)) none with
    | none =>
      refine .inl ⟨?_, rfl⟩
      intro i p helig
      have hmem := mem_open_pairs.mpr helig
      rw [(foldl_select_none hr).2] at hmem
      exact List.not_mem_nil hmem
    | some x =>
      obtain ⟨i, p⟩ := x
      have hgreatest := foldl_select_greatest (takes_follows c e s) _ hr
      have hmem := hgreatest.mem.resolve_left nofun
      refine .inr ⟨i, p, rfl, .of_greatest hfit (fun _ _ h => h) (mem_open_pairs.mp hmem) ?_⟩
      exact fun j q hq => hgreatest.all (j, q) (mem_open_pairs.mpr hq)
  · intro o hover ⟨i₀, hi₀⟩
    have htracks := scan_override (c := c) (e := e) hover hdps
    rw [getBestPort_eq_scan (by simp [hover]) hbattery]
    cases hr : ((pairs c).filter fun x => isOpen c e s x.1 x.2 && x.2 == o).foldl
        (select (takes c e s)) none with
    | none =>
      have hmem := mem_override_pairs.mpr ⟨hi₀, rfl⟩
      rw [(foldl_select_none hr).2] at hmem
      exact absurd hmem List.not_mem_nil
    | some x =>
      obtain ⟨i, p⟩ := x
      rw [hr] at htracks
      obtain ⟨hp, hscan⟩ := htracks
      obtain rfl : p = o := hp
      have hgreatest := foldl_select_greatest (takes_follows c e s) _ hr
      have hmem := hgreatest.mem.resolve_left nofun
      refine ⟨i, by rw [hscan]; rfl,
        .of_greatest hfit (fun _ _ h => h.1) (mem_override_pairs.mp hmem) ?_⟩
      exact fun j q hq => hgreatest.all (j, q) (mem_override_pairs.mpr hq)
  · intro hover
    simp [getBestPort, hover]

end

/-! ### Two ports -/

/-- Two ports of power delivery, with the suppliers PD and Type-C. -/
def twoPorts : Config where
  usbPdPortMaxCount := 2
  dedicatedChargePortCount := 0
  dedicatedChargePort := 0
  usbPdPortCount := 2
  usbPdPortCount_le := Nat.le_refl 2
  supplierCount := 2
  supplierPriority i := i
  battery := true
  drpCharging := false
  usbPdDps := false
  usbPdcPowerMgmt := false
  requestedPowerKnown := true
  chargerDefaultCurrentLimit := 0
  powerSwapTimeout := 300

/-- The battery is there, and the board accepts every port. -/
def calm : Env where
  boardSetActiveChargePort _ := true
  batteryIsPresent := .yes
  batteryIsCutOff := .normal
  dpsGetChargePort := none
  dpsIsEnabled := false
  roLocked := false
  notRwLocked := false
  isSink _ := true
  getPdPortMaxPower _ := 0
  requested _ := ⟨0, 0⟩
  bestPdo _ := ⟨0, 0⟩
  outside _ _ := ⟨0, 0⟩
  now := 0

/-- The second port is the charge port, and both offer the same by PD and by Type-C. -/
def evenOffers : St :=
  { initial twoPorts true with
    availableCharge := fun i _ => if i = 0 then ⟨3000, 20000⟩ else ⟨1500, 5000⟩
    dualroleCapability := fun _ => .dedicated
    chargePort := some 1
    chargeSupplier := some 0 }

theorem best_port_optimal_even :
    getBestPort twoPorts calm evenOffers = (some 1, some 0) ∧
      ∃ i p, getBestPort twoPorts calm evenOffers = (some p, some i) ∧
        Optimal twoPorts calm evenOffers (Eligible twoPorts calm evenOffers) i p := by
  have hfit : ProductsFit twoPorts calm evenOffers := by
    intro i p _
    by_cases hi : i = 0
    · simp [evenOffers, hi]
    · simp [evenOffers, hi]
  have hdps : ¬DpsSelects twoPorts calm evenOffers := by
    rintro ⟨i, p, -, h⟩
    simp [dpsSelects, twoPorts] at h
  have hnone : getBestPort twoPorts calm evenOffers ≠ (none, none) := by decide
  refine ⟨by decide, ?_⟩
  exact ((best_port_optimal hfit (by decide) hdps).1 rfl).resolve_left fun h => hnone h.2

end ChromeEc.ChargeManager
