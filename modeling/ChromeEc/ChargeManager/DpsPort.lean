import ChromeEc.ChargeManager.BestPort

/- The port that DPS prefers.

  It is selected in the loop over the ports of PD, the first supplier, and ends that loop.
  The loop over the suppliers goes on, and compares what follows with the power that was the
  best before the DPS port was reached. So the port is kept if no other supplier outbids PD
  with that power (`dps_port_preferred_iff`): one that comes before PD takes the place of
  the DPS port (`dedicated_outbids`). -/
namespace ChromeEc.ChargeManager
open Lib

section

variable (c : Config) (e : Env) (s : St)

/-- The most that PD offers on a port below `d`, and -1 if it offers nothing there. -/
def powerBelow (d : Nat) : Int :=
  (((List.range d).filter (isOpen c e s chargeSupplierPd)).map
    (getCandidatePortPower c e s chargeSupplierPd)).max?.getD (-1)

/-- The pair comes before PD, or has its priority and offers more than PD does below `d`, or as much on the charge
port. -/
def Outbids (d i p : Nat) : Prop :=
  c.supplierPriority i < c.supplierPriority chargeSupplierPd ∨
    c.supplierPriority i = c.supplierPriority chargeSupplierPd ∧
      (powerBelow c e s d < getCandidatePortPower c e s i p ∨
        getCandidatePortPower c e s i p = powerBelow c e s d ∧ s.chargePort = some p)

/-- What the loop over the ports of PD leaves when DPS selects `d`. -/
def dpsBest (d : Nat) : Best := ⟨some chargeSupplierPd, some d, powerBelow c e s d⟩

variable {c e s} {d : Nat}

theorem isBetter_dpsBest (hover : s.overridePort = .off) (i p : Nat) :
    isBetter c s i p (getCandidatePortPower c e s i p) (dpsBest c e s d) = true ↔ Outbids c e s d i p := by
  simp only [isBetter, dpsBest, Outbids, hover, Bool.or_eq_true, Bool.and_eq_true, decide_eq_true_eq, beq_iff_eq,
    beq_eq_false_iff_ne.mpr (by simp : Override.off ≠ .port p), Bool.false_and, Bool.false_eq_true, or_false, gt_iff_lt]

/-! ## The ports of PD -/

theorem scanPorts_selects (hover : s.overridePort = .off) {i : Nat} {l₁ l₂ : List Nat} {b : Best}
    (hbefore : ∀ p ∈ l₁, isOpen c e s i p = true → dpsSelects c e s i p = false) (hopen : isOpen c e s i d = true)
    (hselects : dpsSelects c e s i d = true) :
    scanPorts c e s i (l₁ ++ d :: l₂) b = { l₁.foldl (visit c e s i) b with supplier := some i, port := some d } := by
  have hskip : ∀ p b, isOverridden s p b = false := fun p b => by simp [isOverridden, hover]
  induction l₁ generalizing b with
  | nil => rw [List.nil_append, scanPorts_cons, hopen, hskip, hselects]; rfl
  | cons p l₁ ih =>
    have hgo : (isOpen c e s i p && !isOverridden s p b && dpsSelects c e s i p) = false := by
      cases hp : isOpen c e s i p with
      | false => rfl
      | true => rw [hbefore p List.mem_cons_self hp, Bool.and_false]
    rw [List.cons_append, scanPorts_cons, hgo, if_neg Bool.false_ne_true]
    exact ih fun q hq => hbefore q (List.mem_cons_of_mem p hq)

theorem power_below (hover : s.overridePort = .off) :
    ((List.range d).foldl (visit c e s chargeSupplierPd) ⟨none, none, -1⟩).power = powerBelow c e s d := by
  have hfold : ∀ (ps : List Nat) (best : Option (Nat × Nat)),
      ps.foldl (visit c e s chargeSupplierPd) (toBest c e s best) =
        toBest c e s (((ps.filter (isOpen c e s chargeSupplierPd)).map fun p => (chargeSupplierPd, p)).foldl
          (select (takes c e s)) best) := by
    intro ps
    induction ps with
    | nil => exact fun best => rfl
    | cons p ps ih =>
      intro best
      rw [List.foldl_cons, visit_off hover, ih, List.filter_cons]
      split <;> rfl
  have hrun := hfold (List.range d) none
  rw [show toBest c e s none = ⟨none, none, -1⟩ from rfl] at hrun
  rw [hrun, powerBelow]
  generalize (List.range d).filter (isOpen c e s chargeSupplierPd) = ps
  rcases hr : (ps.map fun p => (chargeSupplierPd, p)).foldl (select (takes c e s)) none with _ | x
  · rw [List.map_eq_nil_iff.mp (foldl_select_none hr).2]
    rfl
  · have hgreatest := foldl_select_greatest (takes_follows c e s) _ hr
    obtain ⟨p, hp, rfl⟩ := List.mem_map.mp (hgreatest.mem.resolve_left (by simp))
    have hmax : (ps.map (getCandidatePortPower c e s chargeSupplierPd)).max? =
        some (getCandidatePortPower c e s chargeSupplierPd p) := by
      refine List.max?_eq_some_iff.mpr ⟨List.mem_map_of_mem hp, ?_⟩
      intro n hn
      obtain ⟨q, hq, rfl⟩ := List.mem_map.mp hn
      -- all of them are offers of PD, so they differ in power only
      obtain h | ⟨-, h | ⟨h, -⟩⟩ := hgreatest.all (chargeSupplierPd, q) (List.mem_map_of_mem hq)
      · exact absurd h (Int.lt_irrefl _)
      · exact Int.le_of_lt h
      · exact Int.le_of_eq h
    rw [hmax]
    rfl

/-! ## The other suppliers -/

/-- Once another supplier than PD is the best one, PD does not come back. -/
theorem foldl_visit_other {xs : List (Nat × Nat)} {b : Best} (hxs : ∀ x ∈ xs, x.1 ≠ chargeSupplierPd)
    (hb : b.supplier ≠ some chargeSupplierPd) :
    (xs.foldl (fun b x => visit c e s x.1 b x.2) b).supplier ≠ some chargeSupplierPd := by
  induction xs generalizing b with
  | nil => exact hb
  | cons x xs ih =>
    refine ih (fun y hy => hxs y (List.mem_cons_of_mem x hy)) ?_
    show (visit c e s x.1 b x.2).supplier ≠ some chargeSupplierPd
    rw [visit]
    split
    · exact fun h => hxs x List.mem_cons_self (Option.some.inj h)
    · exact hb

theorem visit_outbids (hover : s.overridePort = .off) {i p : Nat} (hopen : isOpen c e s i p = true)
    (hout : Outbids c e s d i p) :
    visit c e s i (dpsBest c e s d) p = ⟨some i, some p, getCandidatePortPower c e s i p⟩ := by
  have hskip : isOverridden s p (dpsBest c e s d) = false := by simp [isOverridden, hover]
  rw [visit, hopen, hskip, (isBetter_dpsBest hover i p).mpr hout]
  rfl

theorem visit_dpsBest (hover : s.overridePort = .off) {i p : Nat}
    (h : ¬(isOpen c e s i p = true ∧ Outbids c e s d i p)) : visit c e s i (dpsBest c e s d) p = dpsBest c e s d := by
  rw [visit, if_neg]
  rw [Bool.and_eq_true, Bool.and_eq_true, isBetter_dpsBest hover]
  exact fun hvisit => h ⟨hvisit.1.1, hvisit.2⟩

/-- The DPS port stays until a pair outbids it. -/
theorem foldl_visit_dpsBest (hover : s.overridePort = .off) {xs : List (Nat × Nat)}
    (hxs : ∀ x ∈ xs, x.1 ≠ chargeSupplierPd) :
    (xs.foldl (fun b x => visit c e s x.1 b x.2) (dpsBest c e s d) = dpsBest c e s d ∧
        ∀ x ∈ xs, isOpen c e s x.1 x.2 = true → ¬Outbids c e s d x.1 x.2) ∨
      ((xs.foldl (fun b x => visit c e s x.1 b x.2) (dpsBest c e s d)).supplier ≠ some chargeSupplierPd ∧
        ∃ x ∈ xs, isOpen c e s x.1 x.2 = true ∧ Outbids c e s d x.1 x.2) := by
  induction xs with
  | nil => exact .inl ⟨rfl, by simp⟩
  | cons x xs ih =>
    have hrest : ∀ y ∈ xs, y.1 ≠ chargeSupplierPd := fun y hy => hxs y (List.mem_cons_of_mem x hy)
    rw [List.foldl_cons]
    by_cases hbid : isOpen c e s x.1 x.2 = true ∧ Outbids c e s d x.1 x.2
    · rw [visit_outbids hover hbid.1 hbid.2]
      refine .inr ⟨foldl_visit_other hrest ?_, x, List.mem_cons_self, hbid⟩
      exact fun h => hxs x List.mem_cons_self (Option.some.inj h)
    · rw [visit_dpsBest hover hbid]
      obtain ⟨hkept, hnone⟩ | ⟨hother, y, hy, h⟩ := ih hrest
      · refine .inl ⟨hkept, ?_⟩
        intro y hy hopen hout
        obtain rfl | hy := List.mem_cons.mp hy
        · exact hbid ⟨hopen, hout⟩
        · exact hnone y hy hopen hout
      · exact .inr ⟨hother, y, List.mem_cons_of_mem x hy, h⟩

/-! ## Both loops -/

variable (c) in
/-- The pairs of the suppliers behind PD, in the order of the loops. -/
def otherPairs : List (Nat × Nat) :=
  (List.range (c.supplierCount - 1)).flatMap fun i => (List.range c.chargePortCount).map fun p => (i + 1, p)

theorem mem_otherPairs {i p : Nat} :
    (i, p) ∈ otherPairs c ↔ i ≠ chargeSupplierPd ∧ i < c.supplierCount ∧ p < c.chargePortCount := by
  simp only [otherPairs, List.mem_flatMap, List.mem_map, List.mem_range, Prod.mk.injEq]
  constructor
  · rintro ⟨j, hj, q, hq, rfl, rfl⟩
    exact ⟨Nat.succ_ne_zero j, by omega, hq⟩
  · rintro ⟨hne, hi, hp⟩
    have hpos : i ≠ 0 := hne
    exact ⟨i - 1, by omega, p, hp, by omega, rfl⟩

theorem scan_dps (hdps : c.usbPdDps = true) (hover : s.overridePort = .off) (hd : e.dpsGetChargePort = some d)
    (helig : Eligible c e s chargeSupplierPd d) :
    scan c e s = (otherPairs c).foldl (fun b x => visit c e s x.1 b x.2) (dpsBest c e s d) := by
  obtain ⟨hpos, hopen⟩ := (eligible_iff c e s chargeSupplierPd d).mp helig
  have hsel : ∀ i p, dpsSelects c e s i p = true ↔ i = chargeSupplierPd ∧ d = p := by
    intro i p
    simp [dpsSelects, hdps, hover, hd]
  have hports : List.range c.chargePortCount =
      List.range d ++ d :: (List.range (c.chargePortCount - d - 1)).map (d + 1 + ·) := by
    have hlt := isValidPort_lt c helig.port
    have hsplit : c.chargePortCount = d + 1 + (c.chargePortCount - d - 1) := by omega
    conv_lhs => rw [hsplit, List.range_add, List.range_succ, List.append_assoc]
    rfl
  have hrow : scanPorts c e s chargeSupplierPd (List.range c.chargePortCount) ⟨none, none, -1⟩ = dpsBest c e s d := by
    rw [hports, scanPorts_selects hover ?_ hopen ((hsel _ d).mpr ⟨rfl, rfl⟩)]
    · exact congrArg (Best.mk (some chargeSupplierPd) (some d)) (power_below hover)
    · intro p hp _
      have hlt := List.mem_range.mp hp
      exact Bool.eq_false_iff.mpr fun h => absurd ((hsel _ p).mp h).2 (by omega)
  have hother : ∀ (i : Nat) (b : Best), scanPorts c e s (i + 1) (List.range c.chargePortCount) b =
      (List.range c.chargePortCount).foldl (visit c e s (i + 1)) b := by
    intro i b
    refine scanPorts_eq_foldl c e s ?_ b
    exact fun p _ _ => Bool.eq_false_iff.mpr fun h => Nat.succ_ne_zero i ((hsel _ p).mp h).1
  have hcount : List.range c.supplierCount = chargeSupplierPd :: (List.range (c.supplierCount - 1)).map Nat.succ := by
    conv_lhs =>
      rw [show c.supplierCount = c.supplierCount - 1 + 1 from (Nat.sub_add_cancel hpos).symm,
        List.range_succ_eq_map]
    rfl
  rw [scan, hcount, List.foldl_cons, hrow, List.foldl_map, otherPairs, List.foldl_flatMap]
  simp only [Nat.succ_eq_add_one, hother, List.foldl_map]

/-- The DPS port is the best one exactly when no eligible pair of another supplier outbids it. -/
theorem dps_port_preferred_iff (hdps : c.usbPdDps = true) (hover : s.overridePort = .off)
    (hbattery : isBatteryDisconnected c e = false) (hd : e.dpsGetChargePort = some d)
    (helig : Eligible c e s chargeSupplierPd d) :
    getBestPort c e s = (some d, some chargeSupplierPd) ↔
      ∀ i p, i ≠ chargeSupplierPd → Eligible c e s i p → ¬Outbids c e s d i p := by
  rw [getBestPort_eq_scan (by simp [hover]) hbattery, scan_dps hdps hover hd helig]
  have hne : ∀ x ∈ otherPairs c, x.1 ≠ chargeSupplierPd := fun x hx => (mem_otherPairs.mp hx).1
  obtain ⟨hkept, hnone⟩ | ⟨hother, x, hx, hopen, hout⟩ := foldl_visit_dpsBest (c := c) (e := e) (d := d) hover hne
  · rw [hkept]
    refine iff_of_true rfl ?_
    intro i p hi h hout
    obtain ⟨hcount, hopen⟩ := (eligible_iff c e s i p).mp h
    exact hnone (i, p) (mem_otherPairs.mpr ⟨hi, hcount, isValidPort_lt c h.port⟩) hopen hout
  · refine iff_of_false (fun h => hother (congrArg Prod.snd h)) ?_
    intro hnone
    obtain ⟨hi, hcount, -⟩ := mem_otherPairs.mp hx
    exact hnone x.1 x.2 hi ((eligible_iff c e s x.1 x.2).mpr ⟨hcount, hopen⟩) hout

end

/-! ### A barrel jack -/

/-- A port of power delivery and a dedicated one, with the default priorities: the dedicated supplier comes before
PD. -/
def barrelJack : Config where
  usbPdPortMaxCount := 1
  dedicatedChargePortCount := 1
  dedicatedChargePort := 1
  usbPdPortCount := 1
  usbPdPortCount_le := Nat.le_refl 1
  supplierCount := 2
  supplierPriority i := if i = chargeSupplierPd then 1 else 0
  battery := true
  drpCharging := false
  usbPdDps := true
  usbPdcPowerMgmt := false
  requestedPowerKnown := true
  chargerDefaultCurrentLimit := 0
  powerSwapTimeout := 300

def dpsOnPort : Env := { calm with dpsGetChargePort := some 0 }

/-- PD offers 45 W there, and a charger of 15 W is in the jack or not. -/
def withJack (plugged : Bool) : St :=
  { initial barrelJack true with
    availableCharge := fun i p =>
      if i = 0 ∧ p = 0 then ⟨3000, 15000⟩ else if plugged ∧ i = 1 ∧ p = 1 then ⟨3000, 5000⟩ else ⟨0, 0⟩
    dualroleCapability := fun _ => .dedicated }

theorem eligible_withJack (plugged : Bool) : Eligible barrelJack dpsOnPort (withJack plugged) chargeSupplierPd 0 := by
  rw [eligible_iff]
  revert plugged
  decide

theorem dps_port_preferred_unplugged :
    getBestPort barrelJack dpsOnPort (withJack false) = (some 0, some chargeSupplierPd) := by
  refine (dps_port_preferred_iff rfl rfl (by decide) rfl (eligible_withJack false)).mpr ?_
  intro i p hi helig _
  have hi : i ≠ 0 := hi
  have hempty : (withJack false).availableCharge i p = ⟨0, 0⟩ := by simp [withJack, hi]
  exact helig.current (by rw [hempty])

/-- The charger in the jack is selected, although DPS has selected the other port. -/
theorem dedicated_outbids :
    Eligible barrelJack dpsOnPort (withJack true) chargeSupplierPd 0 ∧
      getBestPort barrelJack dpsOnPort (withJack true) = (some 1, some 1) :=
  ⟨eligible_withJack true, by decide⟩

end ChromeEc.ChargeManager
