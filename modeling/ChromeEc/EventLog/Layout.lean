import ChromeEc.EventLog.Model

/- Where the entries of the event log are.

  The counters are positions that are not reduced: entry after entry follows in a stream of
  units, and unit `p` of the stream is in the ring at `p % UNIT_COUNT`.

  What is proved: an add writes the units of its entry and, if its payload is split at the
  physical end, one unit more (`ringAt_copyEntry`); an entry that is in the ring is read as
  it is (`readEntry_eq`). -/
namespace ChromeEc.EventLog
open Lib

variable {w : Nat} (c : Config w)

theorem Config.eight_le : 8 ≤ c.unitCount := Nat.pow_le_pow_right (by decide : 0 < 2) c.three_le

theorem Config.unitCount_lt : c.unitCount < 2 ^ w := Nat.pow_lt_pow_right (by decide) c.shift_lt

theorem Config.unitCount_dvd : c.unitCount ∣ 2 ^ w := Nat.pow_dvd_pow 2 (Nat.le_of_lt c.shift_lt)

theorem Config.unitCount_pos : 0 < c.unitCount := Nat.pow_pos (by decide)

theorem index_ofNat (p : Nat) : index c (BitVec.ofNat w p) = p % c.unitCount := by
  have hlt := c.unitCount_lt
  unfold index
  rw [BitVec.toNat_and, BitVec.toNat_ofNat, BitVec.toNat_ofNat, Nat.mod_eq_of_lt (by omega : c.unitCount - 1 < 2 ^ w),
    Config.unitCount, Nat.and_two_pow_sub_one_eq_mod]
  exact Nat.mod_mod_of_dvd p c.unitCount_dvd

/-- Unit `i` of an entry, and what follows it in the memory of the payload. -/
def Event.cell (e : Event) : Nat → LogUnit
  | 0 => e.entry
  | i + 1 => e.payload i

theorem Event.units_eq (e : Event) : e.units = window e.cell 0 (entrySize e.entry.size) := by
  have hpos := (entrySize_bounds e.entry.size).1
  obtain ⟨n, hn⟩ := Nat.exists_eq_add_of_le' hpos
  rw [units, hn, window_succ]
  congr 1
  apply window_congr
  intro i _
  rw [Nat.zero_add, Nat.zero_add, Nat.add_comm]
  rfl

/-- The payload is split at the physical end of the ring. -/
def Split (p : Nat) (e : Event) : Prop := c.unitCount < p % c.unitCount + entrySize e.entry.size

instance (p : Nat) (e : Event) : Decidable (Split c p e) := inferInstanceAs (Decidable (_ < _))

def written (p : Nat) (e : Event) : Nat := entrySize e.entry.size + if Split c p e then 1 else 0

theorem Event.cell_pos (e : Event) {i : Nat} (hi : 0 < i) : e.cell i = e.payload (i - 1) := by
  obtain ⟨i, rfl⟩ := Nat.exists_eq_add_of_lt hi
  rw [Nat.zero_add]
  rfl

theorem copy_cell (events : Nat → LogUnit) (e : Event) {N r n i u : Nat} (hN : 8 ≤ N) (hr : r < N) (hn : 1 ≤ n ∧ n ≤ 5)
    (hi : i < N) (hu : u = if r + i < N then r + i else r + i - N) :
    (if min (n - 1) (N - r - 1) < n - 1 then
        blit (blit (blit events r (fun _ => e.entry) 1) (r + 1) e.payload (min (n - 1) (N - r - 1))) 0
          (fun u => e.payload (min (n - 1) (N - r - 1) + u)) (n - min (n - 1) (N - r - 1))
      else blit (blit events r (fun _ => e.entry) 1) (r + 1) e.payload (min (n - 1) (N - r - 1))) u =
      if i < n + (if N < r + n then 1 else 0) then e.cell i else events u := by
  have hheader : i = 0 → u = r := by
    intro h
    rw [hu, h, Nat.add_zero, if_pos hr]
  by_cases hsplit : N < r + n
  · have hfirst : min (n - 1) (N - r - 1) = N - r - 1 := by omega
    rw [hfirst, if_pos (by omega), if_pos hsplit]
    by_cases hend : r + i < N
    · -- before the physical end
      rw [if_pos hend] at hu
      rw [blit_apply_of_notMem (by omega), if_pos (by omega)]
      obtain rfl | hpos := Nat.eq_zero_or_pos i
      · rw [blit_apply_of_notMem (by omega), blit_apply_of_mem (by omega)]
        rfl
      · rw [blit_apply_of_mem (by omega), e.cell_pos hpos]
        congr 1
        omega
    · rw [if_neg hend] at hu
      by_cases hin : i < n + 1
      · rw [blit_apply_of_mem (by omega), if_pos hin, e.cell_pos (by omega)]
        congr 1
        omega
      · rw [blit_apply_of_notMem (by omega), blit_apply_of_notMem (by omega), blit_apply_of_notMem (by omega), if_neg hin]
  · have hfirst : min (n - 1) (N - r - 1) = n - 1 := by omega
    rw [hfirst, if_neg (Nat.lt_irrefl _), if_neg hsplit]
    by_cases hin : i < n + 0
    · rw [if_pos (by omega)] at hu
      rw [if_pos hin]
      obtain rfl | hpos := Nat.eq_zero_or_pos i
      · rw [blit_apply_of_notMem (by omega), blit_apply_of_mem (by omega)]
        rfl
      · rw [blit_apply_of_mem (by omega), e.cell_pos hpos]
        congr 1
        omega
    · rw [if_neg hin]
      split at hu
      · rw [blit_apply_of_notMem (by omega), blit_apply_of_notMem (by omega)]
      · rw [blit_apply_of_notMem (by omega), blit_apply_of_notMem (by omega)]

/-- A split copy is one unit too long. -/
theorem ringAt_copyEntry (s : Log w) (p : Nat) (e : Event) {i : Nat} (hi : i < c.unitCount) :
    ringAt c.unitCount (copyEntry c (BitVec.ofNat w p) e s).events p i =
      if i < written c p e then e.cell i else ringAt c.unitCount s.events p i := by
  have hplace := mod_add_of_lt (x := p) c.unitCount_pos hi
  have hcopy := copy_cell s.events e c.eight_le (Nat.mod_lt p c.unitCount_pos) (entrySize_bounds e.entry.size) hi hplace
  unfold ringAt copyEntry firstPart
  rw [index_ofNat]
  exact hcopy

/-! ## Stretches of the ring -/

/-- From position `p` on there are the units `us`. -/
def Holds (events : Nat → LogUnit) (p : Nat) (us : List LogUnit) : Prop :=
  window (ringAt c.unitCount events p) 0 us.length = us

variable {c} {s : Log w} {p q : Nat} {us vs : List LogUnit} {events events' : Nat → LogUnit}

theorem holds_append : Holds c events p (us ++ vs) ↔ Holds c events p us ∧ Holds c events (p + us.length) vs := by
  have hshift : window (ringAt c.unitCount events (p + us.length)) 0 vs.length =
      window (ringAt c.unitCount events p) (0 + us.length) vs.length := by
    apply window_congr
    intro i _
    rw [ringAt_add, Nat.zero_add, Nat.zero_add]
  unfold Holds
  rw [hshift, List.length_append, ← window_append]
  constructor
  · intro h
    exact List.append_inj h (length_window _ _ _)
  · rintro ⟨hu, hv⟩
    rw [hu, hv]

theorem Holds.same (h : Holds c events p us) (h' : Holds c events' p us) {i : Nat} (hi : i < us.length) :
    ringAt c.unitCount events p i = ringAt c.unitCount events' p i := by
  have heq := congrArg (·[i]?) (h.trans h'.symm)
  simp only [getElem?_window, if_pos hi, Nat.zero_add] at heq
  exact Option.some.inj heq

theorem Holds.congr (h : Holds c events p us)
    (hsame : ∀ i, i < us.length → ringAt c.unitCount events' p i = ringAt c.unitCount events p i) :
    Holds c events' p us := by
  unfold Holds at h ⊢
  refine Eq.trans (window_congr fun i hi => ?_) h
  rw [Nat.zero_add]
  exact hsame i hi

theorem holds_copyEntry (s : Log w) (p : Nat) (e : Event) :
    Holds c (copyEntry c (BitVec.ofNat w p) e s).events p e.units := by
  have hsize := entrySize_bounds e.entry.size
  have hN := c.eight_le
  unfold Holds
  rw [e.length_units, e.units_eq]
  apply window_congr
  intro i hi
  rw [ringAt_copyEntry c s p e (by omega), if_pos (by unfold written; omega)]

theorem Holds.copyEntry (h : Holds c s.events q us) (e : Event)
    (hapart : q + us.length ≤ p ∧ p + written c p e ≤ q + c.unitCount ∨
      p + written c p e ≤ q ∧ q + us.length ≤ p + c.unitCount) :
    Holds c (EventLog.copyEntry c (BitVec.ofNat w p) e s).events q us := by
  apply h.congr
  intro i hi
  -- the place of the unit, counted from `p` on
  obtain ⟨j, hj, hwritten, hplace⟩ : ∃ j, j < c.unitCount ∧ written c p e ≤ j ∧
      (q + i) % c.unitCount = (p + j) % c.unitCount := by
    obtain ⟨hbefore, hroom⟩ | ⟨hafter, hroom⟩ := hapart
    · refine ⟨q + i + c.unitCount - p, by omega, by omega, ?_⟩
      rw [Nat.add_sub_cancel' (by omega), Nat.add_mod_right]
    · refine ⟨q + i - p, by omega, by omega, ?_⟩
      rw [Nat.add_sub_cancel' (by omega)]
  have hcopy := ringAt_copyEntry c s p e hj
  rw [if_neg (by omega)] at hcopy
  unfold ringAt at hcopy ⊢
  rw [hplace]
  exact hcopy

/-! ## Reading an entry -/

def IsEntry (us : List LogUnit) : Prop := ∃ x rest, us = x :: rest ∧ us.length = entrySize x.size

theorem Event.isEntry (e : Event) : IsEntry e.units := ⟨e.entry, _, rfl, e.length_units⟩

theorem Holds.head (h : Holds c events p us) (hentry : IsEntry us) :
    entrySize (events (p % c.unitCount)).size = us.length := by
  obtain ⟨x, rest, rfl, hsize⟩ := hentry
  rw [Holds, List.length_cons, window_succ] at h
  have hx : events (p % c.unitCount) = x := (List.cons.inj h).1
  rw [hx, hsize]

theorem readEntry_eq (h : Holds c s.events p us) (hentry : IsEntry us) :
    readEntry c (BitVec.ofNat w p) s = us := by
  have hr := Nat.mod_lt p c.unitCount_pos
  have hN := c.eight_le
  have hlen : us.length ≤ 5 := by
    rw [← h.head hentry]
    exact (entrySize_bounds _).2
  unfold readEntry
  rw [index_ofNat]
  dsimp only
  rw [h.head hentry]
  generalize hfirst : min us.length (c.unitCount - p % c.unitCount) = first
  have hsum : us.length = first + (us.length - first) := by omega
  have hread : ∀ i, i < us.length → ringAt c.unitCount s.events p i =
      if p % c.unitCount + i < c.unitCount then s.events (p % c.unitCount + i)
      else s.events (p % c.unitCount + i - c.unitCount) := by
    intro i hi
    rw [ringAt, mod_add_of_lt c.unitCount_pos (by omega)]
    split <;> rfl
  have hfront : window s.events (p % c.unitCount) first = window (ringAt c.unitCount s.events p) 0 first := by
    apply window_congr
    intro i hi
    rw [Nat.zero_add, hread i (by omega), if_pos (by omega)]
  have hback : window s.events 0 (us.length - first) =
      window (ringAt c.unitCount s.events p) (0 + first) (us.length - first) := by
    apply window_congr
    intro i hi
    rw [Nat.zero_add, Nat.zero_add, hread (first + i) (by omega), if_neg (by omega)]
    congr 1
    omega
  rw [hfront, hback, window_append, ← hsum]
  exact h

end ChromeEc.EventLog
