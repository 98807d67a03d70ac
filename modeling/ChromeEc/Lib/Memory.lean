import Mathlib.Data.List.Basic

/- A flat memory: cells at the natural numbers, and the C library's block operations on it.

  What is proved: what a list of cells held at an address becomes under `copy` and `move`,
  where it is written and where it is not (`Holds.copy_self`, `Holds.copy_of_disjoint`,
  `Holds.move_self`), that cells held one after the other are held as one list
  (`holds_append`), that a block is moved part by part (`move_move_up`, `move_move_down`),
  when cells that are read continue the beginning of a list (`prefix_read_iff`), and that the
  chunks a memory is split into say what is in it (`Splits.agrees`). -/
namespace ChromeEc.Lib.Memory

variable {β : Type} {m m' : Nat → β} {p q n : Nat} {l k : List β} {src : Nat → β}

/-- `memcpy`: `n` cells of a source that lies outside the memory. -/
def copy (m : Nat → β) (p n : Nat) (src : Nat → β) : Nat → β :=
  fun a => if p ≤ a ∧ a < p + n then src (a - p) else m a

/-- `memmove`: the source is read before anything is written. -/
def move (m : Nat → β) (dst src n : Nat) : Nat → β := copy m dst n fun i => m (src + i)

/-- `memset`. -/
def fill (m : Nat → β) (p n : Nat) (b : β) : Nat → β := copy m p n fun _ => b

/-- The `n` cells from `p` on. -/
def read (m : Nat → β) (p n : Nat) : List β := (List.range n).map fun i => m (p + i)

def Holds (m : Nat → β) (p : Nat) (l : List β) : Prop := ∀ i (h : i < l.length), m (p + i) = l.get ⟨i, h⟩

/-! ## Single cells -/

theorem copy_of_lt (h : q < p) : copy m p n src q = m q :=
  if_neg fun hin => Nat.not_le_of_lt h hin.1

theorem copy_of_ge (h : p + n ≤ q) : copy m p n src q = m q :=
  if_neg fun hin => Nat.not_lt_of_le h hin.2

theorem copy_inside (h : q < n) : copy m p n src (p + q) = src q := by
  have hin : p ≤ p + q ∧ p + q < p + n := by omega
  rw [copy, if_pos hin, Nat.add_sub_cancel_left]

theorem copy_same (h : ∀ i < n, m (p + i) = src i) : copy m p n src = m := by
  funext a
  rw [copy]
  split
  · rename_i hin
    have hback : p + (a - p) = a := by omega
    rw [← h (a - p) (by omega), hback]
  · rfl

theorem copy_copy {src' : Nat → β} : copy (copy m p n src) p n src' = copy m p n src' := by
  funext a
  by_cases hin : p ≤ a ∧ a < p + n
  · rw [copy, if_pos hin, copy, if_pos hin]
  · rw [copy, if_neg hin, copy, if_neg hin, copy, if_neg hin]

@[simp] theorem copy_zero : copy m p 0 src = m :=
  copy_same fun _ h => absurd h (Nat.not_lt_zero _)

theorem fill_same {b : β} (h : ∀ i < n, m (p + i) = b) : fill m p n b = m := copy_same h

theorem fill_fill {b : β} {k : Nat} : fill (fill m p n b) (p + n) k b = fill m p (n + k) b := by
  funext a
  rw [fill, copy, fill, copy, fill, copy]
  by_cases hsecond : p + n ≤ a ∧ a < p + n + k
  · rw [if_pos hsecond, if_pos (by omega)]
  · rw [if_neg hsecond]
    exact if_congr (by omega) rfl rfl

@[simp] theorem length_read : (read m p n).length = n := by simp [read]

/-! ## Held lists -/

@[simp] theorem holds_nil : Holds m p [] := fun _ h => absurd h (Nat.not_lt_zero _)

theorem holds_append : Holds m p (l ++ k) ↔ Holds m p l ∧ Holds m (p + l.length) k := by
  constructor
  · intro h
    refine ⟨fun i hi => ?_, fun i hi => ?_⟩
    · have hcell := h i (by simp only [List.length_append]; omega)
      simpa [List.getElem_append_left hi] using hcell
    · have hcell := h (l.length + i) (by simp only [List.length_append]; omega)
      simpa [Nat.add_assoc] using hcell
  · rintro ⟨hl, hk⟩ i hi
    rcases Nat.lt_or_ge i l.length with hleft | hright
    · simpa [List.getElem_append_left hleft] using hl i hleft
    · have hi' : i - l.length < k.length := by
        simp only [List.length_append] at hi
        omega
      have hcell := hk (i - l.length) hi'
      have hpos : p + l.length + (i - l.length) = p + i := by omega
      rw [hpos] at hcell
      simpa [List.getElem_append_right hright] using hcell

theorem holds_cons {b : β} : Holds m p (b :: l) ↔ m p = b ∧ Holds m (p + 1) l := by
  have h := holds_append (m := m) (p := p) (l := [b]) (k := l)
  rw [List.singleton_append] at h
  rw [h]
  refine and_congr ⟨fun hb => hb 0 (by simp), fun hb i hi => ?_⟩ Iff.rfl
  have hzero : i = 0 := by simpa using hi
  subst hzero
  exact hb

theorem Holds.congr (h : Holds m p l) (hsame : ∀ a, p ≤ a → a < p + l.length → m' a = m a) : Holds m' p l :=
  fun i hi => (hsame (p + i) (by omega) (by omega)).trans (h i hi)

theorem Holds.copy_of_disjoint (h : Holds m p l) (hdisjoint : p + l.length ≤ q ∨ q + n ≤ p) :
    Holds (copy m q n src) p l := by
  apply h.congr
  intro a hlo hhi
  rcases hdisjoint with hbelow | habove
  · exact copy_of_lt (by omega)
  · exact copy_of_ge (by omega)

theorem Holds.copy_self (h : ∀ i (hi : i < l.length), src i = l.get ⟨i, hi⟩) : Holds (copy m p l.length src) p l :=
  fun i hi => (copy_inside hi).trans (h i hi)

theorem Holds.copy_eq {a : Nat} (h : Holds m' p (read src 0 n)) :
    copy m p n src a = if p ≤ a ∧ a < p + n then m' a else m a := by
  rw [copy]
  refine ite_congr rfl (fun hin => ?_) fun _ => rfl
  have hcell := h (a - p) (by rw [length_read]; omega)
  have hback : p + (a - p) = a := by omega
  rw [hback] at hcell
  simpa [read] using hcell.symm

theorem Holds.move_self (h : Holds m q l) : Holds (move m p q l.length) p l :=
  Holds.copy_self h

theorem read_congr (h : ∀ a, p ≤ a → a < p + n → m' a = m a) : read m' p n = read m p n := by
  apply List.map_congr_left
  intro i hi
  have hlt : i < n := List.mem_range.mp hi
  exact h (p + i) (by omega) (by omega)

theorem read_copy_of_disjoint {k : Nat} (h : p + k ≤ q ∨ q + n ≤ p) : read (copy m q n src) p k = read m p k := by
  apply read_congr
  intro a hlo hhi
  rcases h with hbelow | habove
  · exact copy_of_lt (by omega)
  · exact copy_of_ge (by omega)

theorem read_copy {i k : Nat} (h : i + k ≤ n) : read (copy m p n src) (p + i) k = read src i k := by
  apply List.map_congr_left
  intro j hj
  have hlt : j < k := List.mem_range.mp hj
  rw [Nat.add_assoc]
  exact copy_inside (by omega)

theorem read_copy_self : read (copy m p n src) p n = read src 0 n :=
  read_copy (Nat.le_of_eq (Nat.zero_add n))

theorem read_shift : read (fun i => m (p + i)) q n = read m (p + q) n := by
  simp only [read, Nat.add_assoc]

theorem read_add (m : Nat → β) (p n k : Nat) : read m p (n + k) = read m p n ++ read m (p + n) k := by
  unfold read
  rw [List.range_add, List.map_append, List.map_map]
  congr 1
  apply List.map_congr_left
  intro i _
  simp only [Function.comp_apply, Nat.add_assoc]

theorem take_drop_read {i k : Nat} (h : i + k ≤ n) : ((read m p n).drop i).take k = read m (p + i) k := by
  obtain ⟨rest, rfl⟩ := Nat.exists_eq_add_of_le h
  rw [Nat.add_assoc, read_add, read_add, List.drop_left' length_read, List.take_left' length_read]

theorem read_eq_iff : read m p l.length = l ↔ Holds m p l := by
  constructor
  · intro h i hi
    have hcell : (read m p l.length)[i]? = some (m (p + i)) := by simp [read, hi]
    rw [h, List.getElem?_eq_getElem hi] at hcell
    exact (Option.some.inj hcell).symm
  · intro h
    apply List.ext_getElem (by simp)
    intro i _ hi
    simpa [read] using h i hi

/-- The cells of a list are in their places, if they are in the memory at all. Cells that are read continue the beginning
of the list exactly when they are cells of it and read from the place where the beginning ends. -/
theorem prefix_read_iff {put : List β} {i : Nat} (hnodup : l.Nodup) (hplaced : ∀ k, m k ∈ l → l[k]? = some (m k))
    (hput : put <+: l) :
    put ++ read m i n <+: l ↔ (0 < n → i = put.length ∧ ∀ k < n, m (i + k) ∈ l) := by
  constructor
  · intro h hpos
    have hcell : ∀ k < n, l[put.length + k]? = some (m (i + k)) := by
      intro k hk
      have hlt : put.length + k < (put ++ read m i n).length := by
        rw [List.length_append, length_read]
        omega
      have hin := List.prefix_iff_getElem?.mp h _ hlt
      rw [List.getElem_append_right (Nat.le_add_right _ _)] at hin
      simpa [read] using hin
    have hmem : ∀ k < n, m (i + k) ∈ l := fun k hk => List.mem_of_getElem? (hcell k hk)
    refine ⟨?_, hmem⟩
    -- the first cell is in two places
    have hhere : l[i]? = some (m i) := hplaced i (hmem 0 hpos)
    have hthere : l[put.length]? = some (m i) := hcell 0 hpos
    exact (List.getElem?_inj (List.getElem?_eq_some_iff.mp hhere).1 hnodup).mp (hhere.trans hthere.symm)
  · intro h
    rcases Nat.eq_zero_or_pos n with rfl | hpos
    · simpa [read] using hput
    · obtain ⟨rfl, hmem⟩ := h hpos
      refine List.prefix_iff_getElem?.mpr fun j hj => ?_
      rw [List.length_append, length_read] at hj
      rcases Nat.lt_or_ge j put.length with hleft | hright
      · rw [List.getElem_append_left hleft]
        exact List.prefix_iff_getElem?.mp hput j hleft
      · obtain ⟨k, rfl⟩ := Nat.exists_eq_add_of_le hright
        rw [List.getElem_append_right hright]
        simpa [read] using hplaced _ (hmem k (by omega))

/-! ## Moves in parts -/

/-- Upwards a block is moved in two parts, unless the first part is written where the second is still to be read. -/
theorem move_move_up {d s n k : Nat} (h : d ≤ s ∨ s + (n + k) ≤ d) :
    move (move m d s n) (d + n) (s + n) k = move m d s (n + k) := by
  funext a
  by_cases hsecond : d + n ≤ a ∧ a < d + n + k
  · have hunread : ¬(d ≤ s + n + (a - (d + n)) ∧ s + n + (a - (d + n)) < d + n) := by omega
    rw [move, copy, if_pos hsecond, move, copy, if_neg hunread, move, copy, if_pos (by omega)]
    congr 1
    omega
  · rw [move, copy, if_neg hsecond, move, copy, move, copy]
    exact if_congr (by omega) rfl rfl

/-- Downwards the upper part comes first. -/
theorem move_move_down {d s n k : Nat} (h : s ≤ d) :
    move (move m (d + k) (s + k) n) d s k = move m d s (k + n) := by
  funext a
  by_cases hsecond : d ≤ a ∧ a < d + k
  · have hunread : ¬(d + k ≤ s + (a - d) ∧ s + (a - d) < d + k + n) := by omega
    rw [move, copy, if_pos hsecond, move, copy, if_neg hunread, move, copy, if_pos (by omega)]
  · rw [move, copy, if_neg hsecond, move, copy, move, copy]
    by_cases hfirst : d + k ≤ a ∧ a < d + k + n
    · rw [if_pos hfirst, if_pos (by omega)]
      congr 1
      omega
    · rw [if_neg hfirst, if_neg (by omega)]

/-! ## Chunks -/

/-- Chunks, each with the place where it starts, that are parts of the first `n` cells of a memory and leave none of
them out. They may come in any order and may overlap. -/
structure Splits (m : Nat → β) (n : Nat) (chunks : List (Nat × List β)) : Prop where
  holds : ∀ c ∈ chunks, Holds m c.1 c.2
  inside : ∀ c ∈ chunks, c.1 + c.2.length ≤ n
  covers : ∀ a < n, ∃ c ∈ chunks, c.1 ≤ a ∧ a < c.1 + c.2.length

theorem Splits.agrees {chunks : List (Nat × List β)} (h : Splits m n chunks) (hholds : ∀ c ∈ chunks, Holds m' c.1 c.2) :
    ∀ a < n, m' a = m a := by
  intro a ha
  obtain ⟨c, hc, hlo, hhi⟩ := h.covers a ha
  obtain ⟨i, rfl⟩ := Nat.exists_eq_add_of_le hlo
  have hi : i < c.2.length := by omega
  exact (hholds c hc i hi).trans (h.holds c hc i hi).symm

/-- The parts of a list, each with the place where it starts. -/
def places : Nat → List (List β) → List (Nat × List β)
  | _, [] => []
  | p, part :: rest => (p, part) :: places (p + part.length) rest

theorem splits_places {parts : List (List β)} (h : Holds m p parts.flatten) :
    (∀ c ∈ places p parts, Holds m c.1 c.2 ∧ c.1 + c.2.length ≤ p + parts.flatten.length) ∧
      ∀ a, p ≤ a → a < p + parts.flatten.length → ∃ c ∈ places p parts, c.1 ≤ a ∧ a < c.1 + c.2.length := by
  induction parts generalizing p with
  | nil => exact ⟨fun c hc => absurd hc List.not_mem_nil, fun a hlo hhi => absurd hhi (Nat.not_lt_of_le hlo)⟩
  | cons part rest ih =>
    rw [List.flatten_cons] at h
    obtain ⟨hpart, hrest⟩ := holds_append.mp h
    obtain ⟨hchunks, hcovers⟩ := ih hrest
    rw [List.flatten_cons, List.length_append, ← Nat.add_assoc]
    refine ⟨fun c hc => ?_, fun a hlo hhi => ?_⟩
    · rcases List.mem_cons.mp hc with rfl | hin
      · exact ⟨hpart, Nat.le_add_right _ _⟩
      · exact hchunks c hin
    · rcases Nat.lt_or_ge a (p + part.length) with hleft | hright
      · exact ⟨(p, part), List.mem_cons_self, hlo, hleft⟩
      · obtain ⟨c, hc, hin⟩ := hcovers a hright hhi
        exact ⟨c, List.mem_cons_of_mem _ hc, hin⟩

theorem Splits.of_parts {parts : List (List β)} (h : Holds m 0 parts.flatten) :
    Splits m parts.flatten.length (places 0 parts) := by
  obtain ⟨hchunks, hcovers⟩ := splits_places h
  rw [Nat.zero_add] at hchunks hcovers
  exact ⟨fun c hc => (hchunks c hc).1, fun c hc => (hchunks c hc).2, fun a ha => hcovers a (Nat.zero_le a) ha⟩

end ChromeEc.Lib.Memory
