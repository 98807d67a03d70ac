import Mathlib.Data.List.Basic

/- Check symbols among the symbols of a text.

  The data symbols stand in groups of `n`, each followed by a check symbol: what `step` makes
  of the symbols of the group, one after the other from `init` on. `protect` adds the check
  symbols and `checked` says whether a text has the right ones.

  If `step` is injective in both arguments, no symbol of a text that is right can be another
  one (`checked_replace`). If it tells the order of two symbols, and a symbol from the
  check symbol that it leads to, no two neighbours can have changed places either
  (`checked_swap`). Both are proved of two readers that go through the same rest of a group:
  they agree only if they started alike (`checked_unique`). -/
namespace ChromeEc.Lib

variable {α : Type} {step : α → α → α} {init crc crc' : α} {n count : Nat}

/-- Adds the check symbols, from the `count`-th symbol of a group on. -/
def protect (step : α → α → α) (init : α) (n : Nat) : List α → α → Nat → List α
  | [], _, _ => []
  | x :: xs, crc, count =>
    if count + 1 = n then x :: step x crc :: protect step init n xs init 0
    else x :: protect step init n xs (step x crc) (count + 1)

/-- The groups are whole, and each has its check symbol. -/
def checked [DecidableEq α] (step : α → α → α) (init : α) (n : Nat) : List α → α → Nat → Bool
  | [], _, count => count == 0
  | x :: xs, crc, count =>
    if count = n then crc == x && checked step init n xs init 0
    else checked step init n xs (step x crc) (count + 1)

/-- A step that makes errors show: of one symbol, of two neighbours, of a symbol and its check symbol. -/
structure Telling (step : α → α → α) : Prop where
  symbol : ∀ {x y c}, step x c = step y c → x = y
  crc : ∀ {x c d}, step x c = step x d → c = d
  order : ∀ {x y c}, step y (step x c) = step x (step y c) → x = y
  check : ∀ {x y c}, step x c = y → step y c = x → x = y

variable [DecidableEq α]

theorem checked_end {x : α} {xs : List α} :
    checked step init n (x :: xs) crc n = true ↔ crc = x ∧ checked step init n xs init 0 = true := by
  rw [checked, if_pos rfl, Bool.and_eq_true, beq_iff_eq]

theorem checked_inside {x : α} {xs : List α} (h : count ≠ n) :
    checked step init n (x :: xs) crc count = checked step init n xs (step x crc) (count + 1) := by
  rw [checked, if_neg h]

theorem checked_protect {xs : List α} (hcount : count < n) (hwhole : n ∣ count + xs.length) :
    checked step init n (protect step init n xs crc count) crc count = true := by
  induction xs generalizing crc count with
  | nil =>
    have hzero : count = 0 := Nat.eq_zero_of_dvd_of_lt hwhole hcount
    rw [protect, checked, hzero]
    rfl
  | cons x xs ih =>
    rw [List.length_cons] at hwhole
    by_cases hlast : count + 1 = n
    · have hrest : n ∣ 0 + xs.length := by
        rw [show count + (xs.length + 1) = n + xs.length by omega] at hwhole
        rw [Nat.zero_add]
        exact (Nat.dvd_add_right (Nat.dvd_refl n)).mp hwhole
      rw [protect, if_pos hlast, checked_inside (by omega), hlast, checked_end]
      exact ⟨rfl, ih (by omega) hrest⟩
    · rw [protect, if_neg hlast, checked_inside (by omega)]
      exact ih (by omega) (by rwa [Nat.add_right_comm, Nat.add_assoc])

/-! ## Errors -/

/-- Inside a group the rest of the text is right for one crc only. -/
theorem checked_unique (htelling : Telling step) {xs : List α} (hpos : 0 < count) (hcount : count ≤ n)
    (h : checked step init n xs crc count = true) (h' : checked step init n xs crc' count = true) : crc = crc' := by
  induction xs generalizing crc crc' count with
  | nil =>
    rw [checked, beq_iff_eq] at h
    omega
  | cons x xs ih =>
    by_cases hend : count = n
    · subst hend
      exact (checked_end.mp h).1.trans (checked_end.mp h').1.symm
    · rw [checked_inside hend] at h h'
      exact htelling.crc (ih (Nat.succ_pos count) (by omega) h h')

theorem checked_replace_head (htelling : Telling step) {x y : α} {xs : List α} (hcount : count ≤ n)
    (h : checked step init n (x :: xs) crc count = true) (h' : checked step init n (y :: xs) crc count = true) :
    x = y := by
  by_cases hend : count = n
  · subst hend
    exact (checked_end.mp h).1.symm.trans (checked_end.mp h').1
  · rw [checked_inside hend] at h h'
    exact htelling.symbol (checked_unique htelling (Nat.succ_pos count) (by omega) h h')

theorem checked_swap_head (htelling : Telling step) {x y : α} {xs : List α} (hcount : count ≤ n)
    (h : checked step init n (x :: y :: xs) crc count = true) (h' : checked step init n (y :: x :: xs) crc count = true) :
    x = y := by
  by_cases hend : count = n
  · -- a check symbol and the first symbol behind it
    subst hend
    exact (checked_end.mp h).1.symm.trans (checked_end.mp h').1
  · rw [checked_inside hend] at h h'
    by_cases hlast : count + 1 = n
    · -- the last symbol of a group and its check symbol
      rw [hlast] at h h'
      exact htelling.check (checked_end.mp h).1 (checked_end.mp h').1
    · rw [checked_inside hlast] at h h'
      exact htelling.order (checked_unique htelling (Nat.succ_pos _) (by omega) h h')

theorem checked_append (step : α → α → α) (init crc : α) (hcount : count ≤ n) (p : List α) :
    (∀ xs, checked step init n (p ++ xs) crc count = false) ∨
      ∃ crc' count', count' ≤ n ∧ ∀ xs, checked step init n (p ++ xs) crc count = checked step init n xs crc' count' := by
  induction p generalizing crc count with
  | nil => exact .inr ⟨crc, count, hcount, fun _ => rfl⟩
  | cons x p ih =>
    by_cases hend : count = n
    · subst hend
      by_cases hx : crc = x
      · have hread : ∀ xs, checked step init count (x :: p ++ xs) crc count =
            checked step init count (p ++ xs) init 0 := by
          intro xs
          rw [List.cons_append, checked, if_pos rfl, hx, beq_self_eq_true, Bool.true_and]
        simp only [hread]
        exact ih init (Nat.zero_le count)
      · refine .inl ?_
        intro xs
        rw [List.cons_append, checked, if_pos rfl, beq_eq_false_iff_ne.mpr hx, Bool.false_and]
    · simp only [List.cons_append, checked_inside hend]
      exact ih _ (by omega)

theorem checked_replace (htelling : Telling step) {p xs : List α} {x y : α} (hcount : count ≤ n)
    (h : checked step init n (p ++ x :: xs) crc count = true) (h' : checked step init n (p ++ y :: xs) crc count = true) :
    x = y := by
  obtain hnever | ⟨crc₁, count₁, hcount₁, hread⟩ := checked_append step init crc hcount p
  · rw [hnever] at h
    cases h
  · rw [hread] at h h'
    exact checked_replace_head htelling hcount₁ h h'

/-- No two neighbours in a text that is right can have changed places, unless they are the same. -/
theorem checked_swap (htelling : Telling step) {p xs : List α} {x y : α} (hcount : count ≤ n)
    (h : checked step init n (p ++ x :: y :: xs) crc count = true)
    (h' : checked step init n (p ++ y :: x :: xs) crc count = true) : x = y := by
  obtain hnever | ⟨crc₁, count₁, hcount₁, hread⟩ := checked_append step init crc hcount p
  · rw [hnever] at h
    cases h
  · rw [hread] at h h'
    exact checked_swap_head htelling hcount₁ h h'

end ChromeEc.Lib
