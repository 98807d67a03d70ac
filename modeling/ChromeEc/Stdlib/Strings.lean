import Mathlib.Data.List.Find
import Mathlib.Data.List.GetD

/- `strstr` of `builtin/stdlib.c`.

  The loop over the needle leaves at a difference with `q` already past it, so that a difference in the last character is
  taken for the needle's end: of a needle with more than one character all but the last are looked for
  (`strstr_iff`).

  Correspondence (C ↔ Lean):
    strings ↔ `CString`, pointers into them ↔ indices
    `strlen` ↔ the length, `*s` ↔ `char`
    `strstr` ↔ `strstr`, with `NULL` as `none` -/
namespace ChromeEc.Stdlib

/-- The characters in front of the terminator. -/
structure CString where
  chars : List UInt8
  noNul : 0 ∉ chars

namespace CString

variable (s s1 s2 : CString)

def length : Nat := s.chars.length

def char (i : Nat) : UInt8 := s.chars.getD i 0

/-- Where the inner loop leaves `q`, of which there are `n` left in the needle. -/
def compareFrom : Nat → Nat → Nat → Nat
  | 0, _, q => q
  | n + 1, p, q => if s1.char p ≠ s2.char q then q + 1 else compareFrom n (p + 1) (q + 1)

def strstr : Option Nat :=
  if s1.length = 0 ∨ s2.length = 0 ∨ s1.length < s2.length then none
  else (List.range (s1.length - s2.length + 1)).find? fun i =>
    s1.char i == s2.char 0 && s2.char (compareFrom s1 s2 (s2.length - 1) (i + 1) 1) == 0

/-- The first `k` characters of the needle are at the place. -/
def Occurs (k i : Nat) : Prop := ∀ j < k, s1.char (i + j) = s2.char j

instance (k i : Nat) : Decidable (Occurs s1 s2 k i) := inferInstanceAs (Decidable (∀ j < k, _))

def search : Option Nat := (List.range (s1.length + 1 - s2.length)).find? fun i => decide (Occurs s1 s2 s2.length i)

variable {s s1 s2}

theorem char_eq_zero {i : Nat} : s.char i = 0 ↔ s.length ≤ i := by
  rw [CString.char, length]
  constructor
  · intro h
    by_contra hlt
    rw [List.getD_eq_getElem _ _ (Nat.lt_of_not_le hlt)] at h
    exact s.noNul (h ▸ List.getElem_mem _)
  · exact fun h => List.getD_eq_default _ _ h

/-- By induction on the characters that are left: the last of them is not looked at. -/
theorem compareFrom_ends {n p q : Nat} (h : q + n = s2.length) :
    s2.char (compareFrom s1 s2 n p q) = 0 ↔ ∀ j < n - 1, s1.char (p + j) = s2.char (q + j) := by
  induction n generalizing p q with
  | zero =>
    rw [compareFrom, char_eq_zero]
    exact iff_of_true (Nat.le_of_eq h.symm) fun j hj => absurd hj (Nat.not_lt_zero j)
  | succ n ih =>
    rw [compareFrom, Nat.add_sub_cancel]
    by_cases hsame : s1.char p = s2.char q
    · rw [if_neg (not_not.mpr hsame), ih (by omega)]
      constructor
      · intro hrest j hj
        cases j with
        | zero => exact hsame
        | succ j =>
          have hnext := hrest j (by omega)
          rwa [Nat.add_right_comm, Nat.add_right_comm q] at hnext
      · intro hall j hj
        rw [Nat.add_right_comm, Nat.add_right_comm q]
        exact hall (j + 1) (by omega)
    · rw [if_pos hsame, char_eq_zero]
      refine ⟨fun hend j hj => by omega, fun hall => ?_⟩
      by_contra hmore
      exact hsame (hall 0 (by omega))

theorem strstr_eq (h : s2.length ≠ 0) : strstr s1 s2 = (List.range (s1.length + 1 - s2.length)).find? fun i =>
    decide (Occurs s1 s2 (max 1 (s2.length - 1)) i) := by
  rw [strstr]
  split
  · rename_i hshort
    rw [show s1.length + 1 - s2.length = 0 by omega]
    rfl
  · rw [show s1.length + 1 - s2.length = s1.length - s2.length + 1 by omega]
    refine List.find?_congr fun i _ => ?_
    rw [Bool.eq_iff_iff, Bool.and_eq_true, beq_iff_eq, beq_iff_eq, compareFrom_ends (by omega), decide_eq_true_iff]
    constructor
    · rintro ⟨hfirst, hrest⟩ j hj
      cases j with
      | zero => exact hfirst
      | succ j =>
        have hnext := hrest j (by omega)
        rwa [Nat.add_assoc, Nat.add_comm 1] at hnext
    · refine fun hall => ⟨hall 0 (by omega), fun j hj => ?_⟩
      rw [Nat.add_assoc, Nat.add_comm 1]
      exact hall (j + 1) (by omega)

/-- A search under one condition more ends at the same place if that place meets it. -/
theorem find?_and_iff {α : Type} {p q : α → Bool} (l : List α) :
    l.find? p = l.find? (fun x => p x && q x) ↔ ∀ x, l.find? p = some x → q x = true := by
  induction l with
  | nil => exact iff_of_true rfl fun x hx => by cases hx
  | cons a l ih =>
    rw [List.find?_cons, List.find?_cons]
    cases hp : p a with
    | false => exact ih
    | true =>
      cases hq : q a with
      | true => exact iff_of_true rfl fun x hx => Option.some.inj hx ▸ hq
      | false =>
        refine iff_of_false (fun h => ?_) fun h => ?_
        · have hfound := List.find?_some h.symm
          rw [hq, Bool.and_false] at hfound
          cases hfound
        · rw [h a rfl] at hq
          cases hq

theorem occurs_iff (h : s2.length ≠ 0) {i : Nat} : Occurs s1 s2 s2.length i ↔
    Occurs s1 s2 (max 1 (s2.length - 1)) i ∧ s1.char (i + (s2.length - 1)) = s2.char (s2.length - 1) := by
  refine ⟨fun hall => ⟨fun j hj => hall j (by omega), hall _ (by omega)⟩, fun ⟨hfront, hlast⟩ j hj => ?_⟩
  obtain hlt | rfl : j < s2.length - 1 ∨ j = s2.length - 1 := by omega
  · exact hfront j (by omega)
  · exact hlast

/-- The place that is found is the first one of all but the last character of the needle, so that it is the one that is
asked for exactly when the last character is there as well. -/
theorem strstr_iff (h : s2.length ≠ 0) :
    strstr s1 s2 = search s1 s2 ↔ ∀ i, strstr s1 s2 = some i →
      s1.char (i + (s2.length - 1)) = s2.char (s2.length - 1) := by
  have hsearch : search s1 s2 = (List.range (s1.length + 1 - s2.length)).find? fun i =>
      decide (Occurs s1 s2 (max 1 (s2.length - 1)) i) &&
        decide (s1.char (i + (s2.length - 1)) = s2.char (s2.length - 1)) := by
    refine List.find?_congr fun i _ => ?_
    rw [← Bool.decide_and]
    exact decide_eq_decide.mpr (occurs_iff h)
  rw [hsearch, strstr_eq h, find?_and_iff]
  simp only [decide_eq_true_iff]

def ab : CString := ⟨[97, 98], by decide⟩
def ac : CString := ⟨[97, 99], by decide⟩

/-- `ac` is found in `ab`. -/
theorem strstr_iff_differs : strstr ab ac ≠ search ab ac :=
  (@strstr_iff ab ac (by decide)).not.mpr fun h => absurd (h 0 (by decide)) (by decide)

end CString
end ChromeEc.Stdlib
