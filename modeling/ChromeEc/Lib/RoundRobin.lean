import Mathlib.Data.Nat.Init

/- Going round a circle of numbers.

  The numbers below `N` are tried one after the other, from a start on and round the
  circle, until one is found. The next time the search starts behind it.

  What is proved: the search finds a number if there is one to find (`firstFrom_isSome`),
  and whoever is waiting is closer after a search that found another (`turnsTo_after`). -/
namespace ChromeEc.Lib

/-- The first of the `n` places from `i` on whose number is wanted. -/
def firstFrom (N : Nat) (wanted : Nat → Bool) (start : Nat) : Nat → Nat → Option Nat
  | 0, _ => none
  | n + 1, i => if wanted ((start + i) % N) then some i else firstFrom N wanted start n (i + 1)

def turnsTo (N start t : Nat) : Nat := (t + (N - start % N)) % N

variable {N start t n i k : Nat} {wanted : Nat → Bool}

theorem firstFrom_eq_none (h : firstFrom N wanted start n i = none) {j : Nat} (hj : j < n) :
    wanted ((start + (i + j)) % N) = false := by
  induction n generalizing i j with
  | zero => omega
  | succ n ih =>
    rw [firstFrom] at h
    split at h
    · cases h
    · rename_i hfirst
      cases j with
      | zero => simpa using hfirst
      | succ j =>
        have hrest := ih h (j := j) (by omega)
        rwa [Nat.add_assoc, Nat.add_comm 1 j] at hrest

theorem firstFrom_eq_some (h : firstFrom N wanted start n i = some k) :
    i ≤ k ∧ k < i + n ∧ wanted ((start + k) % N) = true ∧
      ∀ j, i ≤ j → j < k → wanted ((start + j) % N) = false := by
  induction n generalizing i with
  | zero => cases h
  | succ n ih =>
    rw [firstFrom] at h
    split at h
    · rename_i hfirst
      cases h
      exact ⟨Nat.le_refl _, by omega, hfirst, fun j hj hj' => by omega⟩
    · rename_i hfirst
      obtain ⟨hle, hlt, hwanted, hbefore⟩ := ih h
      refine ⟨by omega, by omega, hwanted, ?_⟩
      intro j hj hjk
      obtain rfl | hj := Nat.eq_or_lt_of_le hj
      · simpa using hfirst
      · exact hbefore j hj hjk

/-! ## Turns -/

theorem turnsTo_lt (hN : 0 < N) : turnsTo N start t < N := Nat.mod_lt _ hN

theorem add_turns_back (hN : 0 < N) (start i : Nat) : (start + (i + (N - start % N))) % N = i % N := by
  have hlt := Nat.mod_lt start hN
  have hround : (start % N + (N - start % N) % N) % N = 0 := by
    rw [Nat.add_mod_mod, Nat.add_sub_cancel' (Nat.le_of_lt hlt), Nat.mod_self]
  rw [Nat.add_left_comm, Nat.add_mod, Nat.add_mod start, hround, Nat.add_zero, Nat.mod_mod]

theorem add_turnsTo (hN : 0 < N) (ht : t < N) : (start + turnsTo N start t) % N = t := by
  rw [turnsTo, Nat.add_mod_mod, add_turns_back hN, Nat.mod_eq_of_lt ht]

theorem turnsTo_eq (hk : k < N) (ht : (start + k) % N = t) : turnsTo N start t = k := by
  subst ht
  rw [turnsTo, Nat.mod_add_mod, Nat.add_assoc, add_turns_back (by omega), Nat.mod_eq_of_lt hk]

theorem firstFrom_le_turnsTo (hN : 0 < N) (ht : t < N) (hwanted : wanted t = true) :
    ∃ k, firstFrom N wanted start N 0 = some k ∧ k ≤ turnsTo N start t := by
  have hlt := @turnsTo_lt _ start t hN
  have hat := @add_turnsTo _ start _ hN ht
  cases h : firstFrom N wanted start N 0 with
  | none =>
    have hno := firstFrom_eq_none h hlt
    rw [Nat.zero_add, hat, hwanted] at hno
    cases hno
  | some k =>
    refine ⟨k, rfl, ?_⟩
    obtain ⟨-, -, -, hbefore⟩ := firstFrom_eq_some h
    refine Nat.le_of_not_lt fun hgt => ?_
    have hno := hbefore (turnsTo N start t) (Nat.zero_le _) (by omega)
    rw [hat, hwanted] at hno
    cases hno

theorem turnsTo_after (hN : 0 < N) (ht : t < N) (hk : k < turnsTo N start t) :
    turnsTo N ((start + k) % N + 1) t < turnsTo N start t := by
  have hlt := @turnsTo_lt _ start t hN
  have heq : turnsTo N ((start + k) % N + 1) t = turnsTo N start t - k - 1 := by
    apply turnsTo_eq (by omega)
    have hsum : start + k + (1 + (turnsTo N start t - k - 1)) = start + turnsTo N start t := by omega
    rw [Nat.add_assoc, Nat.mod_add_mod, hsum, add_turnsTo hN ht]
  omega

end ChromeEc.Lib
