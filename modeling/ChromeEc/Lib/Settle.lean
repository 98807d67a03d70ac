import Mathlib.Logic.Function.Iterate
import Mathlib.Order.Basic

/- A system that goes on by itself while it is busy.

  A state is stuck when it is busy and the next one is stuck again. A measure gets smaller
  from each busy state to the next busy one, unless that one is stuck.

  What is proved: the system stops exactly when it never gets stuck, and then before the
  measure is used up (`settles_iff`). -/
namespace ChromeEc.Lib

variable {σ : Type} {next : σ → σ} {busy stuck inv : σ → Prop} {measure : σ → Nat} {s : σ}

theorem inv_iterate (hinv : ∀ s, inv s → inv (next s)) (h : inv s) (k : Nat) : inv (next^[k] s) := by
  induction k with
  | zero => exact h
  | succ k ih =>
    rw [Function.iterate_succ_apply']
    exact hinv _ ih

theorem stuck_iterate (hinv : ∀ s, inv s → inv (next s)) (hstuck : ∀ s, inv s → stuck s → stuck (next s)) (hs : inv s)
    (h : stuck s) (k : Nat) : stuck (next^[k] s) := by
  have hnext : ∀ s, inv s ∧ stuck s → inv (next s) ∧ stuck (next s) := fun s h => ⟨hinv s h.1, hstuck s h.1 h.2⟩
  have hstart : inv s ∧ stuck s := ⟨hs, h⟩
  have hboth := @inv_iterate σ next (fun s => inv s ∧ stuck s) s hnext hstart k
  exact hboth.2

theorem idle_iterate (hidle : ∀ s, ¬busy s → next s = s) (h : ¬busy s) (k : Nat) : next^[k] s = s :=
  Function.iterate_fixed (hidle s h) k

theorem settles_of_not_stuck (hinv : ∀ s, inv s → inv (next s))
    (hless : ∀ s, inv s → busy s → busy (next s) → stuck (next s) ∨ measure (next s) < measure s) {n : Nat} (h : inv s)
    (hn : measure s ≤ n) (hnever : ∀ k, ¬stuck (next^[k] s)) : ∃ k ≤ n + 1, ¬busy (next^[k] s) := by
  by_cases hnow : busy s
  · by_cases hafter : busy (next s)
    · have hlt : measure (next s) < measure s := (hless s h hnow hafter).resolve_left (hnever 1)
      induction n generalizing s with
      | zero => omega
      | succ n ih =>
        have hlater : ∀ k, ¬stuck (next^[k] (next s)) := by
          intro k
          rw [← Function.iterate_succ_apply]
          exact hnever (k + 1)
        by_cases hsecond : busy (next (next s))
        · have hnext := (hless _ (hinv s h) hafter hsecond).resolve_left (hlater 1)
          obtain ⟨k, hk, hidle⟩ := ih (hinv s h) (by omega) hlater hafter hsecond hnext
          exact ⟨k + 1, Nat.succ_le_succ hk, hidle⟩
        · exact ⟨2, by omega, hsecond⟩
    · exact ⟨1, Nat.le_add_left 1 n, hafter⟩
  · exact ⟨0, Nat.zero_le _, hnow⟩

theorem settles_iff (hinv : ∀ s, inv s → inv (next s)) (hidle : ∀ s, ¬busy s → next s = s)
    (hbusy : ∀ s, stuck s → busy s) (hstuck : ∀ s, inv s → stuck s → stuck (next s))
    (hless : ∀ s, inv s → busy s → busy (next s) → stuck (next s) ∨ measure (next s) < measure s) {n : Nat} (h : inv s)
    (hn : measure s ≤ n) : (∃ k ≤ n + 1, ¬busy (next^[k] s)) ↔ ∀ k, ¬stuck (next^[k] s) := by
  refine ⟨?_, settles_of_not_stuck hinv hless h hn⟩
  rintro ⟨k, -, hk⟩ j hj
  have hafter : ∀ i, ¬busy (next^[k + i] s) := by
    intro i
    rw [Nat.add_comm, Function.iterate_add_apply, idle_iterate hidle hk]
    exact hk
  -- either way round, the later one of the two states is busy and is not
  rcases Nat.le_total k j with hle | hle
  · obtain ⟨i, rfl⟩ := Nat.exists_eq_add_of_le hle
    exact hafter i (hbusy _ hj)
  · obtain ⟨i, rfl⟩ := Nat.exists_eq_add_of_le hle
    have hlast : stuck (next^[i] (next^[j] s)) := stuck_iterate hinv hstuck (inv_iterate hinv h j) hj i
    rw [← Function.iterate_add_apply, Nat.add_comm] at hlast
    exact hk (hbusy _ hlast)

end ChromeEc.Lib
