import Mathlib.Data.List.Basic
import Mathlib.Data.List.Infix

/- A log in which everything that is spent was granted before.

  Some events of a log spend, others grant, and most do neither. `Credit n log` says
  that no more was spent than granted at any time, and that at the end `n` are left. -/
namespace ChromeEc.Lib

variable {α : Type}

structure Credit (spend grant : α → Bool) (n : Nat) (log : List α) : Prop where
  covered : ∀ pre, pre <+: log → pre.countP spend ≤ pre.countP grant
  left : log.countP spend + n ≤ log.countP grant

namespace Credit

variable {spend grant : α → Bool} {n : Nat} {log : List α}

theorem nil : Credit spend grant 0 [] where
  covered := by
    intro pre hpre
    rw [List.prefix_nil.mp hpre]
    exact Nat.le_refl 0
  left := Nat.le_refl 0

theorem mono {m : Nat} (h : Credit spend grant n log) (hm : m ≤ n) : Credit spend grant m log where
  covered := h.covered
  left := by
    have := h.left
    omega

theorem append {evs : List α} (h : Credit spend grant n log) (hevs : ∀ ev ∈ evs, spend ev = false) :
    Credit spend grant (n + evs.countP grant) (log ++ evs) where
  covered := by
    intro pre hpre
    obtain hshort | hlong := List.prefix_or_prefix_of_prefix hpre (List.prefix_append log evs)
    · exact h.covered pre hshort
    · obtain ⟨rest, rfl⟩ := hlong
      have hrest : rest <+: evs := (List.prefix_append_right_inj log).mp hpre
      have hnone : rest.countP spend = 0 := by
        rw [List.countP_eq_zero]
        intro ev hev
        simp [hevs ev (hrest.subset hev)]
      have := h.left
      rw [List.countP_append, List.countP_append]
      omega
  left := by
    have hnone : evs.countP spend = 0 := by
      rw [List.countP_eq_zero]
      intro ev hev
      simp [hevs ev hev]
    have := h.left
    rw [List.countP_append, List.countP_append]
    omega

theorem snoc (h : Credit spend grant (n + 1) log) (ev : α) : Credit spend grant n (log ++ [ev]) := by
  have hone : [ev].countP spend ≤ 1 := by
    simpa using List.countP_le_length (p := spend) (l := [ev])
  have hleft : (log ++ [ev]).countP spend + n ≤ (log ++ [ev]).countP grant := by
    have := h.left
    rw [List.countP_append, List.countP_append]
    omega
  refine ⟨?_, hleft⟩
  intro pre hpre
  obtain rfl | hshort := List.prefix_concat_iff.mp hpre
  · omega
  · exact h.covered pre hshort

end Credit

end ChromeEc.Lib
