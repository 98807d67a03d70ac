import Mathlib.Data.List.Nodup
import Mathlib.Data.Nat.Init

/- Forests given by parent pointers.

  A forest maps each node to its parent, or to nothing for a root, and carries a
  height that drops along parent links, so that no walk up is endless. A pointer
  to a node is an `Option`, with `none` for the null pointer. `chain` lists a
  node and its ancestors. -/
namespace ChromeEc.Lib

/-- Parent pointers without a cycle. -/
structure Forest (σ : Type) where
  parent : σ → Option σ
  height : σ → Nat
  height_lt : ∀ {s p : σ}, parent s = some p → height p < height s

namespace Forest

variable {σ : Type} (F : Forest σ)

/-- One more than the height, and 0 for the null pointer. -/
def rank : Option σ → Nat
  | none => 0
  | some s => F.height s + 1

theorem rank_parent_lt (s : σ) : F.rank (F.parent s) < F.rank (some s) := by
  cases h : F.parent s with
  | none => exact Nat.succ_pos _
  | some p => exact Nat.succ_lt_succ (F.height_lt h)

/-- The node pointed to and its ancestors, from the node up. -/
def chain : Option σ → List σ
  | none => []
  | some s => s :: chain (F.parent s)
termination_by c => F.rank c
decreasing_by exact F.rank_parent_lt s

@[simp] theorem chain_none : F.chain none = [] := by
  rw [chain]

theorem chain_some (s : σ) : F.chain (some s) = s :: F.chain (F.parent s) := by
  rw [chain]

theorem induction_up {motive : Option σ → Prop} (none : motive none)
    (some : ∀ s, motive (F.parent s) → motive (some s)) : ∀ c, motive c := by
  intro c
  induction hn : F.rank c using Nat.strong_induction_on generalizing c with
  | _ n ih =>
    subst hn
    cases c with
    | none => exact none
    | some s => exact some s (ih _ (F.rank_parent_lt s) _ rfl)

theorem height_le_of_mem_chain {a : σ} :
    ∀ {c : Option σ}, a ∈ F.chain c → F.height a + 1 ≤ F.rank c := by
  intro c
  induction c using F.induction_up with
  | none =>
    intro h
    rw [chain_none] at h
    exact absurd h List.not_mem_nil
  | some s ih =>
    intro h
    rw [chain_some] at h
    obtain rfl | h := List.mem_cons.mp h
    · exact Nat.le_refl _
    · exact Nat.le_of_lt (Nat.lt_of_le_of_lt (ih h) (F.rank_parent_lt s))

theorem notMem_chain_parent (s : σ) : s ∉ F.chain (F.parent s) := by
  intro h
  have h₁ := F.height_le_of_mem_chain h
  have h₂ : F.rank (F.parent s) < F.height s + 1 := F.rank_parent_lt s
  omega

theorem parent_ne_of_mem_chain {s a : σ} (h : a ∈ F.chain (some s)) : F.parent a ≠ some s := by
  intro hp
  have h₁ : F.height a + 1 ≤ F.height s + 1 := F.height_le_of_mem_chain h
  have h₂ := F.height_lt hp
  omega

/-- `stop` is the null pointer, or points to a node of the chain of `c`. -/
def Above (stop c : Option σ) : Prop := ∀ s, stop = some s → s ∈ F.chain c

theorem above_refl (c : Option σ) : F.Above c c := by
  intro s h
  rw [h, chain_some]
  exact List.mem_cons_self

theorem Above.parent {F : Forest σ} {stop : Option σ} {s : σ} (h : F.Above stop (some s))
    (hne : stop ≠ some s) : F.Above stop (F.parent s) := by
  intro a ha
  have hm := h a ha
  rw [chain_some] at hm
  obtain rfl | hm := List.mem_cons.mp hm
  · exact absurd ha hne
  · exact hm

theorem Above.eq_none {F : Forest σ} {stop : Option σ} (h : F.Above stop none) : stop = none := by
  cases stop with
  | none => rfl
  | some a =>
    have := h a rfl
    rw [chain_none] at this
    exact absurd this List.not_mem_nil

theorem above_none (c : Option σ) : F.Above none c := by
  intro s h
  cases h

end Forest

end ChromeEc.Lib
