import ChromeEc.Lib.Steps
import Mathlib.Logic.Function.Basic

/- Tasks that share a state.

  Any number of tasks take steps in any order. What a task does next depends on where it
  is and on the shared state, and `advance` gives both afterwards, or nothing where the
  task cannot take that step.

  What is proved: a task that took no step is where it was (`untouched`), and one that is
  somewhere stays there while others take steps (`exists_update`, `forall_update`). -/
namespace ChromeEc.Lib.Tasks

variable {σ π α : Type}

structure Sys (σ π : Type) where
  shared : σ
  pc : Nat → π

def step (advance : α → σ → π → Option (σ × π)) (x : Nat × α) (s : Sys σ π) : Option (Sys σ π) :=
  (advance x.2 s.shared (s.pc x.1)).map fun r => ⟨r.1, Function.update s.pc x.1 r.2⟩

variable {advance : α → σ → π → Option (σ × π)} {start s s' : Sys σ π} {l : List (Sys σ π × Nat × α)}

theorem step_eq_some {i : Nat} {a : α} (h : step advance (i, a) s = some s') :
    ∃ sh p, advance a s.shared (s.pc i) = some (sh, p) ∧ s' = ⟨sh, Function.update s.pc i p⟩ := by
  obtain ⟨⟨sh, p⟩, hr, rfl⟩ := Option.map_eq_some_iff.mp h
  exact ⟨sh, p, hr, rfl⟩

theorem untouched (h : Steps.Run (step advance) start l s) {i : Nat} (hi : ∀ x ∈ l, x.2.1 ≠ i) :
    s.pc i = start.pc i := by
  induction h with
  | start => rfl
  | @step l s s' x run hnext ih =>
    obtain ⟨sh, p, -, rfl⟩ := step_eq_some hnext
    have hx : x.1 ≠ i := hi (s, x) (List.mem_append_right _ (List.mem_singleton_self _))
    show Function.update s.pc x.1 p i = start.pc i
    rw [Function.update_of_ne hx.symm]
    exact ih fun y hy => hi y (List.mem_append_left _ hy)

variable {p : π → Prop} {pc : Nat → π} {i : Nat} {q : π}

theorem exists_update (h : ∃ j, p (pc j)) (hi : ¬p (pc i)) : ∃ j, p (Function.update pc i q j) := by
  obtain ⟨j, hj⟩ := h
  refine ⟨j, ?_⟩
  rwa [Function.update_of_ne]
  rintro rfl
  exact hi hj

theorem exists_update_self (h : p q) : ∃ j, p (Function.update pc i q j) :=
  ⟨i, by rwa [Function.update_self]⟩

theorem forall_update {R : Nat → π → Prop} (h : ∀ j, R j (pc j)) (hq : R i q) :
    ∀ j, R j (Function.update pc i q j) := by
  intro j
  obtain rfl | hj := eq_or_ne j i
  · rwa [Function.update_self]
  · rw [Function.update_of_ne hj]
    exact h j

end ChromeEc.Lib.Tasks
