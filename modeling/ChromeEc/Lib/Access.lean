import Mathlib.Data.Set.BooleanAlgebra
import Mathlib.Data.Set.Disjoint
import Mathlib.Order.CompletePartialOrder

/- Accesses to a memory that may fail part way.

  An access leaves a result and the memory. `Does eff s m r`: what `r` leaves of the memory
  `m` differs from it in the cells of `s` at most, and if the access worked then each of
  them has become what `eff` makes of it. An access that fails may have done any part of its
  work, so nothing is said of the cells of `s` then.

  What is proved: the rules for an access that does nothing (`Does.nothing`), for two
  accesses to disjoint sets one after the other (`Does.andThen`), and for a part that is
  left out (`Does.skip_or`). -/
namespace ChromeEc.Lib.Access

variable {ε β : Type} {eff eff' : Nat → β → β} {s t : Set Nat} {m : Nat → β} {p : Prop} [Decidable p]

abbrev Left (ε β : Type) := Except ε Unit × (Nat → β)

structure Does (eff : Nat → β → β) (s : Set Nat) (m : Nat → β) (r : Left ε β) : Prop where
  frame : ∀ a, a ∉ s → r.2 a = m a
  done : r.1 = .ok () → ∀ a ∈ s, r.2 a = eff a (m a)

/-- The second access is made if the first worked. -/
def andThen (r : Left ε β) (k : (Nat → β) → Left ε β) : Left ε β :=
  match r.1 with
  | .error e => (.error e, r.2)
  | .ok () => k r.2

theorem andThen_ok {r : Left ε β} {k : (Nat → β) → Left ε β} (h : r.1 = .ok ()) : andThen r k = k r.2 := by
  simp only [andThen, h]

theorem andThen_error {r : Left ε β} {k : (Nat → β) → Left ε β} {e : ε} (h : r.1 = .error e) : andThen r k = r := by
  simp only [andThen, h]
  exact Prod.ext h.symm rfl

theorem Does.nothing : Does eff ∅ m ((.ok (), m) : Left ε β) :=
  ⟨fun _ _ => rfl, fun _ a ha => absurd ha (Set.notMem_empty a)⟩

theorem Does.congr {r : Left ε β} (h : Does eff s m r) (heff : ∀ a ∈ t, eff a (m a) = eff' a (m a)) (hst : s = t) :
    Does eff' t m r := by
  subst hst
  exact ⟨h.frame, fun hok a ha => (h.done hok a ha).trans (heff a ha)⟩

theorem Does.failed {e : ε} : Does eff s m ((.error e, m) : Left ε β) :=
  ⟨fun _ _ => rfl, fun hok => by cases hok⟩

/-- The second access meets the cells that the first left alone as they were at the start. -/
theorem Does.andThen {r : Left ε β} {k : (Nat → β) → Left ε β} (h : Does eff s m r)
    (hk : Does eff t r.2 (k r.2)) (hst : Disjoint s t) : Does eff (s ∪ t) m (andThen r k) := by
  cases hr : r.1 with
  | error e =>
    rw [andThen_error hr]
    refine ⟨fun a ha => h.frame a fun hs => ha (Or.inl hs), fun hok => ?_⟩
    rw [hr] at hok
    cases hok
  | ok u =>
    rw [andThen_ok hr]
    refine ⟨fun a ha => ?_, fun hok a ha => ?_⟩
    · have hs : a ∉ s := fun hs => ha (Or.inl hs)
      have ht : a ∉ t := fun ht => ha (Or.inr ht)
      rw [hk.frame a ht, h.frame a hs]
    · rcases ha with hs | ht
      · have ht : a ∉ t := Set.disjoint_left.mp hst hs
        rw [hk.frame a ht, h.done hr a hs]
      · have hs : a ∉ s := Set.disjoint_right.mp hst ht
        rw [hk.done hok a ht, h.frame a hs]

theorem Does.skip_or {r : Left ε β} (h : p → Does eff s m r) (hnone : ¬p → s = ∅) :
    Does eff s m (if p then r else (.ok (), m)) := by
  by_cases hp : p
  · rw [if_pos hp]
    exact h hp
  · rw [if_neg hp, hnone hp]
    exact Does.nothing

end ChromeEc.Lib.Access
