import Mathlib.Data.BitVec
import Mathlib.Data.Finset.Max
import Mathlib.Logic.Function.Basic

/- What the parts of core/cortex-m/task.c share: event words, and words with a bit for each task.

  There are `n` tasks. A word with a bit for each task is the set of those whose bit is set,
  and `__fls` of it is its largest member. -/
namespace ChromeEc.Task

abbrev Events := BitVec 32

def taskEventResetDone : Events := .twoPow 32 28
def taskEventMutex : Events := .twoPow 32 30
def taskEventTimer : Events := .twoPow 32 31

def has (word events : Events) : Bool := word &&& events != 0

variable {a b c : Events}

@[simp] theorem has_or : has (a ||| b) c = (has a c || has b c) := by
  rw [Bool.eq_iff_iff]
  simp only [has, bne_iff_ne, Bool.or_eq_true, ne_eq, BitVec.and_comm _ c, BitVec.and_or_distrib_left,
    BitVec.or_eq_zero_iff, not_and_or, BitVec.ofNat_eq_ofNat]

theorem has_clear (h : b &&& c = 0) : has (a &&& ~~~b) c = has a c := by
  have hand : a &&& ~~~b &&& c = a &&& c := by
    ext k hk
    have hbit : (b &&& c)[k] = false := by rw [h]; simp
    simp only [BitVec.getElem_and, BitVec.getElem_not] at hbit ⊢
    cases hb : b[k] <;> simp [hb] at hbit ⊢
    rw [hbit]
    simp
  rw [has, has, hand]

theorem has_left (h : has (a ||| b) c = false) : has b c = false := by
  rw [has_or, Bool.or_eq_false_iff] at h
  exact h.2

theorem has_mono (hsub : b &&& c = c) (h : has a b = false) : has a c = false := by
  have hzero : a &&& b = 0 := by simpa [has] using h
  have hand : a &&& c = 0 := by
    rw [← hsub, ← BitVec.and_assoc, hzero]
    simp
  simp [has, hand]

end ChromeEc.Task
