import Mathlib.Algebra.Group.Nat.Defs
import Mathlib.Data.List.Chain

/- Stamps that keep a distance.

  Times are words of `n` bits that wrap, compared by the sign of their difference. A `Pace`
  expects the next time. A raw time later than that is taken as it is, and any other gives
  way to the expected time; a period later the next one is expected. The first time that is
  seen sets the pace.

  What is proved: no stamp is earlier than its raw time (`Pace.not_after_stamp`), two stamps in a
  row are at least a period apart unless the second raw time is half a turn away from the
  expected one (`Keeps.spaced`), and the stamps depend on the raw times alone
  (`Keeps.unique`). -/
namespace ChromeEc.Lib

variable {n : Nat}

/-- `a` is later than `b`. -/
def after (a b : BitVec n) : Bool := (b - a).toInt < 0

/-- The times are not half a turn apart, so that one of them is the later one. -/
def Near (a b : BitVec n) : Prop := (a - b).toInt.natAbs < 2 ^ (n - 1)

theorem after_self (a : BitVec n) : after a a = false := by simp [after]

theorem Near.not_after {a b : BitVec n} (h : Near a b) (hab : after a b = true) : after b a = false := by
  have hlt : (b - a).toInt < 0 := by simpa [after] using hab
  have hneg : b - a = -(a - b) := by
    rw [BitVec.neg_sub, BitVec.sub_eq_add_neg, BitVec.add_comm]
  have hne : a - b ≠ BitVec.intMin n := by
    intro heq
    rw [Near, heq, BitVec.toInt_intMin, Int.natAbs_neg, Int.natAbs_natCast] at h
    rw [hneg, heq, BitVec.neg_intMin, BitVec.toInt_intMin] at hlt
    cases n with
    | zero => simp at hlt
    | succ k =>
      rw [Nat.add_sub_cancel, Nat.mod_eq_of_lt (Nat.pow_lt_pow_right (by decide) (Nat.lt_succ_self k))] at h
      exact Nat.lt_irrefl _ h
  rw [hneg, BitVec.toInt_neg_of_ne_intMin hne] at hlt
  simp only [after, decide_eq_false_iff_not]
  omega

/-! ## Paces -/

structure Pace (n : Nat) where
  known : Bool
  next : BitVec n
  deriving DecidableEq

/-- A time is seen, or is stamped. -/
inductive Tick (n : Nat) where
  | sight (raw : BitVec n)
  | stamp (raw stamp : BitVec n)
  deriving DecidableEq

def Pace.stamp (p : Pace n) (raw : BitVec n) : BitVec n :=
  if !p.known || after raw p.next then raw else p.next

def Pace.step (period : BitVec n) (p : Pace n) : Tick n → Pace n
  | .sight raw => if p.known then p else ⟨true, raw⟩
  | .stamp _ stamp => ⟨true, stamp + period⟩

/-- A stamp is the one that the pace gives. -/
def Tick.Fits (p : Pace n) : Tick n → Prop
  | .sight _ => True
  | .stamp raw time => time = p.stamp raw

def Pace.run (period : BitVec n) (p : Pace n) (ts : List (Tick n)) : Pace n := ts.foldl (Pace.step period) p

/-- The paces differ at most in the time that is expected before one has been seen. -/
def Pace.Same (p q : Pace n) : Prop := p.known = q.known ∧ (p.known = true → p.next = q.next)

/-- Each stamp is the one that the pace gives at the time. -/
def Keeps (period : BitVec n) : Pace n → List (Tick n) → Prop
  | _, [] => True
  | p, t :: ts => t.Fits p ∧ Keeps period (p.step period t) ts

def stamps (ts : List (Tick n)) : List (BitVec n × BitVec n) :=
  ts.filterMap fun
    | .sight _ => none
    | .stamp raw stamp => some (raw, stamp)

/-- What is known before the stamps are: the raw times, and whether each is stamped. -/
def Tick.raw : Tick n → Bool × BitVec n
  | .sight raw => (false, raw)
  | .stamp raw _ => (true, raw)

variable {period : BitVec n} {p : Pace n} {ts ts' : List (Tick n)}

theorem Keeps.append (h : Keeps period p ts) (h' : Keeps period (p.run period ts) ts') :
    Keeps period p (ts ++ ts') := by
  induction ts generalizing p with
  | nil => exact h'
  | cons t ts ih => exact ⟨h.1, ih h.2 h'⟩

theorem Pace.run_append : p.run period (ts ++ ts') = (p.run period ts).run period ts' :=
  List.foldl_append ..

theorem stamps_append : stamps (ts ++ ts') = stamps ts ++ stamps ts' := List.filterMap_append ..

theorem Pace.not_after_stamp (p : Pace n) (raw : BitVec n) : after raw (p.stamp raw) = false := by
  unfold Pace.stamp
  split
  · exact after_self raw
  · rename_i h
    simp only [Bool.or_eq_true, not_or, Bool.not_eq_true] at h
    exact h.2

theorem Pace.not_after_next {raw : BitVec n} (hknown : p.known = true) (hnear : Near raw p.next) :
    after p.next (p.stamp raw) = false := by
  unfold Pace.stamp
  rw [hknown]
  cases hafter : after raw p.next with
  | true => exact hnear.not_after hafter
  | false => exact after_self p.next

/-- The first stamp is not earlier than what the known pace expects. -/
theorem Keeps.first (h : Keeps period p ts) (hknown : p.known = true) {x : BitVec n × BitVec n}
    (hx : x ∈ (stamps ts).head?) (hnear : Near x.1 p.next) : after p.next x.2 = false := by
  induction ts with
  | nil => cases hx
  | cons t ts ih =>
    cases t with
    | sight raw =>
      have hsame : p.step period (.sight raw) = p := if_pos hknown
      rw [Keeps, hsame] at h
      exact ih h.2 hx
    | stamp raw stamp =>
      cases hx
      obtain rfl : stamp = p.stamp raw := h.1
      exact Pace.not_after_next hknown hnear

theorem Keeps.spaced (h : Keeps period p ts) :
    (stamps ts).IsChain fun x y => Near y.1 (x.2 + period) → after (x.2 + period) y.2 = false := by
  induction ts generalizing p with
  | nil => exact .nil
  | cons t ts ih =>
    cases t with
    | sight raw => exact ih h.2
    | stamp raw stamp =>
      refine List.isChain_cons.mpr ⟨?_, ih h.2⟩
      intro y hy hnear
      exact h.2.first rfl hy hnear

theorem Pace.Same.stamp {q : Pace n} (h : p.Same q) (raw : BitVec n) : p.stamp raw = q.stamp raw := by
  obtain ⟨hknown, hnext⟩ := h
  rw [Pace.stamp, Pace.stamp, ← hknown]
  cases hp : p.known with
  | false => rfl
  | true => rw [hnext hp]

theorem Pace.Same.step {q : Pace n} (h : p.Same q) (t : Tick n) : (p.step period t).Same (q.step period t) := by
  cases t with
  | stamp raw stamp => exact ⟨rfl, fun _ => rfl⟩
  | sight raw =>
    rw [Pace.step, Pace.step, ← h.1]
    cases hp : p.known with
    | false => exact ⟨rfl, fun _ => rfl⟩
    | true => exact h

theorem Keeps.unique {q : Pace n} (hsame : p.Same q) (h : Keeps period p ts) (h' : Keeps period q ts')
    (hraw : ts.map Tick.raw = ts'.map Tick.raw) : ts = ts' := by
  induction ts generalizing p q ts' with
  | nil => exact (List.map_eq_nil_iff.mp hraw.symm).symm
  | cons t ts ih =>
    cases ts' with
    | nil => cases hraw
    | cons t' ts' =>
      obtain ⟨ht, hrest⟩ := List.cons.inj hraw
      have heq : t = t' := by
        cases t with
        | sight raw =>
          cases t' with
          | sight raw' => exact congrArg Tick.sight (Prod.mk.inj ht).2
          | stamp raw' stamp' => cases ht
        | stamp raw stamp =>
          cases t' with
          | sight raw' => cases ht
          | stamp raw' stamp' =>
            obtain rfl : raw = raw' := (Prod.mk.inj ht).2
            obtain rfl : stamp = p.stamp raw := h.1
            obtain rfl : stamp' = q.stamp raw := h'.1
            rw [hsame.stamp]
      subst heq
      rw [ih (hsame.step t) h.2 h'.2 hrest]

end ChromeEc.Lib
