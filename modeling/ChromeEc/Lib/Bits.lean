import Mathlib.Data.Nat.Bitwise

/- Bits counted from the most significant one on.

  `msb len v k` is the `k`-th bit of a field of `len` bits with the value `v`, and `bitAt m j` the `j`-th
  bit of a memory of bytes. Shifts move a field within another one (`msb_shiftRight`, `msb_shiftLeft`), and
  a byte that is written changes its own bits only (`bitAt_update`). -/
namespace ChromeEc.Lib

/-- The `k`-th bit of a field of `len` bits. -/
def msb (len v k : Nat) : Bool := v.testBit (len - 1 - k)

def bitAt (m : Nat → UInt8) (j : Nat) : Bool := msb 8 (m (j / 8)).toNat (j % 8)

section

variable {len v w k n : Nat}

theorem msb_and : msb len (v &&& w) k = (msb len v k && msb len w k) := Nat.testBit_and v w _

theorem msb_or : msb len (v ||| w) k = (msb len v k || msb len w k) := Nat.testBit_or v w _

theorem msb_zero : msb len 0 k = false := Nat.zero_testBit _

theorem msb_ones (hk : k < len) : msb len (2 ^ len - 1) k = true := by
  rw [msb, Nat.testBit_two_pow_sub_one, decide_eq_true_eq]
  omega

theorem msb_add (hk : k < len) : msb (n + len) v (n + k) = msb len v k := by
  rw [msb, msb]
  congr 1
  omega

theorem msb_shiftRight (v : Nat) (hn : len ≤ n) (hk : k < len) : msb len (v >>> (n - len)) k = msb n v k := by
  rw [msb, msb, Nat.testBit_shiftRight]
  congr 1
  omega

theorem msb_shiftLeft (v : Nat) (hn : len ≤ n) (hk : k < n) :
    msb n (v <<< (n - len)) k = (decide (k < len) && msb len v k) := by
  rw [msb, msb, Nat.testBit_shiftLeft]
  by_cases h : k < len
  · rw [show n - 1 - k - (n - len) = len - 1 - k by omega, decide_eq_true h, decide_eq_true (by omega)]
  · rw [decide_eq_false h, decide_eq_false (by omega), Bool.false_and, Bool.false_and]

theorem msb_long (hv : v < 2 ^ len) (hn : len ≤ n) (hk : k < n) :
    msb n v k = (decide (n - len ≤ k) && msb len v (k - (n - len))) := by
  by_cases h : n - len ≤ k
  · rw [msb, msb, decide_eq_true h, Bool.true_and]
    congr 1
    omega
  · rw [msb, decide_eq_false h, Bool.false_and]
    exact Nat.testBit_lt_two_pow (Nat.lt_of_lt_of_le hv (Nat.pow_le_pow_right (by decide) (by omega)))

theorem eq_of_msb (hv : v < 2 ^ len) (hw : w < 2 ^ len) (h : ∀ k < len, msb len v k = msb len w k) : v = w := by
  refine Nat.eq_of_testBit_eq fun j => ?_
  by_cases hj : j < len
  · have hbit := h (len - 1 - j) (by omega)
    rwa [msb, msb, show len - 1 - (len - 1 - j) = j by omega] at hbit
  · have hbehind : 2 ^ len ≤ 2 ^ j := Nat.pow_le_pow_right (by decide) (Nat.not_lt.mp hj)
    rw [Nat.testBit_lt_two_pow (Nat.lt_of_lt_of_le hv hbehind), Nat.testBit_lt_two_pow (Nat.lt_of_lt_of_le hw hbehind)]

end

/-! ## Bytes -/

section

variable {m : Nat → UInt8} {j k : Nat} {a b : UInt8}

theorem msb_ofNat {v : Nat} (hk : k < 8) : msb 8 (UInt8.ofNat v).toNat k = msb 8 v k := by
  rw [msb, msb, UInt8.toNat_ofNat', Nat.testBit_mod_two_pow, decide_eq_true (by omega), Bool.true_and]

theorem msb_byte_or : msb 8 (a ||| b).toNat k = (msb 8 a.toNat k || msb 8 b.toNat k) := by
  rw [UInt8.toNat_or, msb_or]

theorem bitAt_update : bitAt (Function.update m k b) j = if j / 8 = k then msb 8 b.toNat (j % 8) else bitAt m j := by
  rw [bitAt, Function.update_apply]
  split <;> rfl

end

end ChromeEc.Lib
