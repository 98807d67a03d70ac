import Mathlib.Data.Nat.Sqrt
import ChromeEc.Lib.CInt

/- The integer square root of `common/math_util.c`, as it is without an FPU.

  The bisection keeps a number whose square is not above x and one whose square is (`Between`).
  Each turn halves the distance of the two, so 32 turns are enough for the 31 bits of an `int`. With
  a distance of 1 the middle is the lower one, and the loop is left there.

  Correspondence (C ↔ Lean):
    `int_sqrtf` ↔ `intSqrtf`, its loop `sqrtLoop` with at most `fuel` turns
  `fp_inter_t` is `int64_t`. -/
namespace ChromeEc.Util
open ChromeEc.Lib

def int32Max : Int := 2147483647

def sqrtLoop (x : Int) : Nat → Int → Int → Option Int
  | 0, _, _ => none
  | fuel + 1, rmin, rmax => do
    let r ← int (rmin + (← int (rmax - rmin)).tdiv 2)
    let r2 ← int64 (r * r)
    -- Guessed too high
    if x < r2 then sqrtLoop x fuel rmin r
    -- Guessed too low. Watch out for rounding!
    else if r2 < x then
      if rmin = r then return r
      else sqrtLoop x fuel r rmax
    -- Bullseye!
    else return r

def intSqrtf (fuel : Nat) (x : Int) : Option Int := do
  -- sqrt(INT32_MAX) ~= 46340.95
  let rmax := if x < int32Max then 46341 else int32Max
  if x ≤ 0 then return 0
  else if (← int64 (rmax * rmax)) ≤ x then return rmax
  else sqrtLoop x fuel 0 rmax

/-- The root is not below `lo`, and below `hi`. -/
structure Between (x lo hi : Nat) : Prop where
  low : lo * lo ≤ x
  high : x < hi * hi
  fits : hi < 2 ^ 31

section

variable {x lo hi : Nat}

theorem Between.lt (h : Between x lo hi) : lo < hi :=
  Nat.mul_self_lt_mul_self_iff.mp (Nat.lt_of_le_of_lt h.low h.high)

theorem middle_eq (h : Between x lo hi) :
    int ((lo : Int) + (hi - lo : Int).tdiv 2) = some ((lo + (hi - lo) / 2 : Nat) : Int) := by
  have hlt := h.lt
  have hfits := h.fits
  have hdist : ((hi : Int) - lo).tdiv 2 = ((hi - lo) / 2 : Nat) := by
    rw [Int.tdiv_eq_ediv_of_nonneg (by omega)]
    omega
  rw [hdist, ← Int.natCast_add]
  exact int_natCast (by omega)

theorem square_eq {r : Nat} (hr : r < 2 ^ 31) : int64 ((r : Int) * r) = some ((r * r : Nat) : Int) := by
  have hsquare : r * r < 2 ^ 31 * 2 ^ 31 := Nat.mul_self_lt_mul_self hr
  rw [← Int.natCast_mul]
  exact int64_of_nonneg (Int.natCast_nonneg _) (by omega)

theorem sqrtLoop_succ (h : Between x lo hi) (fuel : Nat) :
    sqrtLoop x (fuel + 1) lo hi =
      if x < (lo + (hi - lo) / 2) * (lo + (hi - lo) / 2) then sqrtLoop x fuel lo (lo + (hi - lo) / 2 : Nat)
      else if (lo + (hi - lo) / 2) * (lo + (hi - lo) / 2) < x then
        if lo = lo + (hi - lo) / 2 then some (lo : Int) else sqrtLoop x fuel (lo + (hi - lo) / 2 : Nat) hi
      else some ((lo + (hi - lo) / 2 : Nat) : Int) := by
  have hlt := h.lt
  have hfits := h.fits
  have hdist : int ((hi : Int) - lo) = some ((hi : Int) - lo) := int_of_nonneg (by omega) (by omega)
  rw [sqrtLoop, hdist, Option.bind_eq_bind, Option.bind_some, middle_eq h, Option.bind_some, square_eq (by omega),
    Option.bind_some]
  simp only [Int.ofNat_lt, Int.natCast_inj]
  split
  · rfl
  · split
    · split
      · next heq =>
        rw [← heq]
        rfl
      · rfl
    · rfl

theorem sqrt_eq {r : Nat} (hlow : r * r ≤ x) (hhigh : x < (r + 1) * (r + 1)) : some (r : Int) = some (Nat.sqrt x : Int) :=
  congrArg (fun r : Nat => some (r : Int)) (Nat.eq_sqrt.mpr ⟨hlow, hhigh⟩)

theorem square_succ_lt {r : Nat} (h : r * r = x) : x < (r + 1) * (r + 1) :=
  h ▸ Nat.mul_self_lt_mul_self (Nat.lt_succ_self r)

/-- A turn per bit of the distance, and one more. -/
theorem Between.sqrtLoop {k : Nat} (h : Between x lo hi) (hk : hi - lo ≤ 2 ^ k) (fuel : Nat) :
    sqrtLoop x (fuel + k + 1) lo hi = some (Nat.sqrt x : Int) := by
  induction k generalizing lo hi with
  | zero =>
    have hlt := h.lt
    obtain rfl : hi = lo + 1 := by omega
    have hmiddle : lo + (lo + 1 - lo) / 2 = lo := by omega
    rw [sqrtLoop_succ h, hmiddle, if_neg (Nat.not_lt_of_le h.low), if_pos rfl, ite_self]
    exact sqrt_eq h.low h.high
  | succ k ih =>
    have hlt := h.lt
    have hfits := h.fits
    rw [Nat.pow_succ] at hk
    rw [sqrtLoop_succ h]
    generalize hr : lo + (hi - lo) / 2 = r
    split
    · next hhigh => exact ih ⟨h.low, hhigh, by omega⟩ (by omega)
    · next hle =>
      have hlow : r * r ≤ x := Nat.le_of_not_lt hle
      split
      · next hlt =>
        split
        · next heq =>
          -- the distance is 1
          obtain rfl : hi = lo + 1 := by omega
          exact sqrt_eq h.low h.high
        · exact ih ⟨hlow, h.high, hfits⟩ (by omega)
      · next hge =>
        have hroot : r * r = x := Nat.le_antisymm hlow (Nat.le_of_not_lt hge)
        exact sqrt_eq hlow (square_succ_lt hroot)

theorem search_eq {m : Nat} (hm : m < 2 ^ 31) (x fuel : Nat) :
    (do if (← int64 ((m : Int) * m)) ≤ x then return (m : Int) else Util.sqrtLoop x (fuel + 32) 0 m) =
      some (if x < m * m then (Nat.sqrt x : Int) else m) := by
  rw [square_eq hm, Option.bind_eq_bind, Option.bind_some]
  by_cases hle : m * m ≤ x
  · rw [if_pos (Int.ofNat_le.mpr hle), if_neg (Nat.not_lt_of_le hle)]
    rfl
  · rw [if_neg (mt Int.ofNat_le.mp hle), if_pos (Nat.lt_of_not_le hle)]
    have hstart : Between x 0 m := ⟨Nat.zero_le x, Nat.lt_of_not_le hle, hm⟩
    exact hstart.sqrtLoop (k := 31) (by omega) fuel

end

/-- The floor of the root below INT32_MAX squared, INT32_MAX from there on, and 0 for what has no root. -/
theorem int_sqrtf_floor (x : Int) (fuel : Nat) :
    intSqrtf (fuel + 32) x =
      some (if x < 0 then 0 else if x < int32Max * int32Max then (Nat.sqrt x.toNat : Int) else int32Max) := by
  have hmax : int32Max = (2147483647 : Nat) := rfl
  rw [intSqrtf, hmax]
  by_cases hneg : x ≤ 0
  · rw [if_pos hneg]
    obtain hlt | rfl : x < 0 ∨ x = 0 := by omega
    · rw [if_pos hlt]
      rfl
    · decide
  · obtain ⟨n, rfl⟩ := Int.eq_ofNat_of_zero_le (show 0 ≤ x by omega)
    have hnonneg : ¬(n : Int) < 0 := by omega
    rw [if_neg hneg, if_neg hnonneg, Int.toNat_natCast]
    by_cases hshort : (n : Int) < (2147483647 : Nat)
    · have hbound : n < 46341 * 46341 := by omega
      have hsearch := search_eq (m := 46341) (by decide) n fuel
      rw [if_pos hbound] at hsearch
      have hbelow : (n : Int) < (2147483647 : Nat) * (2147483647 : Nat) := by omega
      rw [if_pos hshort, if_pos hbelow]
      exact hsearch
    · have hsearch := search_eq (m := 2147483647) (by decide) n fuel
      rw [if_neg hshort]
      refine hsearch.trans (congrArg some (ite_congr (propext ?_) (fun _ => rfl) fun _ => rfl))
      omega

example : intSqrtf 32 2147483646 = some 46340 := by decide

end ChromeEc.Util
