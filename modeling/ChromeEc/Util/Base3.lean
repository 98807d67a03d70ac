import Mathlib.Algebra.BigOperators.Fin
import Mathlib.Data.Fin.Tuple.Basic
import Mathlib.Data.Set.Function
import ChromeEc.Lib.CInt

/- The coding of strapping pins of `common/util.c`: pins that are strapped low, high or left
  floating (`Z`) are the digits 0, 1 and 2 of a number in base 3, counted so that the strings
  without a `Z` come first.

  The loop goes from the most significant digit to the least one, so the digits still to come
  are a string of their own. Behind a `Z` the code of the whole is the number in base 3 less
  what was counted before; without one it is the binary number. The strings with a `Z` fall into
  three ranges by their first digit (`ternary_zero`, `ternary_one`, `ternary_two`), in order, and
  of these the first two are as many as there are such strings one digit shorter.

  Correspondence (C ↔ Lean):
    `binary_first_base3_from_bits` ↔ `binaryFirstBase3FromBits`
    the loop's body ↔ `addDigit` -/
namespace ChromeEc.Util
open ChromeEc.Lib

/-- The local variables of `binary_first_base3_from_bits`. -/
structure Base3 where
  binaryBelow : Int := 0
  hasZ : Bool := false
  base3 : Int := 0
  deriving DecidableEq

def oneShl (i : Nat) : Option Int := int (2 ^ i)

/-- The body of the loop for the digit of weight 3^i. -/
def addDigit (bits : Nat → Int) (i : Nat) (a : Base3) : Option Base3 := do
  let tripled ← int (a.base3 * 3)
  let base3 ← int (tripled + bits i)
  let a := { a with base3 := base3 }
  if a.hasZ then return a
  else if bits i = 1 then
    let binaryBelow ← int (a.binaryBelow + (← oneShl i))
    return { a with binaryBelow := binaryBelow }
  else if bits i = 2 then
    let binaryBelow ← int (a.binaryBelow + (← oneShl (i + 1)))
    return { a with binaryBelow := binaryBelow, hasZ := true }
  else return a

/-- Every digit below that of weight 3^i, from MSB to LSB. -/
def addDigits (bits : Nat → Int) : Nat → Base3 → Option Base3
  | 0, a => some a
  | i + 1, a => do addDigits bits i (← addDigit bits i a)

def binaryFirstBase3FromBits (bits : Nat → Int) (nbits : Nat) : Option Int := do
  let a ← addDigits bits nbits {}
  if a.hasZ then
    let sum ← int (a.base3 + (← oneShl nbits))
    int (sum - a.binaryBelow)
  else
    -- binary_below is normal binary system value if !has_z
    return a.binaryBelow

section

variable {n : Nat} {d e : Nat → Nat} {bits : Nat → Int} {a : Base3}

/-! ## What the loop counts -/

/-- A string of digits, the one of weight b^i at i, as a number in base b. -/
def valueIn (b : Nat) (d : Nat → Nat) (n : Nat) : Nat := ∑ i ∈ Finset.range n, d i * b ^ i

/-- What the loop adds to `binary_below` for the n lower digits. -/
def below (d : Nat → Nat) : Nat → Nat
  | 0 => 0
  | i + 1 => if d i = 1 then 2 ^ i + below d i else if d i = 2 then 2 ^ (i + 1) else below d i

/-- There is a Z among the n lower digits. -/
def HasZ (d : Nat → Nat) (n : Nat) : Prop := ∃ i < n, d i = 2

/-- The number of strings with a Z that come before this one in base 3. -/
def ternary (d : Nat → Nat) : Nat → Nat
  | 0 => 0
  | i + 1 =>
    if d i = 1 then ternary d i + (3 ^ i - 2 ^ i)
    else if d i = 2 then valueIn 3 d i + 2 * (3 ^ i - 2 ^ i)
    else ternary d i

theorem valueIn_succ (b : Nat) (d : Nat → Nat) (n : Nat) : valueIn b d (n + 1) = valueIn b d n + d n * b ^ n :=
  Finset.sum_range_succ _ n

theorem two_pow_le_three_pow (n : Nat) : 2 ^ n ≤ 3 ^ n := Nat.pow_le_pow_left (by decide) n

theorem hasZ_succ : HasZ d (n + 1) ↔ d n = 2 ∨ HasZ d n := by
  constructor
  · rintro ⟨i, hi, hz⟩
    obtain hlt | rfl : i < n ∨ i = n := by omega
    · exact .inr ⟨i, hlt, hz⟩
    · exact .inl hz
  · rintro (hz | ⟨i, hi, hz⟩)
    · exact ⟨n, Nat.lt_succ_self n, hz⟩
    · exact ⟨i, by omega, hz⟩

theorem valueIn_lt {b : Nat} (hd : ∀ i < n, d i < b) : valueIn b d n < b ^ n := by
  induction n with
  | zero => exact Nat.one_pos
  | succ n ih =>
    have hlow := ih fun i hi => hd i (by omega)
    have htop : d n + 1 ≤ b := hd n (Nat.lt_succ_self n)
    calc valueIn b d (n + 1) = valueIn b d n + d n * b ^ n := valueIn_succ b d n
      _ < b ^ n + d n * b ^ n := Nat.add_lt_add_right hlow _
      _ = (d n + 1) * b ^ n := by rw [Nat.add_mul, Nat.one_mul, Nat.add_comm]
      _ ≤ b * b ^ n := Nat.mul_le_mul_right _ htop
      _ = b ^ (n + 1) := (Nat.pow_succ').symm

/-- Every string is counted once: with the binary strings below it, or with those that have a Z. -/
theorem ternary_add_below (d : Nat → Nat) (hd : ∀ i < n, d i < 3) : ternary d n + below d n = valueIn 3 d n := by
  induction n with
  | zero => rfl
  | succ n ih =>
    have hrest := ih fun i hi => hd i (by omega)
    have hpow := two_pow_le_three_pow n
    have htop := hd n (Nat.lt_succ_self n)
    rw [valueIn_succ, ternary, below]
    obtain h | h | h : d n = 0 ∨ d n = 1 ∨ d n = 2 := by omega
    · simp only [h, if_neg (show ¬0 = 1 by decide), if_neg (show ¬0 = 2 by decide)]
      omega
    · simp only [h, if_true]
      omega
    · simp only [h, if_neg (show ¬2 = 1 by decide), if_true, Nat.pow_succ]
      omega

theorem below_of_binary (hd : ∀ i < n, d i < 2) : below d n = valueIn 2 d n := by
  induction n with
  | zero => rfl
  | succ n ih =>
    have hrest := ih fun i hi => hd i (by omega)
    have htop := hd n (Nat.lt_succ_self n)
    rw [valueIn_succ, below, hrest]
    obtain h | h : d n = 0 ∨ d n = 1 := by omega
    · simp [h]
    · simp only [h, if_true, Nat.one_mul]
      omega

/-! ## The loop -/

def Reads (bits : Nat → Int) (d : Nat → Nat) (n : Nat) : Prop := ∀ i < n, bits i = d i ∧ d i < 3

/-- The variables before the n lower digits are added, when nothing overflows. -/
structure Room (a : Base3) (n : Nat) : Prop where
  base3_nonneg : 0 ≤ a.base3
  base3_room : (a.base3 + 1) * 3 ^ n < 2 ^ 31
  below_nonneg : 0 ≤ a.binaryBelow
  below_room : a.hasZ = false → a.binaryBelow + 2 ^ n < 2 ^ 31

def Base3.withDigit (a : Base3) (x i : Nat) : Base3 where
  binaryBelow :=
    if a.hasZ then a.binaryBelow
    else if x = 1 then a.binaryBelow + 2 ^ i
    else if x = 2 then a.binaryBelow + 2 ^ (i + 1)
    else a.binaryBelow
  hasZ := a.hasZ || decide (x = 2)
  base3 := a.base3 * 3 + x

theorem addDigit_eq {x i : Nat} (hroom : Room a (i + 1)) (hx : x < 3) (hbit : bits i = x) :
    addDigit bits i a = some (a.withDigit x i) := by
  obtain ⟨h0, h1, h2, h3⟩ := hroom
  have hpow : (1 : Int) ≤ 3 ^ i := Int.pow_pos (by decide)
  have hbase : a.base3 * 3 + 3 < 2 ^ 31 := calc
    a.base3 * 3 + 3 = (a.base3 + 1) * 3 * 1 := by omega
    _ ≤ (a.base3 + 1) * 3 * 3 ^ i := Int.mul_le_mul_of_nonneg_left hpow (by omega)
    _ = (a.base3 + 1) * 3 ^ (i + 1) := by rw [Int.pow_succ', Int.mul_assoc]
    _ < 2 ^ 31 := h1
  have hlow : (0 : Int) ≤ 2 ^ i := Int.pow_nonneg (by decide)
  have htripled : int (a.base3 * 3) = some (a.base3 * 3) := int_of_nonneg (by omega) (by omega)
  have hadded : int (a.base3 * 3 + x) = some (a.base3 * 3 + x) := int_of_nonneg (by omega) (by omega)
  unfold addDigit
  rw [hbit, htripled, Option.bind_eq_bind, Option.bind_some, hadded, Option.bind_some]
  cases hz : a.hasZ with
  | true => simp [Base3.withDigit, hz]
  | false =>
    have hbelow := h3 hz
    have hone : oneShl i = some (2 ^ i) := int_of_nonneg hlow (by omega)
    have htwo : oneShl (i + 1) = some (2 ^ (i + 1)) := int_of_nonneg (by omega) (by omega)
    rw [hone, htwo]
    obtain rfl | rfl | rfl : x = 0 ∨ x = 1 ∨ x = 2 := by omega
    · simp [Base3.withDigit, hz]
    · simp [Base3.withDigit, hz, int_of_nonneg (show 0 ≤ a.binaryBelow + 2 ^ i by omega) (by omega)]
    · simp [Base3.withDigit, hz, int_of_nonneg (show 0 ≤ a.binaryBelow + 2 ^ (i + 1) by omega) (by omega)]

theorem Room.withDigit {x i : Nat} (hroom : Room a (i + 1)) (hx : x < 3) : Room (a.withDigit x i) i := by
  obtain ⟨h0, h1, h2, h3⟩ := hroom
  have hlow : (0 : Int) ≤ 2 ^ i := Int.pow_nonneg (by decide)
  have hthree : (0 : Int) ≤ 3 ^ i := Int.pow_nonneg (by decide)
  refine ⟨?_, ?_, ?_, ?_⟩
  · show 0 ≤ a.base3 * 3 + x
    omega
  · calc (a.base3 * 3 + x + 1) * 3 ^ i ≤ (a.base3 + 1) * 3 * 3 ^ i :=
          Int.mul_le_mul_of_nonneg_right (by omega) hthree
      _ = (a.base3 + 1) * 3 ^ (i + 1) := by rw [Int.pow_succ', Int.mul_assoc]
      _ < 2 ^ 31 := h1
  · simp only [Base3.withDigit]
    split_ifs <;> omega
  · intro hz
    obtain ⟨hz, hne⟩ : a.hasZ = false ∧ x ≠ 2 := by simpa [Base3.withDigit] using hz
    have hbelow := h3 hz
    simp only [Base3.withDigit, hz, if_neg hne]
    split_ifs <;> omega

instance (d : Nat → Nat) (n : Nat) : Decidable (HasZ d n) := inferInstanceAs (Decidable (∃ i < n, d i = 2))

/-- The variables after the n lower digits. -/
def Base3.counted (a : Base3) (d : Nat → Nat) (n : Nat) : Base3 where
  binaryBelow := if a.hasZ then a.binaryBelow else a.binaryBelow + below d n
  hasZ := a.hasZ || decide (HasZ d n)
  base3 := a.base3 * 3 ^ n + valueIn 3 d n

theorem counted_zero (a : Base3) (d : Nat → Nat) : a.counted d 0 = a := by
  cases a
  simp [Base3.counted, below, HasZ, valueIn]

theorem counted_succ (a : Base3) (hd : d n < 3) : a.counted d (n + 1) = (a.withDigit (d n) n).counted d n := by
  have hbase : a.base3 * 3 ^ (n + 1) + valueIn 3 d (n + 1) = (a.base3 * 3 + d n) * 3 ^ n + valueIn 3 d n := by
    rw [valueIn_succ, Int.pow_succ', Int.add_mul]
    push_cast
    rw [Int.mul_assoc]
    omega
  have hz : decide (HasZ d (n + 1)) = (decide (d n = 2) || decide (HasZ d n)) := by
    rw [← Bool.decide_or]
    exact decide_eq_decide.mpr hasZ_succ
  obtain ⟨low, flag, high⟩ := a
  simp only [Base3.counted, Base3.withDigit] at hbase ⊢
  rw [hbase, hz, Bool.or_assoc]
  congr 1
  cases flag with
  | true => rfl
  | false =>
    rw [below]
    obtain h | h | h : d n = 0 ∨ d n = 1 ∨ d n = 2 := by omega
    · simp [h]
    · simp [h, Int.add_assoc]
    · simp [h]

theorem addDigits_eq (hreads : Reads bits d n) (hroom : Room a n) : addDigits bits n a = some (a.counted d n) := by
  induction n generalizing a with
  | zero => rw [counted_zero, addDigits]
  | succ n ih =>
    obtain ⟨hbit, hlt⟩ := hreads n (Nat.lt_succ_self n)
    have hrest : Reads bits d n := fun i hi => hreads i (by omega)
    rw [addDigits, addDigit_eq hroom hlt hbit, counted_succ a hlt]
    exact ih hrest (hroom.withDigit hlt)

def codeOf (d : Nat → Nat) (n : Nat) : Nat := if HasZ d n then 2 ^ n + ternary d n else valueIn 2 d n

theorem le_of_three_pow_lt (h : 3 ^ n < 2 ^ 31) : n ≤ 19 := by
  refine Nat.le_of_not_lt fun hn => ?_
  have hle : 3 ^ 20 ≤ 3 ^ n := Nat.pow_le_pow_right (by decide) hn
  omega

theorem binaryFirstBase3FromBits_eq (hfits : 3 ^ n < 2 ^ 31) (hreads : Reads bits d n) :
    binaryFirstBase3FromBits bits n = some (codeOf d n : Int) := by
  have hd : ∀ i < n, d i < 3 := fun i hi => (hreads i hi).2
  have hn := le_of_three_pow_lt hfits
  have hthree : 3 ^ n ≤ 3 ^ 19 := Nat.pow_le_pow_right (by decide) hn
  have htwo : 2 ^ n ≤ 2 ^ 19 := Nat.pow_le_pow_right (by decide) hn
  have hpos : 0 < 2 ^ n := Nat.two_pow_pos n
  have hvalue := valueIn_lt hd
  have hsplit := ternary_add_below d hd
  have hcast2 : ((2 ^ n : Nat) : Int) = 2 ^ n := by push_cast; rfl
  have hcast3 : ((3 ^ n : Nat) : Int) = 3 ^ n := by push_cast; rfl
  have hroom : Room {} n := by
    refine ⟨Int.le_refl 0, ?_, Int.le_refl 0, fun _ => ?_⟩
    · show (0 + 1) * (3 : Int) ^ n < 2 ^ 31
      omega
    · show 0 + (2 : Int) ^ n < 2 ^ 31
      omega
  unfold binaryFirstBase3FromBits
  rw [addDigits_eq hreads hroom, Option.bind_eq_bind, Option.bind_some]
  have hone : oneShl n = some (2 ^ n) := int_of_nonneg (by omega) (by omega)
  by_cases hz : HasZ d n
  · have hflag : (Base3.counted {} d n).hasZ = true := by simp [Base3.counted, hz]
    have hbase : (Base3.counted {} d n).base3 = valueIn 3 d n := by simp [Base3.counted]
    have hlow : (Base3.counted {} d n).binaryBelow = below d n := by simp [Base3.counted]
    have hsum : int ((valueIn 3 d n : Int) + 2 ^ n) = some ((valueIn 3 d n : Int) + 2 ^ n) :=
      int_of_nonneg (by omega) (by omega)
    have hcode : (valueIn 3 d n : Int) + 2 ^ n - below d n = codeOf d n := by
      rw [codeOf, if_pos hz]
      push_cast
      omega
    rw [if_pos hflag, hone, Option.bind_eq_bind, Option.bind_some, hbase, hsum, Option.bind_some, hlow, hcode]
    exact int_natCast (by omega)
  · have hflag : (Base3.counted {} d n).hasZ = false := by simp [Base3.counted, hz]
    have hbinary : ∀ i < n, d i < 2 := by
      intro i hi
      have hne : d i ≠ 2 := fun h => hz ⟨i, hi, h⟩
      have hlt := hd i hi
      omega
    have hlow : (Base3.counted {} d n).binaryBelow = codeOf d n := by
      simp [Base3.counted, codeOf, hz, below_of_binary hbinary]
    rw [if_neg (by simp [hflag]), hlow]
    rfl

/-! ## The order of the codes -/

theorem ternary_lt (hd : ∀ i < n, d i < 3) (hz : HasZ d n) : ternary d n < 3 ^ n - 2 ^ n := by
  induction n with
  | zero => obtain ⟨i, hi, -⟩ := hz; exact absurd hi (Nat.not_lt_zero i)
  | succ n ih =>
    have hrest : ∀ i < n, d i < 3 := fun i hi => hd i (by omega)
    have hpow := two_pow_le_three_pow n
    have hvalue := valueIn_lt hrest
    have htop := hd n (Nat.lt_succ_self n)
    rw [ternary, Nat.pow_succ, Nat.pow_succ]
    obtain h | h : d n = 2 ∨ d n < 2 := by omega
    · simp only [h, if_neg (show ¬2 = 1 by decide), if_true]
      omega
    · have hlow := ih hrest ((hasZ_succ.mp hz).resolve_left (by omega))
      split_ifs <;> omega

/-- Among the strings with a Z the order of base 3 is kept. -/
theorem ternary_strictMono (hd : ∀ i < n, d i < 3) (he : ∀ i < n, e i < 3) (hdz : HasZ d n) (hez : HasZ e n)
    (hlt : valueIn 3 d n < valueIn 3 e n) : ternary d n < ternary e n := by
  induction n with
  | zero => obtain ⟨i, hi, -⟩ := hdz; exact absurd hi (Nat.not_lt_zero i)
  | succ n ih =>
    have hdrest : ∀ i < n, d i < 3 := fun i hi => hd i (by omega)
    have herest : ∀ i < n, e i < 3 := fun i hi => he i (by omega)
    have helow := valueIn_lt herest
    have hdtop := hd n (Nat.lt_succ_self n)
    have hetop := he n (Nat.lt_succ_self n)
    rw [valueIn_succ, valueIn_succ] at hlt
    have hdbound : d n ≠ 2 → ternary d n < 3 ^ n - 2 ^ n := fun hne =>
      ternary_lt hdrest ((hasZ_succ.mp hdz).resolve_left hne)
    have hfirst : d n ≤ e n := by
      refine Nat.le_of_not_lt fun hgt => ?_
      have hle : (e n + 1) * 3 ^ n ≤ d n * 3 ^ n := Nat.mul_le_mul_right _ hgt
      rw [Nat.add_mul, Nat.one_mul] at hle
      omega
    obtain heq | hlow : d n = e n ∨ d n < e n := by omega
    · -- the same first digit: the rest decides
      have hrest : valueIn 3 d n < valueIn 3 e n := by
        rw [heq] at hlt
        omega
      rw [ternary, ternary, heq]
      split_ifs with h1 h2
      · have hmono := ih hdrest herest ((hasZ_succ.mp hdz).resolve_left (by omega))
          ((hasZ_succ.mp hez).resolve_left (by omega)) hrest
        omega
      · omega
      · exact ih hdrest herest ((hasZ_succ.mp hdz).resolve_left (by omega))
          ((hasZ_succ.mp hez).resolve_left (by omega)) hrest
    · -- the first digits put the strings into different ranges
      have hbound := hdbound (by omega)
      rw [ternary, ternary]
      split_ifs <;> omega

theorem valueIn_inj {b : Nat} (hd : ∀ i < n, d i < b) (he : ∀ i < n, e i < b) (heq : valueIn b d n = valueIn b e n) :
    ∀ i < n, d i = e i := by
  induction n with
  | zero => exact fun i hi => absurd hi (Nat.not_lt_zero i)
  | succ n ih =>
    have hdrest : ∀ i < n, d i < b := fun i hi => hd i (by omega)
    have herest : ∀ i < n, e i < b := fun i hi => he i (by omega)
    have hdlow := valueIn_lt hdrest
    have helow := valueIn_lt herest
    rw [valueIn_succ, valueIn_succ] at heq
    have htop : d n = e n := by
      have hpos : 0 < b ^ n := by omega
      calc d n = (valueIn b d n + d n * b ^ n) / b ^ n := by
            rw [Nat.add_mul_div_right _ _ hpos, Nat.div_eq_of_lt hdlow, Nat.zero_add]
        _ = (valueIn b e n + e n * b ^ n) / b ^ n := by rw [heq]
        _ = e n := by rw [Nat.add_mul_div_right _ _ hpos, Nat.div_eq_of_lt helow, Nat.zero_add]
    have hrest : valueIn b d n = valueIn b e n := by
      rw [htop] at heq
      omega
    intro i hi
    obtain hlt | rfl : i < n ∨ i = n := by omega
    · exact ih hdrest herest hrest i hlt
    · exact htop

theorem codeOf_lt (hd : ∀ i < n, d i < 3) : codeOf d n < 3 ^ n := by
  have hpow := two_pow_le_three_pow n
  unfold codeOf
  split
  · next hz =>
    have hlt := ternary_lt hd hz
    omega
  · next hz =>
    have hlt : valueIn 2 d n < 2 ^ n := valueIn_lt fun i hi => by
      have hne : d i ≠ 2 := fun h => hz ⟨i, hi, h⟩
      have hlt := hd i hi
      omega
    omega

/-- The binary strings are those with a code below 2^n. -/
theorem codeOf_lt_two_pow_iff (hd : ∀ i < n, d i < 3) : codeOf d n < 2 ^ n ↔ ¬HasZ d n := by
  unfold codeOf
  split
  · next hz => simp [hz]
  · next hz =>
    refine iff_of_true (valueIn_lt fun i hi => ?_) hz
    have hne : d i ≠ 2 := fun h => hz ⟨i, hi, h⟩
    have hlt := hd i hi
    omega

end

/-! ## Strings of pins -/

section

variable {n : Nat} {s t : Fin n → Fin 3}

def digits (s : Fin n → Fin 3) (i : Nat) : Nat := if h : i < n then s ⟨i, h⟩ else 0

local instance neZero_three : NeZero 3 := Nat.instNeZeroSucc

def Floating (s : Fin n → Fin 3) : Prop := ∃ i, s i = 2

/-- The pins as a number in base b. -/
def valueOf (b : Nat) (s : Fin n → Fin 3) : Nat := ∑ i, s i * b ^ (i : Nat)

theorem digits_val (s : Fin n → Fin 3) (i : Fin n) : digits s i = s i := dif_pos i.isLt

theorem digits_lt (s : Fin n → Fin 3) : ∀ i < n, digits s i < 3 := by
  intro i hi
  rw [digits, dif_pos hi]
  exact (s ⟨i, hi⟩).isLt

theorem valueIn_digits (b : Nat) (s : Fin n → Fin 3) : valueIn b (digits s) n = valueOf b s := by
  rw [valueIn, Finset.sum_range]
  exact Finset.sum_congr rfl fun i _ => by rw [digits_val]

theorem hasZ_digits : HasZ (digits s) n ↔ Floating s := by
  constructor
  · rintro ⟨i, hi, hz⟩
    rw [digits, dif_pos hi] at hz
    exact ⟨⟨i, hi⟩, Fin.ext hz⟩
  · rintro ⟨i, hz⟩
    exact ⟨i, i.isLt, by rw [digits_val, hz]; rfl⟩

theorem digits_injective (h : ∀ i < n, digits s i = digits t i) : s = t := by
  funext i
  apply Fin.ext
  rw [← digits_val s i, ← digits_val t i]
  exact h i i.isLt

theorem binary_digits (h : ¬Floating s) : ∀ i < n, digits s i < 2 := by
  intro i hi
  have hne : digits s i ≠ 2 := fun hz => h (hasZ_digits.mp ⟨i, hi, hz⟩)
  have hlt := digits_lt s i hi
  omega

theorem eq_of_base3 (h : valueOf 3 s = valueOf 3 t) : s = t := by
  rw [← valueIn_digits, ← valueIn_digits] at h
  exact digits_injective (valueIn_inj (digits_lt s) (digits_lt t) h)

theorem codeOf_floating (h : Floating s) : codeOf (digits s) n = 2 ^ n + ternary (digits s) n := if_pos (hasZ_digits.mpr h)

theorem codeOf_binary (h : ¬Floating s) : codeOf (digits s) n = valueOf 2 s := by
  rw [codeOf, if_neg (fun hz => h (hasZ_digits.mp hz)), valueIn_digits]

/-- Strings with a Z keep their order. -/
theorem codeOf_lt_iff (hs : Floating s) (ht : Floating t) :
    codeOf (digits s) n < codeOf (digits t) n ↔ valueOf 3 s < valueOf 3 t := by
  have hmono : ∀ {s t : Fin n → Fin 3}, Floating s → Floating t → valueOf 3 s < valueOf 3 t →
      codeOf (digits s) n < codeOf (digits t) n := by
    intro s t hs ht hlt
    rw [← valueIn_digits, ← valueIn_digits] at hlt
    rw [codeOf_floating hs, codeOf_floating ht, Nat.add_lt_add_iff_left]
    exact ternary_strictMono (digits_lt s) (digits_lt t) (hasZ_digits.mpr hs) (hasZ_digits.mpr ht) hlt
  refine ⟨fun hlt => Nat.lt_of_not_le fun hle => ?_, hmono hs ht⟩
  obtain heq | hgt := Nat.eq_or_lt_of_le hle
  · rw [eq_of_base3 heq] at hlt
    exact Nat.lt_irrefl _ hlt
  · exact Nat.lt_asymm hlt (hmono ht hs hgt)

theorem codeOf_injective : Function.Injective fun s : Fin n → Fin 3 => codeOf (digits s) n := by
  intro s t heq
  simp only at heq
  have hkind : Floating s ↔ Floating t := by
    rw [← hasZ_digits, ← hasZ_digits, ← not_iff_not, ← codeOf_lt_two_pow_iff (digits_lt s),
      ← codeOf_lt_two_pow_iff (digits_lt t), heq]
  by_cases hs : Floating s
  · have ht := hkind.mp hs
    obtain hlt | hvalue | hgt := Nat.lt_trichotomy (valueOf 3 s) (valueOf 3 t)
    · have hcode := (codeOf_lt_iff hs ht).mpr hlt
      omega
    · exact eq_of_base3 hvalue
    · have hcode := (codeOf_lt_iff ht hs).mpr hgt
      omega
  · have ht := fun h => hs (hkind.mpr h)
    rw [codeOf_binary hs, codeOf_binary ht, ← valueIn_digits, ← valueIn_digits] at heq
    exact digits_injective (valueIn_inj (binary_digits hs) (binary_digits ht) heq)

theorem codeOf_surjective {v : Nat} (hv : v < 3 ^ n) : ∃ s : Fin n → Fin 3, codeOf (digits s) n = v := by
  let f : (Fin n → Fin 3) → Fin (3 ^ n) := fun s => ⟨codeOf (digits s) n, codeOf_lt (digits_lt s)⟩
  have hinj : Function.Injective f := fun s t h => codeOf_injective (Fin.mk.inj h)
  have hcard : Fintype.card (Fin n → Fin 3) = Fintype.card (Fin (3 ^ n)) := by simp
  obtain ⟨s, hs⟩ := ((Fintype.bijective_iff_injective_and_card f).mpr ⟨hinj, hcard⟩).2 ⟨v, hv⟩
  exact ⟨s, congrArg Fin.val hs⟩

/-- The coding of n pins, for every n whose strings an int can count. -/
theorem binary_first_bijection (n : Nat) (hfits : 3 ^ n < 2 ^ 31) :
    ∃ code : (Fin n → Fin 3) → Nat,
      (∀ s bits, (∀ i : Fin n, bits i = (s i : Int)) → binaryFirstBase3FromBits bits n = some (code s : Int)) ∧
      Set.BijOn code Set.univ (Set.Iio (3 ^ n)) ∧
      (∀ s, ¬Floating s → code s = valueOf 2 s) ∧
      Set.BijOn code {s | ¬Floating s} (Set.Iio (2 ^ n)) ∧
      ∀ s t, Floating s → Floating t → 2 ^ n ≤ code s ∧ (code s < code t ↔ valueOf 3 s < valueOf 3 t) := by
  refine ⟨fun s => codeOf (digits s) n, ?_, ?_, fun s => codeOf_binary, ?_, fun s t hs ht => ⟨?_, codeOf_lt_iff hs ht⟩⟩
  · intro s bits hbits
    refine binaryFirstBase3FromBits_eq hfits fun i hi => ⟨?_, digits_lt s i hi⟩
    rw [digits, dif_pos hi]
    exact hbits ⟨i, hi⟩
  · exact ⟨fun s _ => codeOf_lt (digits_lt s), codeOf_injective.injOn,
      fun v hv => (codeOf_surjective hv).imp fun s hs => ⟨trivial, hs⟩⟩
  · refine ⟨?_, codeOf_injective.injOn, ?_⟩
    · intro s hs
      exact (codeOf_lt_two_pow_iff (digits_lt s)).mpr fun hz => hs (hasZ_digits.mp hz)
    · intro v hv
      obtain ⟨s, rfl⟩ := codeOf_surjective (Nat.lt_of_lt_of_le hv (two_pow_le_three_pow n))
      exact ⟨s, fun hf => (codeOf_lt_two_pow_iff (digits_lt s)).mp hv (hasZ_digits.mpr hf), rfl⟩
  · show 2 ^ n ≤ codeOf (digits s) n
    rw [codeOf_floating hs]
    exact Nat.le_add_right _ _

/-- Three pins. -/
theorem binary_first_bijection_three :
    3 ^ 3 < 2 ^ 31 ∧ ∃ code : (Fin 3 → Fin 3) → Nat,
      (∀ s bits, (∀ i : Fin 3, bits i = (s i : Int)) → binaryFirstBase3FromBits bits 3 = some (code s : Int)) ∧
      Set.BijOn code Set.univ (Set.Iio (3 ^ 3)) :=
  ⟨by decide, (binary_first_bijection 3 (by decide)).imp fun _ h => ⟨h.1, h.2.1⟩⟩

/-- The strings of two pins in the order of their codes. -/
example : [(0, 0), (0, 1), (1, 0), (1, 1), (0, 2), (1, 2), (2, 0), (2, 1), (2, 2)].map (fun p : Int × Int =>
    binaryFirstBase3FromBits (fun i => if i = 0 then p.2 else p.1) 2) = (List.range 9).map fun k => some (k : Int) := by
  decide

end

end ChromeEc.Util
