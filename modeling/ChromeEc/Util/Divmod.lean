import Mathlib.Data.BitVec
import Mathlib.Data.Nat.Bitwise

/- The 64-bit division of `common/util.c`.

  A value that does not fit into 32 bits is divided bit by bit, from the top: the remainder takes
  the next bit, and where it has reached the divisor the divisor is taken off and the bit of the
  quotient set (`Divided.step`). The remainder is an `int`, so the doubled remainder has to stay below
  2^31: for divisors up to 2^30 it does, and the quotient and the remainder are right
  (`uint64divmod_eq`). A doubled remainder of 2^31 or more counts as negative, so the divisor is not
  taken off, and the bit of the quotient that is then missing is never set again: the division is
  exact if and only if no remainder on the way is that large (`uint64divmod_exact_iff`).

  Correspondence (C ↔ Lean):
    `uint64divmod` ↔ `uint64divmod`
    the loop over `mask` ↔ `divideBits`, from the bit below `i` on -/
namespace ChromeEc.Util

/-- One turn of the loop, with `mask` at bit `i`. -/
def divideBit (n : BitVec 64) (d : BitVec 32) (i : Nat) (qr : BitVec 64 × BitVec 32) : BitVec 64 × BitVec 32 :=
  let r := qr.2 <<< 1
  let r := if n.getLsbD i then r ||| 1 else r
  if d.sle r then (qr.1 ||| 1#64 <<< i, r - d) else (qr.1, r)

def divideBits (n : BitVec 64) (d : BitVec 32) : Nat → BitVec 64 × BitVec 32 → BitVec 64 × BitVec 32
  | 0, qr => qr
  | i + 1, qr => divideBits n d i (divideBit n d i qr)

/-- `uint64divmod`: the value left in `*n`, and the remainder. -/
def uint64divmod (n : BitVec 64) (d : BitVec 32) : BitVec 64 × BitVec 32 :=
  -- Divide-by-zero returns zero
  if d = 0 then (0, 0)
  -- Common powers of 2 = simple shifts
  else if d = 2 then (n >>> 1, (n &&& 1).setWidth 32)
  else if d = 16 then (n >>> 4, (n &&& 0xf).setWidth 32)
  -- If v fits in 32-bit, we're done.
  else if n ≤ 0xffffffff then
    let v32 := n.setWidth 32
    ((v32 / d).setWidth 64, v32 % d)
  -- Otherwise do integer division the slow way.
  else divideBits n d 64 (0, 0)

section

variable {n : BitVec 64} {d : BitVec 32} {i : Nat} {qr : BitVec 64 × BitVec 32}

/-- The bits from `i` on have been divided. -/
structure Divided (n : BitVec 64) (d : BitVec 32) (i : Nat) (qr : BitVec 64 × BitVec 32) : Prop where
  quotient : ∃ q, qr.1.toNat = q * 2 ^ i ∧ n.toNat / 2 ^ i = q * d.toNat + qr.2.toNat
  remainder : qr.2.toNat < d.toNat

theorem toNat_nextBit {r : BitVec 32} (b : Bool) (hr : r.toNat < 2 ^ 31) :
    (if b then r <<< 1 ||| 1 else r <<< 1).toNat = 2 * r.toNat + b.toNat := by
  have hshift : (r <<< 1).toNat = 2 * r.toNat := by
    rw [BitVec.toNat_shiftLeft, Nat.shiftLeft_eq, Nat.pow_one, Nat.mod_eq_of_lt (by omega), Nat.mul_comm]
  cases b with
  | false => exact hshift
  | true =>
    have hor := Nat.shiftLeft_add_eq_or_of_lt (b := 1) (i := 1) (by decide) r.toNat
    rw [if_pos rfl, BitVec.toNat_or, hshift, Nat.mul_comm]
    rw [Nat.shiftLeft_eq, Nat.pow_one] at hor
    exact hor.symm

theorem toNat_mask (hi : i < 64) : (1#64 <<< i).toNat = 2 ^ i := by
  have hlt : 2 ^ i < 2 ^ 64 := Nat.pow_lt_pow_right (by decide) hi
  rw [BitVec.toNat_shiftLeft, Nat.shiftLeft_eq]
  simpa using Nat.mod_eq_of_lt hlt

theorem toNat_setBit {q : BitVec 64} {m : Nat} (hi : i < 64) (hq : q.toNat = m * 2 ^ (i + 1)) :
    (q ||| 1#64 <<< i).toNat = (2 * m + 1) * 2 ^ i := by
  have hor := Nat.shiftLeft_add_eq_or_of_lt (Nat.pow_lt_pow_succ (a := 2) (n := i) (by decide)) m
  rw [Nat.shiftLeft_eq] at hor
  calc (q ||| 1#64 <<< i).toNat = q.toNat ||| (1#64 <<< i).toNat := BitVec.toNat_or q _
    _ = m * 2 ^ (i + 1) + 2 ^ i := by rw [toNat_mask hi, hq, hor]
    _ = (2 * m + 1) * 2 ^ i := by rw [Nat.add_mul, Nat.one_mul, Nat.pow_succ', ← Nat.mul_assoc, Nat.mul_comm m]

theorem div_bit (n : BitVec 64) (i : Nat) : n.toNat / 2 ^ i = 2 * (n.toNat / 2 ^ (i + 1)) + (n.getLsbD i).toNat := by
  have hbit : (n.getLsbD i).toNat = n.toNat / 2 ^ i % 2 := by
    rw [BitVec.getLsbD, Nat.testBit_eq_decide_div_mod_eq]
    obtain h0 | h1 := Nat.mod_two_eq_zero_or_one (n.toNat / 2 ^ i)
    · rw [h0]
      rfl
    · rw [h1]
      rfl
  rw [hbit, Nat.pow_succ, ← Nat.div_div_eq_div_mul]
  omega

theorem sle_iff {d r : BitVec 32} (hd : d.toNat < 2 ^ 31) (hr : r.toNat < 2 ^ 31) :
    d.sle r = true ↔ d.toNat ≤ r.toNat := by
  rw [BitVec.sle_eq_decide, decide_eq_true_eq, BitVec.toInt_eq_toNat_of_lt (by omega),
    BitVec.toInt_eq_toNat_of_lt (by omega)]
  exact Int.ofNat_le

theorem Divided.step (h : Divided n d (i + 1) qr) (hi : i < 64) (hd : d.toNat < 2 ^ 31) (hroom : qr.2.toNat < 2 ^ 30) :
    Divided n d i (divideBit n d i qr) := by
  obtain ⟨⟨q, hq, hn⟩, hr⟩ := h
  have hnext := toNat_nextBit (n.getLsbD i) (show qr.2.toNat < 2 ^ 31 by omega)
  have hsplit := div_bit n i
  have hbit : (n.getLsbD i).toNat ≤ 1 := Bool.toNat_le _
  unfold divideBit
  simp only
  generalize hr' : (if n.getLsbD i then qr.2 <<< 1 ||| 1 else qr.2 <<< 1) = r at hnext ⊢
  have hsle : d.sle r = true ↔ d.toNat ≤ r.toNat := sle_iff (by omega) (by omega)
  split
  · next hge =>
    have hge := hsle.mp hge
    have hsub : (r - d).toNat = r.toNat - d.toNat := BitVec.toNat_sub_of_le hge
    refine ⟨⟨2 * q + 1, toNat_setBit hi hq, ?_⟩, ?_⟩
    · simp only [hsub]
      rw [hsplit, hn, Nat.add_mul, Nat.mul_assoc]
      omega
    · simp only [hsub]
      omega
  · next hlt =>
    have hlt : r.toNat < d.toNat := Nat.lt_of_not_le (fun hge => hlt (hsle.mpr hge))
    refine ⟨⟨2 * q, ?_, ?_⟩, hlt⟩
    · rw [hq, Nat.pow_succ', ← Nat.mul_assoc, Nat.mul_comm q]
    · simp only
      rw [hsplit, hn, Nat.mul_assoc]
      omega

theorem shifted_masked (n : BitVec 64) {k : Nat} (hk : k ≤ 32) :
    (n >>> k).toNat = n.toNat / 2 ^ k ∧ ((n &&& BitVec.ofNat 64 (2 ^ k - 1)).setWidth 32).toNat = n.toNat % 2 ^ k := by
  have hpow : 2 ^ k ≤ 2 ^ 32 := Nat.pow_le_pow_right (by decide) hk
  have hpos : 0 < 2 ^ k := Nat.two_pow_pos k
  have hmask : (BitVec.ofNat 64 (2 ^ k - 1)).toNat = 2 ^ k - 1 := by
    rw [BitVec.toNat_ofNat]
    exact Nat.mod_eq_of_lt (by omega)
  refine ⟨?_, ?_⟩
  · rw [BitVec.toNat_ushiftRight, Nat.shiftRight_eq_div_pow]
  · rw [BitVec.toNat_setWidth, BitVec.toNat_and, hmask, Nat.and_two_pow_sub_one_eq_mod]
    exact Nat.mod_eq_of_lt (Nat.lt_of_lt_of_le (Nat.mod_lt _ hpos) hpow)

/-! ## Remainders that cannot be doubled -/

theorem divideBit_kept {j : Nat} (hij : i < j) (hi : i < 64) :
    (divideBit n d i qr).1.toNat / 2 ^ j = qr.1.toNat / 2 ^ j := by
  unfold divideBit
  simp only
  generalize (if n.getLsbD i then qr.2 <<< 1 ||| 1 else qr.2 <<< 1) = r
  split
  · have hbit : 2 ^ i < 2 ^ j := Nat.pow_lt_pow_right (by decide) hij
    rw [BitVec.toNat_or, toNat_mask hi, ← Nat.shiftRight_eq_div_pow,
      Nat.shiftRight_or_distrib, Nat.shiftRight_eq_div_pow _ j,
      Nat.shiftRight_eq_div_pow _ j, Nat.div_eq_of_lt hbit, Nat.or_zero]
  · rfl

theorem divideBits_kept {j : Nat} (hij : i ≤ j) (hi : i ≤ 64) :
    (divideBits n d i qr).1.toNat / 2 ^ j = qr.1.toNat / 2 ^ j := by
  induction i generalizing qr with
  | zero => rfl
  | succ i ih => rw [divideBits, ih (by omega) (by omega), divideBit_kept (by omega) (by omega)]

theorem Divided.remainder_eq (h : Divided n d i qr) : qr.2.toNat = n.toNat / 2 ^ i % d.toNat := by
  obtain ⟨⟨q, -, hn⟩, hr⟩ := h
  rw [hn, Nat.mul_add_mod_of_lt hr]

/-- The doubled remainder counts as negative, so the quotient is left as it is. -/
theorem divideBit_negative (hd : d.toNat < 2 ^ 31) (hr : qr.2.toNat < 2 ^ 31) (hlarge : 2 ^ 30 ≤ qr.2.toNat) :
    (divideBit n d i qr).1 = qr.1 := by
  have hnext := toNat_nextBit (n.getLsbD i) hr
  unfold divideBit
  simp only
  generalize (if n.getLsbD i then qr.2 <<< 1 ||| 1 else qr.2 <<< 1) = r at hnext ⊢
  have hnegative : r.toInt < 0 := by
    rw [BitVec.toInt_eq_toNat_cond, if_neg (by omega)]
    omega
  have hpositive : d.toInt = d.toNat := BitVec.toInt_eq_toNat_of_lt (by omega)
  have hless : ¬d.sle r = true := by
    rw [BitVec.sle_eq_decide, decide_eq_true_eq, hpositive]
    omega
  rw [if_neg hless]

/-- The bit that belongs into the quotient is missing, and it stays so. -/
theorem Divided.misses (h : Divided n d (i + 1) qr) (hi : i < 64) (hd : d.toNat < 2 ^ 31) (hlarge : 2 ^ 30 ≤ qr.2.toNat) :
    (divideBits n d (i + 1) qr).1.toNat ≠ n.toNat / d.toNat := by
  obtain ⟨⟨q, hq, hn⟩, hr⟩ := h
  have hbit := div_bit n i
  have hkept : (divideBits n d (i + 1) qr).1.toNat / 2 ^ i = 2 * q := by
    rw [divideBits, divideBits_kept (Nat.le_refl i) (by omega), divideBit_negative hd (by omega) hlarge, hq, Nat.pow_succ',
      ← Nat.mul_assoc, Nat.mul_div_cancel _ (Nat.two_pow_pos i), Nat.mul_comm]
  have hquotient : n.toNat / d.toNat / 2 ^ i = 2 * q + 1 := by
    have hle : (n.getLsbD i).toNat ≤ 1 := Bool.toNat_le _
    rw [Nat.div_div_eq_div_mul, Nat.mul_comm, ← Nat.div_div_eq_div_mul, hbit, hn]
    have hlow : (2 * q + 1) * d.toNat = 2 * (q * d.toNat) + d.toNat := by rw [Nat.add_mul, Nat.one_mul, Nat.mul_assoc]
    have hhigh : (2 * q + 1 + 1) * d.toNat = (2 * q + 1) * d.toNat + d.toNat := Nat.succ_mul _ _
    exact Nat.div_eq_of_lt_le (by omega) (by omega)
  intro heq
  rw [heq, hquotient] at hkept
  omega

theorem Divided.exact (h : Divided n d 0 qr) : qr.1.toNat = n.toNat / d.toNat ∧ qr.2.toNat = n.toNat % d.toNat := by
  obtain ⟨⟨q, hq, hn⟩, hr⟩ := h
  rw [Nat.pow_zero, Nat.mul_one] at hq
  rw [Nat.pow_zero, Nat.div_one, ← hq, Nat.mul_comm, Nat.add_comm] at hn
  exact ((Nat.div_mod_unique (Nat.zero_lt_of_lt hr)).mpr ⟨hn.symm, hr⟩).imp Eq.symm Eq.symm

/-- From a step on, the division is exact if no remainder is too large. -/
theorem Divided.exact_iff (h : Divided n d i qr) (hi : i ≤ 64) (hd : d.toNat < 2 ^ 31) :
    ((divideBits n d i qr).1.toNat = n.toNat / d.toNat ∧ (divideBits n d i qr).2.toNat = n.toNat % d.toNat) ↔
      ∀ k, 1 ≤ k → k ≤ i → n.toNat / 2 ^ k % d.toNat < 2 ^ 30 := by
  induction i generalizing qr with
  | zero => exact iff_of_true h.exact fun k hlo hhi => absurd hhi (by omega)
  | succ i ih =>
    have hremainder := h.remainder_eq
    rcases Nat.lt_or_ge qr.2.toNat (2 ^ 30) with hroom | hlarge
    · refine (ih (h.step (by omega) hd hroom) (by omega)).trans ⟨fun hrest k hlo hhi => ?_, fun hall k hlo hhi => ?_⟩
      · obtain hlt | rfl := Nat.lt_or_eq_of_le hhi
        · exact hrest k hlo (Nat.le_of_lt_succ hlt)
        · rwa [← hremainder]
      · exact hall k hlo (Nat.le_succ_of_le hhi)
    · refine iff_of_false (fun hexact => h.misses (by omega) hd hlarge hexact.1) fun hall => ?_
      have hlast := hall (i + 1) (by omega) (Nat.le_refl _)
      omega

/-- No remainder on the way is too large to be doubled. -/
def RemaindersFit (n : BitVec 64) (d : BitVec 32) : Prop :=
  ∀ k, 1 ≤ k → k < 64 → n.toNat / 2 ^ k % d.toNat < 2 ^ 30

theorem remaindersFit_of_le (hpos : 0 < d.toNat) (hd : d.toNat ≤ 2 ^ 30) : RemaindersFit n d :=
  fun _ _ _ => Nat.lt_of_lt_of_le (Nat.mod_lt _ hpos) hd

/-- The quotient and the remainder are right for a number of 32 bits, and where no remainder is too large. -/
theorem uint64divmod_eq_iff (n : BitVec 64) (hpos : 0 < d.toNat) (hd : d.toNat < 2 ^ 31) :
    ((uint64divmod n d).1.toNat = n.toNat / d.toNat ∧ (uint64divmod n d).2.toNat = n.toNat % d.toNat) ↔
      n.toNat < 2 ^ 32 ∨ RemaindersFit n d := by
  have hzero : d ≠ 0 := by
    rintro rfl
    exact absurd hpos (by decide)
  unfold uint64divmod
  rw [if_neg hzero]
  split
  · next htwo =>
    subst htwo
    exact iff_of_true (shifted_masked n (show 1 ≤ 32 by decide)) (.inr (remaindersFit_of_le (by decide) (by decide)))
  split
  · next hsixteen =>
    subst hsixteen
    exact iff_of_true (shifted_masked n (show 4 ≤ 32 by decide)) (.inr (remaindersFit_of_le (by decide) (by decide)))
  split
  · next hsmall =>
    have hlt : n.toNat < 2 ^ 32 := Nat.lt_succ_of_le (BitVec.le_def.mp hsmall)
    have hwidth : (n.setWidth 32).toNat = n.toNat := by rw [BitVec.toNat_setWidth, Nat.mod_eq_of_lt hlt]
    have hquotient : n.toNat / d.toNat < 2 ^ 64 := Nat.lt_of_le_of_lt (Nat.div_le_self _ _) n.isLt
    refine iff_of_true ⟨?_, ?_⟩ (.inl hlt)
    · rw [BitVec.toNat_setWidth, BitVec.toNat_udiv, hwidth, Nat.mod_eq_of_lt hquotient]
    · rw [BitVec.toNat_umod, hwidth]
  · next hlong =>
    have hlong : ¬n.toNat < 2 ^ 32 := fun hlt => hlong (BitVec.le_def.mpr (Nat.le_of_lt_succ hlt))
    have hstart : Divided n d 64 (0, 0) := by
      refine ⟨⟨0, rfl, ?_⟩, hpos⟩
      rw [Nat.div_eq_of_lt n.isLt]
      simp
    rw [hstart.exact_iff (Nat.le_refl 64) hd, or_iff_right hlong]
    refine ⟨fun hall k hlo hhi => hall k hlo (Nat.le_of_lt hhi), fun hfit k hlo hhi => ?_⟩
    obtain hlt | rfl := Nat.lt_or_eq_of_le hhi
    · exact hfit k hlo hlt
    · rw [Nat.div_eq_of_lt n.isLt, Nat.zero_mod]
      decide

theorem uint64divmod_eq (n : BitVec 64) (hpos : 0 < d.toNat) (hd : d.toNat ≤ 2 ^ 30) :
    (uint64divmod n d).1.toNat = n.toNat / d.toNat ∧ (uint64divmod n d).2.toNat = n.toNat % d.toNat :=
  (uint64divmod_eq_iff n hpos (by omega)).mpr (.inr (remaindersFit_of_le hpos hd))

/-- What is left in `*n` is the quotient, and what is returned is the remainder. -/
def DividesExactly (n : BitVec 64) (d : BitVec 32) : Prop :=
  ((uint64divmod n d).1.toNat : Int) = n.toNat / d.toInt ∧ (uint64divmod n d).2.toInt = n.toNat % d.toInt

theorem toInt_eq_iff {r : BitVec 32} {m : Nat} (hm : m < 2 ^ 31) : r.toInt = m ↔ r.toNat = m := by
  have hlt := r.isLt
  rw [BitVec.toInt_eq_toNat_cond]
  split <;> omega

end

/-- For positive divisors the division is exact if the number has 32 bits, or no remainder is too large. -/
theorem uint64divmod_exact_iff (n : BitVec 64) (d : BitVec 32) (hd : 0 < d.toInt) :
    DividesExactly n d ↔ n.toNat < 2 ^ 32 ∨ RemaindersFit n d := by
  obtain ⟨hlt, hd'⟩ : d.toNat < 2 ^ 31 ∧ d.toInt = d.toNat := by
    have hbits := d.isLt
    rw [BitVec.toInt_eq_toNat_cond] at hd ⊢
    split at hd
    · exact ⟨by omega, if_pos (by omega)⟩
    · omega
  have hpos : 0 < d.toNat := by omega
  have hremainder : n.toNat % d.toNat < 2 ^ 31 := Nat.lt_trans (Nat.mod_lt _ hpos) hlt
  rw [← uint64divmod_eq_iff n hpos hlt, DividesExactly, hd', ← Int.natCast_ediv, ← Int.natCast_emod, Int.ofNat_inj,
    toInt_eq_iff hremainder]

theorem uint64divmod_exact_iff_ten : 0 < (10 : BitVec 32).toInt ∧
    (DividesExactly 0x100000000 10 ↔ (0x100000000 : BitVec 64).toNat < 2 ^ 32 ∨ RemaindersFit 0x100000000 10) :=
  ⟨by decide, uint64divmod_exact_iff 0x100000000 10 (by decide)⟩

/-- 2^32 by 2^31 - 1 is 2, and 2 remains. -/
theorem uint64divmod_loses : ¬DividesExactly 0x100000000 0x7fffffff := by
  intro h
  exact absurd h.1 (by decide +kernel)

end ChromeEc.Util
