import Mathlib.Data.Vector.Basic
import Mathlib.Data.Fin.Tuple.Basic

/- Bits packed into an array of words.

  A bitmap of `num` bits is an array of just as many words of `w` bits as it takes. Bit `i` is in the
  word `i / w`, at `i % w`.

  What is proved: setting and clearing a bit changes that bit and no other, whether they share a
  word or not (`test_set`, `test_clear`), and the cells of a table with rows of `m` cells are
  different bits (`cell_inj`). -/
namespace ChromeEc.Lib

variable {w num : Nat}

abbrev Bitmap (w num : Nat) := Vector (BitVec w) (1 + (num - 1) / w)

namespace Bitmap

theorem word_lt (i : Fin num) : i.val / w < 1 + (num - 1) / w := by
  have hle : i.val / w ≤ (num - 1) / w := Nat.div_le_div_right (Nat.le_sub_one_of_lt i.isLt)
  omega

def word (b : Bitmap w num) (i : Fin num) : BitVec w :=
  have hlt := word_lt i
  b[i.val / w]

def mask (w : Nat) (i : Fin num) : BitVec w := 1#w <<< (i.val % w)

def empty : Bitmap w num := Vector.replicate _ 0#w

def test (b : Bitmap w num) (i : Fin num) : Bool := (1#w &&& (b.word i >>> (i.val % w))) != 0#w

def setBit (b : Bitmap w num) (i : Fin num) : Bitmap w num := b.set (i.val / w) (b.word i ||| mask w i) (word_lt i)

def clearBit (b : Bitmap w num) (i : Fin num) : Bitmap w num := b.set (i.val / w) (b.word i &&& ~~~mask w i) (word_lt i)

/-! ## Bits -/

theorem test_eq (hw : 0 < w) (b : Bitmap w num) (i : Fin num) : b.test i = (b.word i).getLsbD (i.val % w) := by
  have hbit : (1#w &&& (b.word i >>> (i.val % w))) = if (b.word i).getLsbD (i.val % w) then 1#w else 0#w := by
    apply BitVec.eq_of_getLsbD_eq
    intro k hk
    rw [BitVec.getLsbD_and, BitVec.getLsbD_ushiftRight, BitVec.getLsbD_one]
    obtain rfl | hne := eq_or_ne k 0
    · cases (b.word i).getLsbD (i.val % w) <;> simp [hw]
    · cases (b.word i).getLsbD (i.val % w) <;> simp [hne]
  have hone : 1#w ≠ 0#w := by
    intro heq
    have hval := congrArg BitVec.toNat heq
    rw [BitVec.toNat_ofNat, BitVec.toNat_ofNat, Nat.zero_mod, Nat.mod_eq_of_lt (Nat.one_lt_two_pow hw.ne')] at hval
    cases hval
  unfold test
  rw [hbit]
  cases (b.word i).getLsbD (i.val % w) <;> simp [hone]

theorem test_empty (i : Fin num) : (empty : Bitmap w num).test i = false := by
  simp [test, empty, word]

theorem getLsbD_mask (i : Fin num) (k : Nat) (hk : k < w) : (mask w i).getLsbD k = decide (i.val % w = k) := by
  unfold mask
  rw [BitVec.getLsbD_shiftLeft, BitVec.getLsbD_one]
  by_cases heq : i.val % w = k
  · subst heq
    simp [hk, Nat.zero_lt_of_lt hk]
  · by_cases hlt : k < i.val % w
    · simp [heq, hlt]
    · have hne : k - i.val % w ≠ 0 := by omega
      simp [heq, hne]

theorem same_bit {i j : Fin num} (hword : i.val / w = j.val / w) (hplace : i.val % w = j.val % w) : i = j := by
  apply Fin.ext
  calc i.val = w * (i.val / w) + i.val % w := (Nat.div_add_mod _ _).symm
    _ = w * (j.val / w) + j.val % w := by rw [hword, hplace]
    _ = j.val := Nat.div_add_mod _ _

theorem word_set (b : Bitmap w num) (i j : Fin num) (x : BitVec w) :
    (Bitmap.word (b.set (i.val / w) x (word_lt i)) j) = if i.val / w = j.val / w then x else b.word j := by
  unfold word
  rw [Vector.getElem_set]

theorem word_eq (b : Bitmap w num) {i j : Fin num} (h : i.val / w = j.val / w) : b.word i = b.word j := by
  unfold word
  simp [h]

theorem test_set (hw : 0 < w) (b : Bitmap w num) (i j : Fin num) : (b.setBit i).test j = (decide (i = j) || b.test j) := by
  rw [test_eq hw, test_eq hw, setBit, word_set]
  have hlt : j.val % w < w := Nat.mod_lt _ hw
  by_cases hword : i.val / w = j.val / w
  · rw [if_pos hword, BitVec.getLsbD_or, getLsbD_mask i _ hlt, word_eq b hword, Bool.or_comm]
    congr 1
    rw [decide_eq_decide]
    exact ⟨same_bit hword, fun heq => by rw [heq]⟩
  · have hne : i ≠ j := fun heq => hword (by rw [heq])
    simp [hword, hne]

theorem test_clear (hw : 0 < w) (b : Bitmap w num) (i j : Fin num) :
    (b.clearBit i).test j = (decide (i ≠ j) && b.test j) := by
  rw [test_eq hw, test_eq hw, clearBit, word_set]
  have hlt : j.val % w < w := Nat.mod_lt _ hw
  by_cases hword : i.val / w = j.val / w
  · have hiff : i.val % w = j.val % w ↔ i = j := ⟨same_bit hword, fun heq => by rw [heq]⟩
    rw [if_pos hword, BitVec.getLsbD_and, BitVec.getLsbD_not, getLsbD_mask i _ hlt, word_eq b hword, Bool.and_comm]
    simp [hlt, hiff]
  · have hne : i ≠ j := fun heq => hword (by rw [heq])
    simp [hword, hne]

/-! ## Tables -/

variable {n m : Nat}

/-- The bit of a cell of a table with `n` rows of `m` cells. -/
def cell (row : Fin n) (col : Fin m) : Fin (m * n) :=
  ⟨row.val * m + col.val, by
    calc row.val * m + col.val < row.val * m + m := Nat.add_lt_add_left col.isLt _
      _ = m * (row.val + 1) := by rw [Nat.mul_add, Nat.mul_one, Nat.mul_comm]
      _ ≤ m * n := Nat.mul_le_mul_left m row.isLt⟩

theorem cell_inj {row row' : Fin n} {col col' : Fin m} : cell row col = cell row' col' ↔ row = row' ∧ col = col' := by
  constructor
  · intro heq
    have hval : row.val * m + col.val = row'.val * m + col'.val := congrArg Fin.val heq
    have hdiv : ∀ (r : Fin n) (c : Fin m), (r.val * m + c.val) / m = r.val := by
      intro r c
      rw [Nat.mul_comm, Nat.mul_add_div (Nat.zero_lt_of_lt c.isLt), Nat.div_eq_of_lt c.isLt, Nat.add_zero]
    have hrow : row = row' := Fin.ext ((hdiv row col).symm.trans ((congrArg (· / m) hval).trans (hdiv row' col')))
    subst hrow
    exact ⟨rfl, Fin.ext (Nat.add_left_cancel hval)⟩
  · rintro ⟨rfl, rfl⟩
    rfl

end Bitmap

end ChromeEc.Lib
