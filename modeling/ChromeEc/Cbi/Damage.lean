import Mathlib.Logic.Function.Iterate
import ChromeEc.Lib.Crc
import ChromeEc.Cbi.Atomicity

/- What the check of `crc8.c` tells: an image in which one byte has changed is not taken, unless the byte is one of
  total_size, which decides what the check is about (`isValidCbi_damaged`).

  The bits of the variable `crc` from the 8th on are a register with the polynomial 0x07; the others are zero. -/
namespace ChromeEc.Cbi

open ChromeEc.Lib ChromeEc.Lib.Memory

variable {m : Image} {cfg : Config} {a p n : Nat} {b b' : UInt8} {r r' x y : BitVec 8}

/-! ## The register -/

/-- A register in its place in `crc`. -/
def placed (r : BitVec 8) : UInt32 := .ofBitVec (r.setWidth 32 <<< 8)

def entered (r : BitVec 8) (b : UInt8) : BitVec 8 := (Crc.enter 0x07 · false)^[8] (r ^^^ b.toBitVec)

theorem placed_bit : ∀ r, crcBit (placed r) = placed (Crc.enter 0x07 r false) := by decide +kernel

theorem placed_data : (UInt8.ofBitVec r).toUInt32 <<< 8 = placed r := rfl

theorem placed_crc : (placed r >>> 8).toUInt8 = .ofBitVec r := by
  have hback : ((r.setWidth 32 <<< 8) >>> 8).setWidth 8 = r := by
    apply BitVec.eq_of_toNat_eq
    simp [Nat.shiftLeft_eq, Nat.shiftRight_eq_div_pow]
    omega
  exact congrArg UInt8.ofBitVec hback

theorem placed_xor : placed (x ^^^ y) = placed x ^^^ placed y := by
  rw [placed, BitVec.setWidth_xor, BitVec.shiftLeft_xor_distrib]
  rfl

theorem placed_byte : crcByte (placed r) b = placed (entered r b) := by
  have hdata : b.toUInt32 <<< 8 = placed b.toBitVec := placed_data
  have hbits : Function.Semiconj placed (Crc.enter 0x07 · false) crcBit := fun r => (placed_bit r).symm
  rw [crcByte, hdata, ← placed_xor, entered]
  exact ((hbits.iterate_right 8) _).symm

theorem crosCrc8_eq : crosCrc8 m p n = .ofBitVec ((read m p n).foldl entered 0) := by
  have hloop : ∀ p r, crcLoop m n p (placed r) = placed ((read m p n).foldl entered r) := by
    induction n with
    | zero => exact fun _ _ => rfl
    | succ n ih =>
      intro p r
      rw [crcLoop, placed_byte, ih, Nat.add_comm n, read_add]
      rfl
  rw [crosCrc8, show (0 : UInt32) = placed 0 from rfl, hloop, placed_crc]

/-! ## Changes -/

theorem iterate_enter_injective : Function.Injective (Crc.enter (0x07 : BitVec 8) · false)^[8] :=
  Function.Injective.iterate (fun _ _ h => Crc.enter_injective (by decide) h) 8

theorem entered_data (h : entered r b = entered r b') : b = b' :=
  UInt8.toBitVec_inj.mp ((BitVec.xor_right_inj _).mp (iterate_enter_injective h))

theorem foldl_entered_injective {l : List UInt8} (h : l.foldl entered r = l.foldl entered r') : r = r' := by
  induction l generalizing r r' with
  | nil => exact h
  | cons b l ih => exact (BitVec.xor_left_inj _).mp (iterate_enter_injective (ih h))

theorem crosCrc8_update (hlo : p ≤ a) (hhi : a < p + n) (hb : b ≠ m a) :
    crosCrc8 (Function.update m a b) p n ≠ crosCrc8 m p n := by
  obtain ⟨i, rfl⟩ := Nat.exists_eq_add_of_le hlo
  obtain ⟨k, rfl⟩ := Nat.exists_eq_add_of_lt (Nat.add_lt_add_iff_left.mp hhi)
  -- the bytes in front of the one that changed, that one, and those behind it
  have hsplit (m : Image) : read m p (i + k + 1) = read m p i ++ m (p + i) :: read m (p + i + 1) k := by
    rw [Nat.add_right_comm, Nat.add_assoc, Nat.add_comm 1, read_add, Nat.add_comm k, read_add]
    rfl
  have hfront : read (Function.update m (p + i) b) p i = read m p i :=
    read_congr fun a _ ha => Function.update_of_ne (by omega) _ _
  have hbehind : read (Function.update m (p + i) b) (p + i + 1) k = read m (p + i + 1) k :=
    read_congr fun a ha _ => Function.update_of_ne (by omega) _ _
  intro hcrc
  rw [crosCrc8_eq, crosCrc8_eq, hsplit, hsplit, hfront, hbehind, Function.update_self,
    List.foldl_append, List.foldl_append, List.foldl_cons, List.foldl_cons] at hcrc
  exact hb (entered_data (foldl_entered_injective (congrArg UInt8.toBitVec hcrc)))

/-- A valid image is not valid any more when one of its bytes changes, other than those of total_size. -/
theorem isValidCbi_damaged (hvalid : isValidCbi cfg m = true) (ha : a < totalSize m) (hsize : a ≠ 6 ∧ a ≠ 7)
    (hb : b ≠ m a) : isValidCbi cfg (Function.update m a b) = false := by
  obtain ⟨hmagic, -, hheader, hcrc⟩ := isValidCbi_iff_header hvalid
  have htotal : totalSize (Function.update m a b) = totalSize m := by
    rw [totalSize, Function.update_of_ne hsize.1.symm, Function.update_of_ne hsize.2.symm, totalSize]
  by_contra hnot
  obtain ⟨hmagic', -, -, hcrc'⟩ := isValidCbi_iff_header (Bool.not_eq_false _ ▸ hnot)
  rw [hasMagic, Bool.and_eq_true, Bool.and_eq_true, beq_iff_eq, beq_iff_eq, beq_iff_eq] at hmagic hmagic'
  obtain hmagical | rfl | hcovered : a < 3 ∨ a = 3 ∨ 4 ≤ a := by omega
  · obtain rfl | rfl | rfl : a = 0 ∨ a = 1 ∨ a = 2 := by omega
    · exact hb (hmagic'.1.1.trans hmagic.1.1.symm)
    · exact hb (hmagic'.1.2.trans hmagic.1.2.symm)
    · exact hb (hmagic'.2.trans hmagic.2.symm)
  · have hsame : cbiCrc8 (Function.update m 3 b) = cbiCrc8 m :=
      cbiCrc8_congr hheader fun i hi _ => Function.update_of_ne (by omega) _ _
    rw [hsame, hcrc, crc, crc, Function.update_self] at hcrc'
    exact hb hcrc'.symm
  · have hstored : crc (Function.update m a b) = crc m := Function.update_of_ne (by omega) _ _
    have hmax := totalSize_lt (m := m)
    rw [hstored, ← hcrc, cbiCrc8, htotal, cbiCrc8] at hcrc'
    rw [sizeofHeader] at hheader
    exact crosCrc8_update hcovered (by omega) hb hcrc'

/-- The length of the only entry has changed, so that it overruns the image. -/
theorem isValidCbi_damaged_stored : isValidCbi eeprom (Function.update (cacheOf storedEntry) 9 200) = false :=
  isValidCbi_damaged (by decide +kernel) (by decide +kernel) (by decide) (by decide +kernel)

end ChromeEc.Cbi
