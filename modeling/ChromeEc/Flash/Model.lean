import ChromeEc.Lib.Access
import ChromeEc.Lib.Memory
import Mathlib.Algebra.Group.Nat.Defs
import Mathlib.Order.Interval.Set.Defs

/- Reading, writing and erasing flash, `common/flash.c`, with the CBI section in flash.

  An `int` is an `Int`: flash has fewer than 2^30 bytes, so no sum of an offset and a size
  overflows. The chip's driver is a parameter, with what `include/flash.h` says of its
  functions.

  Correspondence (C ↔ Lean):
    `flash_range_ok`, `crec_flash_dataptr`, `check_cbi_section_overlap`, `protect_cbi_overlapped_section`,
      `crec_flash_unprotected_read`, `crec_flash_physical_erase`, `crec_flash_read`, `crec_flash_write`,
      `crec_flash_erase` ↔ the same in camelCase
    `crec_flash_physical_write` ↔ `crecFlashPhysicalWrite` (`zephyr/shim/src/flash.c`)
  A failed read returns no buffer: what it leaves there is the driver's. The lock on
  mapped storage and `flash_abort_or_invalidate_hash` touch no flash and are left out. -/
namespace ChromeEc.Flash
open ChromeEc.Lib ChromeEc.Lib.Memory ChromeEc.Lib.Access

abbrev Image := Nat → UInt8

/-- `EC_ERROR_INVAL`, and the driver's own codes. -/
inductive Err where
  | inval
  | chip (code : Int)
  deriving DecidableEq

/-- A board's flash: `CONFIG_FLASH_SIZE_BYTES`, the sizes a write and an erase have to be a
multiple of, `CONFIG_MAPPED_STORAGE`, `CONFIG_FLASH_MULTIPLE_REGION` and the CBI section. -/
structure Config where
  flashSize : Nat
  writeShift : Nat
  eraseShift : Nat
  mapped : Bool
  multipleRegion : Bool
  cbiOffset : Nat
  cbiSize : Nat
  sizeFits : flashSize < 2 ^ 30
  shifts : writeShift ≤ eraseShift
  cbiFits : cbiOffset + cbiSize ≤ flashSize
  /-- A `BUILD_ASSERT` of `cbi_flash.c`. -/
  offsetAligned : 2 ^ eraseShift ∣ cbiOffset
  /-- `flash_store` erases the section with one call of the driver. -/
  sizeAligned : 2 ^ eraseShift ∣ cbiSize

/-- `CONFIG_FLASH_WRITE_SIZE`. -/
def Config.writeSize (c : Config) : Nat := 2 ^ c.writeShift

/-- `CONFIG_FLASH_ERASE_SIZE`. -/
def Config.eraseSize (c : Config) : Nat := 2 ^ c.eraseShift

def Config.cbiEnd (c : Config) : Nat := c.cbiOffset + c.cbiSize

def Config.cbi (c : Config) : Set Nat := Set.Ico c.cbiOffset c.cbiEnd

def span (offset size : Nat) : Set Nat := Set.Ico offset (offset + size)

/-- A request the driver can be made: inside flash, and a multiple of `unit`. -/
def Fits (c : Config) (unit offset size : Nat) : Prop := unit ∣ offset ∧ unit ∣ size ∧ offset + size ≤ c.flashSize

/-- The driver of the flash chip. Whether a read works is not decided by what is read;
a write makes a byte `program old new`, which need not be `new` where the byte was not
erased before. -/
structure Chip (c : Config) where
  program : UInt8 → UInt8 → UInt8
  read : Int → Int → Except Err Unit
  write : Int → Int → (Nat → UInt8) → Image → Left Err UInt8
  erase : Int → Int → Image → Left Err UInt8
  write_does : ∀ (o n : Nat) d m, Fits c c.writeSize o n →
    Does (fun a b => program b (d (a - o))) (span o n) m (write o n d m)
  erase_does : ∀ (o n : Nat) m, Fits c c.eraseSize o n → Does (fun _ _ => 0xff) (span o n) m (erase o n m)
  /-- With banks of several sizes the driver itself refuses what is not made of them. -/
  erase_banks : c.multipleRegion = true → ∀ o n m, (∃ e, erase o n m = (.error e, m)) ∨
    (0 ≤ o ∧ 0 ≤ n ∧ o + n ≤ c.flashSize ∧ ∀ a : Nat, (erase o n m).2 a ≠ m a → o ≤ a ∧ a < o + n)

/-- A buffer of the caller, at its address. -/
structure Data where
  addr : Nat
  bytes : Nat → UInt8

def Data.drop (d : Data) (k : Int) : Data := ⟨d.addr + k.toNat, fun i => d.bytes (k.toNat + i)⟩

section
variable (c : Config) (chip : Chip c) (m : Image) (offset size : Int)

/-- `flash_range_ok`. The last test is only made of numbers that are not negative. -/
def flashRangeOk (sizeReq : Int) (align : Nat) : Bool :=
  !(decide (offset < 0) || decide (sizeReq < 0) || decide (offset > c.flashSize) || decide (sizeReq > c.flashSize) ||
    decide (offset + sizeReq > c.flashSize) || ((offset.toNat ||| sizeReq.toNat) &&& (align - 1)) != 0)

/-- `crec_flash_dataptr`: the bytes from the offset on, if the range is in flash. -/
def crecFlashDataptr (sizeReq : Int) (align : Nat) : Option (Nat → UInt8) :=
  if flashRangeOk c offset sizeReq align then some (fun i => m (offset.toNat + i)) else none

def checkCbiSectionOverlap : Bool :=
  let cbiStart : Int := c.cbiOffset
  let cbiEnd : Int := c.cbiOffset + c.cbiSize
  let secStart := offset
  let secEnd := offset + size
  !(decide (secEnd ≤ cbiStart) || decide (secStart ≥ cbiEnd))

def protectCbiOverlappedSection (data : Nat → UInt8) : Nat → UInt8 :=
  if checkCbiSectionOverlap c offset size then
    let cbiEnd : Int := c.cbiOffset + c.cbiSize
    let secEnd := offset + size
    let cbiFillStart := max (c.cbiOffset : Int) offset
    let cbiFillSize := min cbiEnd secEnd - cbiFillStart
    fill data (cbiFillStart - offset).toNat cbiFillSize.toNat 0xff
  else data

def crecFlashUnprotectedRead (data : Nat → UInt8) : Except Err (Nat → UInt8) :=
  if c.mapped then
    match crecFlashDataptr c m offset size 1 with
    | none => .error .inval
    | some src => .ok (copy data 0 size.toNat src)
  else
    match chip.read offset size with
    | .error e => .error e
    | .ok () => .ok (copy data 0 size.toNat fun i => m (offset.toNat + i))

def crecFlashRead (data : Nat → UInt8) : Except Err (Nat → UInt8) :=
  match crecFlashUnprotectedRead c chip m offset size data with
  | .error e => .error e
  | .ok data => .ok (protectCbiOverlappedSection c offset size data)

/-- `crec_flash_physical_write`: "Fail if offset, size, and data aren't at least
word-aligned". -/
def crecFlashPhysicalWrite (data : Data) : Left Err UInt8 :=
  if ((offset.toNat ||| size.toNat ||| data.addr) &&& (c.writeSize - 1)) != 0 then (.error .inval, m)
  else chip.write offset size data.bytes m

def crecFlashPhysicalErase : Left Err UInt8 := chip.erase offset size m

def crecFlashWrite (data : Data) : Left Err UInt8 :=
  if !flashRangeOk c offset size c.writeSize then (.error .inval, m)
  else if checkCbiSectionOverlap c offset size then
    let cbiEnd : Int := c.cbiOffset + c.cbiSize
    let secEnd := offset + size
    andThen
      (if offset < c.cbiOffset then crecFlashPhysicalWrite c chip m offset (c.cbiOffset - offset) data else (.ok (), m))
      fun m =>
        if secEnd > cbiEnd then
          crecFlashPhysicalWrite c chip m cbiEnd (secEnd - cbiEnd) (data.drop (cbiEnd - offset))
        else (.ok (), m)
  else crecFlashPhysicalWrite c chip m offset size data

/-- `crec_flash_erase`. Without one erase size for all of flash there is no range check. -/
def crecFlashErase : Left Err UInt8 :=
  if !c.multipleRegion && !flashRangeOk c offset size c.eraseSize then (.error .inval, m)
  else if checkCbiSectionOverlap c offset size then
    let cbiEnd : Int := c.cbiOffset + c.cbiSize
    let secEnd := offset + size
    andThen
      (if offset < c.cbiOffset then crecFlashPhysicalErase c chip m offset (c.cbiOffset - offset) else (.ok (), m))
      fun m =>
        if secEnd > cbiEnd then crecFlashPhysicalErase c chip m cbiEnd (secEnd - cbiEnd) else (.ok (), m)
  else crecFlashPhysicalErase c chip m offset size

end

/-! ## Requests in range -/

section
variable {c : Config} {offset size : Int} {o n k : Nat}

theorem or_and_eq_zero {a b : Nat} : (a ||| b) &&& (2 ^ k - 1) = 0 ↔ 2 ^ k ∣ a ∧ 2 ^ k ∣ b := by
  rw [Nat.and_two_pow_sub_one_eq_mod, Nat.or_mod_two_pow, Nat.or_eq_zero_iff, Nat.dvd_iff_mod_eq_zero,
    Nat.dvd_iff_mod_eq_zero]

theorem flashRangeOk_iff :
    flashRangeOk c offset size (2 ^ k) = true ↔ ∃ o n : Nat, offset = o ∧ size = n ∧ Fits c (2 ^ k) o n := by
  constructor
  · intro h
    simp only [flashRangeOk, Bool.not_eq_true', Bool.or_eq_false_iff, decide_eq_false_iff_not, bne_eq_false_iff_eq,
      or_and_eq_zero] at h
    obtain ⟨⟨⟨⟨⟨ho, hn⟩, _⟩, _⟩, hend⟩, hoffset, hsize⟩ := h
    refine ⟨offset.toNat, size.toNat, by omega, by omega, hoffset, hsize, by omega⟩
  · rintro ⟨o, n, rfl, rfl, hoffset, hsize, hend⟩
    simp only [flashRangeOk, Bool.not_eq_true', Bool.or_eq_false_iff, decide_eq_false_iff_not, bne_eq_false_iff_eq,
      or_and_eq_zero, Int.toNat_natCast]
    exact ⟨⟨⟨⟨⟨by omega, by omega⟩, by omega⟩, by omega⟩, by omega⟩, hoffset, hsize⟩

theorem checkCbiSectionOverlap_iff :
    checkCbiSectionOverlap c o n = true ↔ c.cbiOffset < o + n ∧ o < c.cbiEnd := by
  simp only [checkCbiSectionOverlap, Config.cbiEnd, Bool.not_eq_true', Bool.or_eq_false_iff, decide_eq_false_iff_not]
  omega

theorem mem_cbi {a : Nat} : a ∈ c.cbi ↔ c.cbiOffset ≤ a ∧ a < c.cbiEnd := Iff.rfl

theorem mem_span {a : Nat} : a ∈ span o n ↔ o ≤ a ∧ a < o + n := Iff.rfl

end

end ChromeEc.Flash
