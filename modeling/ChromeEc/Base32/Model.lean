import Mathlib.Algebra.GroupWithZero.Nat
import Mathlib.Data.List.Basic
import ChromeEc.Console.Words

/- Base32 text: `common/base32.c`.

  A text is the list of its characters before the NUL. A symbol is a value below 32; a memory
  of bytes is a function of the index, whose bits are counted from the most significant one
  on. `crc5_sym` is given symbols only.

  Correspondence (C ↔ Lean):
    `base32_map` ↔ `base32Map`
    `crc5_sym` ↔ `crc5Sym`
    `decode_sym` ↔ `decodeSym`, `none` for -1
    `base32_encode` ↔ `base32Encode`: `rawSym` is the symbol of one turn of the loop, `encodeFrom`
      the loop from a turn on
    `base32_decode` ↔ `base32Decode`: `putSym` writes the bits of a symbol, `decodeFrom` is the
      loop from a character on -/
namespace ChromeEc.Base32
open Console (isspace)

abbrev Sym := Fin 32

scoped instance neZero_symbols : NeZero 32 := Nat.instNeZeroSucc

def base32Map : List UInt8 :=
  ['A', 'B', 'C', 'D', 'E', 'F', 'G', 'H', 'J', 'K', 'L', 'M', 'N', 'P', 'Q', 'R', 'S', 'T', 'U', 'V', 'W', 'X', 'Y', 'Z',
    '2', '3', '4', '5', '6', '7', '8', '9'].map fun c => UInt8.ofNat c.toNat

/-- `base32_map[sym]`. -/
def base32Char (sym : Sym) : UInt8 := base32Map.getD sym 0

def dash : UInt8 := 45

inductive Ec where
  | success
  | inval
  deriving DecidableEq

/-! ## The check symbols -/

def crc5Table1 : List Nat :=
  [0x00, 0x0E, 0x1C, 0x12, 0x11, 0x1F, 0x0D, 0x03, 0x0B, 0x05, 0x17, 0x19, 0x1A, 0x14, 0x06, 0x08]

def crc5Table0 : List Nat :=
  [0x00, 0x16, 0x05, 0x13, 0x0A, 0x1C, 0x0F, 0x19, 0x14, 0x02, 0x11, 0x07, 0x1E, 0x08, 0x1B, 0x0D]

/-- What the tables make of a byte. -/
def crc5 (tmp : Nat) : Nat := crc5Table1.getD (tmp &&& 0x0F) 0 ^^^ crc5Table0.getD ((tmp >>> 4) &&& 0x0F) 0

theorem getD_lt {l : List Nat} (h : ∀ x ∈ l, x < 2 ^ 5) (k : Nat) : l.getD k 0 < 2 ^ 5 := by
  rw [List.getD_eq_getElem?_getD]
  cases hk : l[k]? with
  | none => decide
  | some x => exact h x (List.mem_of_getElem? hk)

theorem crc5_lt (tmp : Nat) : crc5 tmp < 32 :=
  Nat.xor_lt_two_pow (getD_lt (by decide) _) (getD_lt (by decide) _)

def crc5Sym (sym previousCrc : Sym) : Sym := ⟨crc5 (sym.val ^^^ previousCrc.val), crc5_lt _⟩

/-! ## The encoder -/

section

variable (src : Nat → UInt8) (srclenBits addCrcEvery : Nat)

/-- The symbol of the bits from `i` on. -/
def rawSym (i : Nat) : Nat :=
  let sidx := i / 8
  let bitOffs := i % 8
  let sym :=
    if bitOffs ≤ 3 then
      -- the whole symbol is in that byte
      (src sidx).toNat >>> (3 - bitOffs)
    else
      (src sidx).toNat <<< (bitOffs - 3) |||
        (if i + 1 < srclenBits then (src (sidx + 1)).toNat >>> (11 - bitOffs) else 0)
  let sym := sym &&& 0x1f
  -- an incomplete symbol is padded with 0 bits
  if srclenBits - i < 5 then sym &&& (0x1f <<< (5 + i - srclenBits)) else sym

theorem rawSym_lt (i : Nat) : rawSym src srclenBits i < 32 := by
  have hmask : ∀ n : Nat, n &&& 0x1f < 32 := fun n => Nat.lt_succ_of_le Nat.and_le_right
  rw [rawSym]
  split
  · exact Nat.lt_of_le_of_lt Nat.and_le_left (hmask _)
  · exact hmask _

def symAt (i : Nat) : Sym := ⟨rawSym src srclenBits i, rawSym_lt src srclenBits i⟩

def encodeFrom : List Nat → Sym → Nat → List UInt8
  | [], _, _ => []
  | i :: is, crc, crcCount =>
    let sym := symAt src srclenBits i
    if addCrcEvery = 0 then base32Char sym :: encodeFrom is crc crcCount
    else
      let crc := crc5Sym sym crc
      if crcCount + 1 = addCrcEvery then base32Char sym :: base32Char crc :: encodeFrom is 0 0
      else base32Char sym :: encodeFrom is crc (crcCount + 1)

/-- The values of `i`: from 0 in steps of 5, below the number of bits. -/
def starts : List Nat := List.range' 0 ((srclenBits + 4) / 5) 5

/-- The result, and the text in the destination. -/
def base32Encode (destlenChars : Nat) : Ec × List UInt8 :=
  let needed := (srclenBits + 4) / 5
  if addCrcEvery ≠ 0 ∧ needed % addCrcEvery ≠ 0 then (.inval, [])
  else
    let needed := if addCrcEvery ≠ 0 then needed + needed / addCrcEvery else needed
    if destlenChars < needed + 1 then (.inval, [])
    else (.success, encodeFrom src srclenBits addCrcEvery (starts srclenBits) 0 0)

end

/-! ## The decoder -/

def decodeSym (sym : UInt8) : Option Sym := (List.finRange 32).find? fun i => base32Char i == sym

structure Decoding where
  crc : Sym
  crcCount : Nat
  outBits : Nat
  dest : Nat → UInt8

def setByte (dest : Nat → UInt8) (k : Nat) (b : UInt8) : Nat → UInt8 := Function.update dest k b

/-- As many bits of the symbol are written as there is space for. -/
def putSym (destlenBits : Nat) (sym : Sym) (d : Decoding) : Decoding :=
  let sbits := min 5 (destlenBits - d.outBits)
  let sym := if sbits < 5 then sym.val >>> (5 - sbits) else sym.val
  -- the rest of the current byte
  let dbits := 8 - d.outBits % 8
  let b := min dbits sbits
  let k := d.outBits / 8
  let dest := if dbits = 8 then setByte d.dest k 0 else d.dest
  let dest := setByte dest k (dest k ||| UInt8.ofNat ((sym <<< (dbits - b)) >>> (sbits - b)))
  let outBits := d.outBits + b
  let sbits := sbits - b
  -- the next byte
  if 0 < sbits then
    { d with dest := setByte dest (outBits / 8) (UInt8.ofNat (sym <<< (8 - sbits))), outBits := outBits + sbits }
  else { d with dest := dest, outBits := outBits }

section

variable (destlenBits crcAfterEvery : Nat)

/-- After the loop: there must be no group without its check symbol. -/
def finish (d : Decoding) : Int × (Nat → UInt8) :=
  if crcAfterEvery ≠ 0 ∧ d.crcCount ≠ 0 then (-1, d.dest) else (d.outBits, d.dest)

def decodeFrom : List UInt8 → Decoding → Int × (Nat → UInt8)
  | [], d => finish crcAfterEvery d
  | c :: text, d =>
    if isspace c || c == dash then decodeFrom text d
    else
      match decodeSym c with
      | none => (-1, d.dest)
      | some sym =>
        if crcAfterEvery ≠ 0 ∧ d.crcCount = crcAfterEvery then
          if d.crc ≠ sym then (-1, d.dest) else decodeFrom text { d with crcCount := 0, crc := 0 }
        else
          let d := if crcAfterEvery ≠ 0 then { d with crc := crc5Sym sym d.crc, crcCount := d.crcCount + 1 } else d
          if destlenBits ≤ d.outBits then finish crcAfterEvery d
          else decodeFrom text (putSym destlenBits sym d)

end

/-- The result, and the memory at the destination. -/
def base32Decode (dest : Nat → UInt8) (destlenBits : Nat) (text : List UInt8) (crcAfterEvery : Nat) :
    Int × (Nat → UInt8) :=
  decodeFrom destlenBits crcAfterEvery text ⟨0, 0, 0, dest⟩

/-! ## The alphabet -/

theorem decodeSym_base32Char (sym : Sym) : decodeSym (base32Char sym) = some sym := by
  revert sym
  decide

theorem base32Char_kept (sym : Sym) : (isspace (base32Char sym) || base32Char sym == dash) = false := by
  revert sym
  decide

theorem mem_base32Map {c : UInt8} (h : c ∈ base32Map) : ∃ sym, c = base32Char sym := by
  obtain ⟨i, hi, rfl⟩ := List.mem_iff_getElem.mp h
  refine ⟨⟨i, hi⟩, ?_⟩
  rw [base32Char, List.getD_eq_getElem?_getD, List.getElem?_eq_getElem hi]
  rfl

end ChromeEc.Base32
