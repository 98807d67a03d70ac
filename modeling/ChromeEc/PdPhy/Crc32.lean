import ChromeEc.PdPhy.RoundTrip
import ChromeEc.Lib.Crc

/- The CRC of `common/crc.c`, bit by bit.

  The table holds what 8 shifts of the reversed register make of a byte (`crc32Tab_eq`), so one turn
  of the loop takes in a byte (`crc32Byte_eq`), and the whole is the reflected check with
  the polynomial 0x04C11DB7 (`crc32_reflected`). A word is taken in as its bytes in memory, and the CRC
  of a message is that of its header and payload, in this order (`messageCrc_eq`), which tells every change
  within 32 bits in a row (`messageCrc_burst`).

  Correspondence (C ↔ Lean):
    `_crc32_hash`, `crc32_ctx_hash` ↔ `crc32CtxHash`
    `crc32_ctx_init` ↔ `crc32Initial`
    `crc32_ctx_hash16`, `crc32_ctx_hash32`, `crc32_ctx_result` ↔ `crc32Hash16`, `crc32Hash32`, `crc32Result` -/
namespace ChromeEc.PdPhy
open Lib.Crc

/-- The bytes of the buffer, in the order of the loop. -/
def crc32CtxHash (crc : BitVec 32) (buf : List (BitVec 8)) : BitVec 32 := buf.foldl crc32Byte crc

def crc32Poly : BitVec 32 := 0x04C11DB7

theorem crc32Poly_reverse : crc32Poly.reverse = 0xEDB88320 := by decide +kernel

/-! ## The table -/

theorem crc32Tab_map : crc32Tab = (List.range 256).map fun i => (shift 0xEDB88320)^[8] (BitVec.ofNat 32 i) := by
  decide +kernel

theorem crc32Tab_eq (b : BitVec 8) : crc32Tab.getD b.toNat 0 = (shift crc32Poly.reverse)^[8] (b.setWidth 32) := by
  rw [crc32Tab_map, crc32Poly_reverse, List.getD_eq_getElem?_getD, List.getElem?_map, List.getElem?_range b.isLt,
    Option.map_some, Option.getD_some, BitVec.ofNat_toNat]

theorem crc32Byte_eq (crc : BitVec 32) (b : BitVec 8) : crc32Byte crc b = enterByte crc32Poly.reverse crc b := by
  obtain ⟨x, hx⟩ : ∃ x, x = crc ^^^ b.setWidth 32 := ⟨_, rfl⟩
  have hindex : (x &&& 0xFF).toNat = (x.setWidth 8).toNat := by
    rw [BitVec.toNat_and, BitVec.toNat_setWidth]
    exact Nat.and_two_pow_sub_one_eq_mod x.toNat 8
  rw [enterByte, ← hx, iterate_shift_low, ← crc32Tab_eq, ← hindex]
  rw [crc32Byte, ← hx]

/-! ## Messages -/

theorem crc32CtxHash_append (crc : BitVec 32) (buf buf' : List (BitVec 8)) :
    crc32CtxHash crc (buf ++ buf') = crc32CtxHash (crc32CtxHash crc buf) buf' := List.foldl_append

theorem crc32CtxHash_eq (crc : BitVec 32) (buf : List (BitVec 8)) :
    crc32CtxHash crc buf = buf.foldl (enterByte crc32Poly.reverse) crc := by
  induction buf generalizing crc with
  | nil => rfl
  | cons b buf ih => rw [List.foldl_cons, ← crc32Byte_eq, ← ih, crc32CtxHash, List.foldl_cons, crc32CtxHash]

theorem crc32Hash16_eq (crc : BitVec 32) (val : BitVec 16) :
    crc32Hash16 crc val = crc32CtxHash crc (littleEndian 2 val) := by
  rfl

theorem crc32Hash32_eq (crc val : BitVec 32) : crc32Hash32 crc val = crc32CtxHash crc (littleEndian 4 val) := by
  rfl

theorem crc32_result (buf : List (BitVec 8)) :
    crc32Result (crc32CtxHash crc32Initial buf) = reflected crc32Poly buf := by
  rw [reflected_eq (by decide), ← crc32CtxHash_eq, crc32Result]
  exact BitVec.xor_allOnes

/-- The check of a string is the reflected CRC-32, parts may be hashed one after another, and the words are hashed as
their bytes in memory. -/
theorem crc32_reflected :
    (∀ buf, crc32Result (crc32CtxHash crc32Initial buf) = reflected crc32Poly buf) ∧
      (∀ crc buf buf', crc32CtxHash crc (buf ++ buf') = crc32CtxHash (crc32CtxHash crc buf) buf') ∧
      (∀ crc val, crc32Hash16 crc val = crc32CtxHash crc (littleEndian 2 val)) ∧
      ∀ crc val, crc32Hash32 crc val = crc32CtxHash crc (littleEndian 4 val) :=
  ⟨crc32_result, crc32CtxHash_append, crc32Hash16_eq, crc32Hash32_eq⟩

example : crc32Result (crc32CtxHash crc32Initial [0x31, 0x32, 0x33, 0x34, 0x35, 0x36, 0x37, 0x38, 0x39]) = 0xCBF43926 := by
  decide +kernel

/-- The bytes of `n` words from place `i` on. -/
def payloadBytes (data : Nat → BitVec 32) (n i : Nat) : List (BitVec 8) :=
  (List.range' i n).flatMap fun k => littleEndian 4 (data k)

theorem payloadCrc_eq (data : Nat → BitVec 32) (n i : Nat) (crc : BitVec 32) :
    payloadCrc data n i crc = crc32CtxHash crc (payloadBytes data n i) := by
  induction n generalizing i crc with
  | zero => rfl
  | succ n ih =>
    rw [payloadCrc, ih, crc32Hash32_eq, payloadBytes, payloadBytes, List.range'_succ, List.flatMap_cons,
      crc32CtxHash_append]

/-- The CRC that closes a message is that of the bytes of its header and its payload. -/
theorem messageCrc_eq (header : BitVec 16) (cnt : Nat) (data : Nat → BitVec 32) :
    messageCrc header cnt data = reflected crc32Poly (littleEndian 2 header ++ payloadBytes data cnt 0) := by
  rw [messageCrc, payloadCrc_eq, crc32Hash16_eq, ← crc32CtxHash_append]
  exact crc32_result _

/-- The bits of a message that its CRC is about, in the order in which they go over the line. -/
def messageBits (header : BitVec 16) (cnt : Nat) (data : Nat → BitVec 32) : List Bool :=
  (littleEndian 2 header ++ payloadBytes data cnt 0).flatMap (lowBits 8)

/-- Of two messages that differ within 32 bits in a row only, wherever these are in header and payload, the CRCs differ. -/
theorem messageCrc_burst {header header' : BitVec 16} {cnt cnt' : Nat} {data data' : Nat → BitVec 32}
    {front bits bits' rest : List Bool} (h : messageBits header cnt data = front ++ (bits ++ rest))
    (h' : messageBits header' cnt' data' = front ++ (bits' ++ rest)) (hlen : bits.length = bits'.length)
    (hshort : bits.length ≤ 32) : messageCrc header cnt data = messageCrc header' cnt' data' ↔ bits = bits' := by
  have hconstant : crc32Poly.getLsbD 0 = true := by decide
  rw [messageCrc_eq, messageCrc_eq, reflected, reflected, ← messageBits, ← messageBits, h, h',
    ← burst_iff hconstant hlen hshort]
  constructor
  · intro hcrc
    have hreverse := congrArg BitVec.reverse (BitVec.not_inj.mp hcrc)
    rwa [BitVec.reverse_reverse_eq, BitVec.reverse_reverse_eq] at hreverse
  · exact fun hregister => by rw [hregister]

/-- A word whose bits are all inverted. -/
theorem messageCrc_burst_word : messageCrc 0x1161 1 (fun _ => 0) ≠ messageCrc 0x1161 1 fun _ => 0xFFFFFFFF := by
  have h : messageBits 0x1161 1 (fun _ => 0) = lowBits 16 0x1161#16 ++ (List.replicate 32 false ++ []) := by decide
  have h' : messageBits 0x1161 1 (fun _ => 0xFFFFFFFF) =
    lowBits 16 0x1161#16 ++ (List.replicate 32 true ++ []) := by decide
  exact fun hcrc => absurd ((messageCrc_burst h h' rfl (Nat.le_refl 32)).mp hcrc) (by decide)

end ChromeEc.PdPhy
