import Mathlib.Algebra.Group.Nat.Defs
import Mathlib.Data.List.Basic
import ChromeEc.Lib.Ring

/- Messages of USB Power Delivery, `include/usb_pd.h` and `usb_pd_tcpm.h`, and the
  types the protocol layer shares with its neighbours.

  The driver puts the SOP* of a packet into bits 28 to 31 of the header. Here the
  header is the pair of that type and the 16 bits that were on the wire.

  Correspondence (C ↔ Lean):
    `enum tcpci_msg_type` ↔ `TcpciMsgType`, its first values `SopStar`
    `PD_HEADER`, `PD_HEADER_EXT`, .. ↔ `pdHeader`, `PdHeader.ext`, ..
    `PD_EXT_HEADER`,
    `PD_EXT_HEADER_CHUNK_NUM`, .. ↔ `pdExtHeader`, `pdExtHeaderChunkNum`, ..
    `struct cached_tcpm_message` ↔ `RxMessage`
  What is proved: the fields of a header that was put together from fields in range
  are those fields, for an extended header and for the count of a header. -/
namespace ChromeEc.UsbPrl

def EXTENDED_BUFFER_SIZE : Nat := 260

def PD_MAX_EXTENDED_MSG_CHUNK_LEN : Nat := 26

def CHK_BUF_SIZE_BYTES : Nat := 28

def PD_CTRL_PING : BitVec 8 := 5

def PD_CTRL_SOFT_RESET : BitVec 8 := 13

/-- The values of `enum tcpci_msg_type` below `NUM_SOP_STAR_TYPES`. -/
inductive SopStar where
  | sop
  | sopPrime
  | sopPrimePrime
  | sopDebugPrime
  | sopDebugPrimePrime
  deriving DecidableEq

def SopStar.all : List SopStar :=
  [.sop, .sopPrime, .sopPrimePrime, .sopDebugPrime, .sopDebugPrimePrime]

inductive TcpciMsgType where
  | sopStar (type : SopStar)
  | txHardReset
  | cableReset
  | txBistMode2
  | invalid
  deriving DecidableEq

inductive PdRevType where
  | rev10
  | rev20
  | rev30
  deriving DecidableEq

def PdRevType.code : PdRevType → BitVec 32
  | .rev10 => 0
  | .rev20 => 1
  | .rev30 => 2

inductive PdPowerRole where
  | sink
  | source
  deriving DecidableEq

def PdPowerRole.code : PdPowerRole → BitVec 32
  | .sink => 0
  | .source => 1

inductive PdDataRole where
  | ufp
  | dfp
  | disconnected
  deriving DecidableEq

def PdDataRole.code : PdDataRole → BitVec 32
  | .ufp => 0
  | .dfp => 1
  | .disconnected => 2

inductive PdCablePlug where
  | fromDfpUfp
  | fromCable
  deriving DecidableEq

def PdCablePlug.code : PdCablePlug → BitVec 32
  | .fromDfpUfp => 0
  | .fromCable => 1

inductive TcpcCcVoltageStatus where
  | open
  | ra
  | rd
  | rpDef
  | rp15
  | rp30
  deriving DecidableEq

inductive TcpcTransmitComplete where
  | unset
  | wait
  | success
  | discarded
  | failed
  deriving DecidableEq

inductive PeError where
  | rchChunked
  | rchMsgRec
  | rchChunkWaitTimeout
  | tchChunked
  | tchXmit
  deriving DecidableEq

/-! ## The message header -/

def pdHeader (type : BitVec 8) (prole drole id cnt rev : BitVec 32) (ext : Bool) : BitVec 32 :=
  type.setWidth 32 ||| (rev <<< 6) ||| (drole <<< 5) ||| (prole <<< 8) ||| (id <<< 9) |||
    (cnt <<< 12) ||| ((BitVec.ofBool ext).setWidth 32 <<< 15)

structure PdHeader where
  sop : SopStar
  bits : BitVec 16
  deriving DecidableEq

namespace PdHeader

/-- `PD_HEADER_EXT`. -/
def ext (h : PdHeader) : Bool := h.bits.getLsbD 15

/-- `PD_HEADER_CNT`. -/
def cnt (h : PdHeader) : Nat := ((h.bits >>> 12) &&& 7).toNat

/-- `PD_HEADER_TYPE`. -/
def type (h : PdHeader) : BitVec 8 := (h.bits &&& 0x1f).setWidth 8

/-- `PD_HEADER_ID`. -/
def id (h : PdHeader) : Nat := ((h.bits >>> 9) &&& 7).toNat

/-- `PD_HEADER_PROLE`. -/
def prole (h : PdHeader) : BitVec 32 := ((h.bits >>> 8) &&& 1).setWidth 32

/-- `PD_HEADER_DROLE`. -/
def drole (h : PdHeader) : BitVec 32 := ((h.bits >>> 5) &&& 1).setWidth 32

theorem cnt_le (h : PdHeader) : h.cnt ≤ 7 := by
  rw [cnt, BitVec.toNat_and]
  exact Nat.and_le_right

end PdHeader

theorem getLsbD_of_toNat_lt {w k i : Nat} {x : BitVec w} (h : x.toNat < 2 ^ k) (hi : k ≤ i) :
    x.getLsbD i = false := by
  rw [BitVec.getLsbD]
  exact Nat.testBit_lt_two_pow (Nat.lt_of_lt_of_le h (Nat.pow_le_pow_right (by decide) hi))

theorem ext_pdHeader (t : SopStar) (type : BitVec 8) (prole drole id cnt rev : BitVec 32) :
    PdHeader.ext ⟨t, (pdHeader type prole drole id cnt rev true).setWidth 16⟩ = true := by
  simp [PdHeader.ext, pdHeader]

theorem field_of_bits {w : BitVec 32} {k v : Nat} (hk : k + 3 ≤ 16) (hv : v < 2 ^ 3)
    (h : ∀ i < 3, w.getLsbD (k + i) = v.testBit i) : ((w.setWidth 16 >>> k) &&& 7).toNat = v := by
  apply Nat.eq_of_testBit_eq
  intro i
  rw [BitVec.toNat_and, Nat.testBit_and, show (7 : BitVec 16).toNat = 2 ^ 3 - 1 from rfl, Nat.testBit_two_pow_sub_one]
  by_cases hlt : i < 3
  · have hin : k + i < 16 := by omega
    rw [← h i hlt, ← BitVec.getLsbD, BitVec.getLsbD_ushiftRight, BitVec.getLsbD_setWidth]
    simp [hlt, hin]
  · rw [Nat.testBit_lt_two_pow (Nat.lt_of_lt_of_le hv (Nat.pow_le_pow_right (by decide) (Nat.le_of_not_lt hlt)))]
    simp [hlt]

theorem cnt_pdHeader (t : SopStar) (type : BitVec 8) {prole drole id rev : BitVec 32} {cnt : Nat}
    (ext : Bool) (hprole : prole.toNat < 2 ^ 4) (hdrole : drole.toNat < 2 ^ 7)
    (hid : id.toNat < 2 ^ 3) (hrev : rev.toNat < 2 ^ 6) (hcnt : cnt < 2 ^ 3) :
    PdHeader.cnt ⟨t, (pdHeader type prole drole id (BitVec.ofNat 32 cnt) rev ext).setWidth 16⟩ =
      cnt := by
  refine field_of_bits (by decide) hcnt fun i hlt => ?_
  simp only [pdHeader, BitVec.getLsbD_setWidth, BitVec.getLsbD_or,
    BitVec.getLsbD_shiftLeft, getLsbD_of_toNat_lt hprole (show 4 ≤ 12 + i - 8 by omega),
    getLsbD_of_toNat_lt hdrole (show 7 ≤ 12 + i - 5 by omega),
    getLsbD_of_toNat_lt hid (show 3 ≤ 12 + i - 9 by omega),
    getLsbD_of_toNat_lt hrev (show 6 ≤ 12 + i - 6 by omega),
    getLsbD_of_toNat_lt type.isLt (show 8 ≤ 12 + i by omega)]
  have hbit : (BitVec.ofNat 32 cnt).getLsbD (12 + i - 12) = cnt.testBit i := by
    rw [Nat.add_sub_cancel_left, BitVec.getLsbD, BitVec.toNat_ofNat, Nat.mod_eq_of_lt (by omega)]
  have hlt₁₂ : ¬12 + i < 12 := by omega
  have hlt₁₅ : 12 + i < 15 := by omega
  have hlt₃₂ : 12 + i < 32 := by omega
  rw [hbit]
  simp [hlt₁₂, hlt₁₅, hlt₃₂]

theorem id_pdHeader (t : SopStar) (type : BitVec 8) {prole drole id rev : BitVec 32} (cnt : BitVec 32)
    (ext : Bool) (hprole : prole.toNat < 2 ^ 1) (hdrole : drole.toNat < 2 ^ 4)
    (hid : id.toNat < 2 ^ 3) (hrev : rev.toNat < 2 ^ 3) :
    PdHeader.id ⟨t, (pdHeader type prole drole id cnt rev ext).setWidth 16⟩ = id.toNat := by
  refine field_of_bits (by decide) hid fun i hlt => ?_
  simp only [pdHeader, BitVec.getLsbD_setWidth, BitVec.getLsbD_or,
    BitVec.getLsbD_shiftLeft, getLsbD_of_toNat_lt hprole (show 1 ≤ 9 + i - 8 by omega),
    getLsbD_of_toNat_lt hdrole (show 4 ≤ 9 + i - 5 by omega),
    getLsbD_of_toNat_lt hrev (show 3 ≤ 9 + i - 6 by omega),
    getLsbD_of_toNat_lt type.isLt (show 8 ≤ 9 + i by omega), Nat.add_sub_cancel_left]
  have hlt₉ : ¬9 + i < 9 := by omega
  have hlt₁₂ : 9 + i < 12 := by omega
  have hlt₁₅ : 9 + i < 15 := by omega
  have hlt₃₂ : 9 + i < 32 := by omega
  simp [hlt₉, hlt₁₂, hlt₁₅, hlt₃₂, BitVec.getLsbD]

/-! ## The extended header -/

def pdExtHeader (cnum : Nat) (rchk : Bool) (dsize : Nat) : BitVec 32 :=
  BitVec.twoPow 32 15 ||| (BitVec.ofNat 32 cnum <<< 11) |||
    ((BitVec.ofBool rchk).setWidth 32 <<< 10) ||| BitVec.ofNat 32 dsize

def pdExtHeaderChunked (h : BitVec 16) : Bool := h.getLsbD 15

def pdExtHeaderChunkNum (h : BitVec 16) : Nat := ((h >>> 11) &&& 0xf).toNat

def pdExtHeaderReqChunk (h : BitVec 16) : Bool := h.getLsbD 10

def pdExtHeaderDataSize (h : BitVec 16) : Nat := (h &&& 0x1ff).toNat

theorem pdExtHeaderDataSize_lt (h : BitVec 16) : pdExtHeaderDataSize h < 512 := by
  rw [pdExtHeaderDataSize, BitVec.toNat_and]
  exact Nat.lt_succ_of_le Nat.and_le_right

/-- The 16 bits at the start of a chunk, least significant byte first. -/
def le16 (lo hi : UInt8) : BitVec 16 := hi.toBitVec ++ lo.toBitVec

def wordBytes (w : BitVec 32) (i : Nat) : UInt8 := UInt8.ofBitVec ((w >>> (8 * i)).setWidth 8)

theorem le16_wordBytes (w : BitVec 32) : le16 (wordBytes w 0) (wordBytes w 1) = w.setWidth 16 := by
  apply BitVec.eq_of_getLsbD_eq
  intro i hi
  simp only [le16, wordBytes, UInt8.toBitVec_ofBitVec, BitVec.getLsbD_append, BitVec.getLsbD_setWidth,
    BitVec.getLsbD_ushiftRight]
  by_cases h : i < 8
  · simp [h, hi]
  · have hsub : i - 8 < 8 := by omega
    have hadd : 8 + (i - 8) = i := by omega
    simp [h, hi, hsub, hadd]

section

variable {cnum dsize : Nat} (rchk : Bool)

theorem toNat_pdExtHeader (hc : cnum < 16) (hd : dsize < 1024) :
    (pdExtHeader cnum rchk dsize).toNat = 2 ^ 15 + cnum * 2 ^ 11 + rchk.toNat * 2 ^ 10 + dsize := by
  have hr : rchk.toNat ≤ 1 := Bool.toNat_le rchk
  have h₁ : rchk.toNat * 2 ^ 10 ||| dsize = rchk.toNat * 2 ^ 10 + dsize := by
    rw [Nat.mul_comm]
    exact (Nat.two_pow_add_eq_or_of_lt hd _).symm
  have h₂ : cnum * 2 ^ 11 ||| (rchk.toNat * 2 ^ 10 + dsize) =
      cnum * 2 ^ 11 + (rchk.toNat * 2 ^ 10 + dsize) := by
    rw [Nat.mul_comm cnum]
    exact (Nat.two_pow_add_eq_or_of_lt (by omega) _).symm
  have h₃ : 2 ^ 15 ||| (cnum * 2 ^ 11 + (rchk.toNat * 2 ^ 10 + dsize)) =
      2 ^ 15 + (cnum * 2 ^ 11 + (rchk.toNat * 2 ^ 10 + dsize)) := by
    have := Nat.two_pow_add_eq_or_of_lt
      (i := 15) (b := cnum * 2 ^ 11 + (rchk.toNat * 2 ^ 10 + dsize)) (by omega) 1
    rw [Nat.mul_one] at this
    exact this.symm
  simp only [pdExtHeader, BitVec.toNat_or, BitVec.toNat_shiftLeft, BitVec.toNat_ofNat,
    BitVec.toNat_setWidth, BitVec.toNat_ofBool, BitVec.toNat_twoPow, Nat.shiftLeft_eq]
  rw [Nat.mod_eq_of_lt (a := 2 ^ 15) (by decide), Nat.mod_eq_of_lt (a := cnum) (by omega),
    Nat.mod_eq_of_lt (a := rchk.toNat) (by omega), Nat.mod_eq_of_lt (a := dsize) (by omega),
    Nat.mod_eq_of_lt (a := cnum * 2 ^ 11) (by omega),
    Nat.mod_eq_of_lt (a := rchk.toNat * 2 ^ 10) (by omega),
    Nat.or_assoc, Nat.or_assoc, h₁, h₂, h₃]
  omega

theorem toNat_setWidth_pdExtHeader (hc : cnum < 16) (hd : dsize < 1024) :
    ((pdExtHeader cnum rchk dsize).setWidth 16).toNat =
      2 ^ 15 + cnum * 2 ^ 11 + rchk.toNat * 2 ^ 10 + dsize := by
  have hr : rchk.toNat ≤ 1 := Bool.toNat_le rchk
  rw [BitVec.toNat_setWidth, toNat_pdExtHeader rchk hc hd]
  exact Nat.mod_eq_of_lt (by omega)

theorem chunkNum_pdExtHeader (hc : cnum < 16) (hd : dsize < 1024) :
    pdExtHeaderChunkNum ((pdExtHeader cnum rchk dsize).setWidth 16) = cnum := by
  have hr : rchk.toNat ≤ 1 := Bool.toNat_le rchk
  simp only [pdExtHeaderChunkNum, BitVec.toNat_and, BitVec.toNat_ushiftRight,
    toNat_setWidth_pdExtHeader rchk hc hd, Nat.shiftRight_eq_div_pow]
  rw [show BitVec.toNat (15 : BitVec 16) = 2 ^ 4 - 1 from rfl, Nat.and_two_pow_sub_one_eq_mod]
  omega

theorem dataSize_pdExtHeader (hc : cnum < 16) (hd : dsize < 512) :
    pdExtHeaderDataSize ((pdExtHeader cnum rchk dsize).setWidth 16) = dsize := by
  simp only [pdExtHeaderDataSize, BitVec.toNat_and,
    toNat_setWidth_pdExtHeader rchk hc (by omega : dsize < 1024)]
  rw [show BitVec.toNat (511 : BitVec 16) = 2 ^ 9 - 1 from rfl, Nat.and_two_pow_sub_one_eq_mod]
  omega

theorem chunked_pdExtHeader :
    pdExtHeaderChunked ((pdExtHeader cnum rchk dsize).setWidth 16) = true := by
  simp [pdExtHeaderChunked, pdExtHeader]

theorem reqChunk_pdExtHeader (hc : cnum < 16) (hd : dsize < 1024) :
    pdExtHeaderReqChunk ((pdExtHeader cnum rchk dsize).setWidth 16) = rchk := by
  simp only [pdExtHeaderReqChunk, BitVec.getLsbD, toNat_setWidth_pdExtHeader rchk hc hd,
    Nat.testBit_eq_decide_div_mod_eq]
  cases rchk
  · simp
    omega
  · simp
    omega

end

/-! ## Received messages -/

/-- `struct cached_tcpm_message`: the header, and the bytes that came after it. The
driver takes as many of them as the TCPC counted, whatever number of objects the
header states, and no more than the payload has room for. -/
structure RxMessage where
  header : PdHeader
  data : List UInt8
  data_le : data.length ≤ CHK_BUF_SIZE_BYTES
  deriving DecidableEq

namespace RxMessage

def payload (m : RxMessage) (i : Nat) : UInt8 := m.data.getD i 0

def extHeader (m : RxMessage) : BitVec 16 := le16 (m.payload 0) (m.payload 1)

end RxMessage

end ChromeEc.UsbPrl
