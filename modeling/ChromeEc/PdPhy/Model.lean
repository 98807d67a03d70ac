import Mathlib.Data.Nat.Notation

/- The physical layer of USB PD, `common/usb_pd_tcpc.c`, with the CRC of `common/crc.c`.

  A message is written symbol by symbol and read bits by bits, by functions of the chip: these are a
  parameter (`Chip`), with their own states for sending and receiving. What is here is the encoding
  in groups of 5 bits, the frame around the message, and their inverse. `*val` is left alone by a
  `pd_dequeue_bits` that fails, hence its `Option`; `Chip.w` is what a variable holds that nothing has
  been written to. The search for the start of the packet goes on as long as there are bits, so it is
  given a bound.

  Correspondence (C ↔ Lean):
    `BMC`, `bmc4b5b`, `dec4b5b`, `crc32_hash16`, `crc32_hash32`, `encode_short`, `encode_word`,
      `prepare_message`, `decode_short`, `decode_word` ↔ the same in camelCase
    `PD_SOP`, `PD_SOP_PRIME`, ... ↔ `Sop.pattern`
    the parts of `pd_analyze_rx` ↔ `findSop`, `readPayload`, `readTrailer`, `pdAnalyzeRx` -/
namespace ChromeEc.PdPhy

/-! ## The line code -/

/-- BMC(x): 5 bits as 10 half periods. -/
def bmc (x : BitVec 5) : BitVec 32 :=
  (if x.getLsbD 0 then 0x001 else 0x3FF) ^^^ (if x.getLsbD 1 then 0x004 else 0x3FC) ^^^
    (if x.getLsbD 2 then 0x010 else 0x3F0) ^^^ (if x.getLsbD 3 then 0x040 else 0x3C0) ^^^
    (if x.getLsbD 4 then 0x100 else 0x300)

def bmc4b5b : List (BitVec 32) :=
  [bmc 0x1E, bmc 0x09, bmc 0x14, bmc 0x15, bmc 0x0A, bmc 0x0B, bmc 0x0E, bmc 0x0F,
   bmc 0x12, bmc 0x13, bmc 0x16, bmc 0x17, bmc 0x1A, bmc 0x1B, bmc 0x1C, bmc 0x1D]

/-- 0x10 is an error, and above it are the K-codes. -/
def dec4b5b : List (BitVec 16) :=
  [0x10, 0x10, 0x10, 0x10, 0x10, 0x10, 0x10, 0x13, 0x10, 0x01, 0x04, 0x05, 0x10, 0x15, 0x06, 0x07,
   0x10, 0x12, 0x08, 0x09, 0x02, 0x03, 0x0A, 0x0B, 0x11, 0x14, 0x0C, 0x0D, 0x0E, 0x0F, 0x00, 0x10]

def pdSync1 : BitVec 5 := 0x18
def pdSync2 : BitVec 5 := 0x11
def pdSync3 : BitVec 5 := 0x06
def pdEop : BitVec 5 := 0x0D

/-- The starts of a packet that are told apart. -/
inductive Sop where
  | sop
  | sopPrime
  | sopPrimePrime
  deriving DecidableEq

def kcodes (a b c d : BitVec 5) : BitVec 32 :=
  a.setWidth 32 ||| b.setWidth 32 <<< 5 ||| c.setWidth 32 <<< 10 ||| d.setWidth 32 <<< 15

def Sop.pattern : Sop → BitVec 32
  | sop => kcodes pdSync1 pdSync1 pdSync1 pdSync2
  | sopPrime => kcodes pdSync1 pdSync1 pdSync3 pdSync3
  | sopPrimePrime => kcodes pdSync1 pdSync3 pdSync1 pdSync3

/-- TCPCI_MSG_SOP and its like. -/
def Sop.type : Sop → BitVec 32
  | sop => 0
  | sopPrime => 1
  | sopPrimePrime => 2

def pdHeaderSop (type : BitVec 32) : BitVec 32 := (type &&& 0xf) <<< 28

def pdHeaderCnt (header : BitVec 16) : Nat := ((header >>> 12) &&& 7).toNat

/-! ## The CRC -/

def crc32Tab : List (BitVec 32) := [
  0x00000000, 0x77073096, 0xee0e612c, 0x990951ba, 0x076dc419, 0x706af48f, 0xe963a535, 0x9e6495a3, 0x0edb8832,
  0x79dcb8a4, 0xe0d5e91e, 0x97d2d988, 0x09b64c2b, 0x7eb17cbd, 0xe7b82d07, 0x90bf1d91, 0x1db71064, 0x6ab020f2,
  0xf3b97148, 0x84be41de, 0x1adad47d, 0x6ddde4eb, 0xf4d4b551, 0x83d385c7, 0x136c9856, 0x646ba8c0, 0xfd62f97a,
  0x8a65c9ec, 0x14015c4f, 0x63066cd9, 0xfa0f3d63, 0x8d080df5, 0x3b6e20c8, 0x4c69105e, 0xd56041e4, 0xa2677172,
  0x3c03e4d1, 0x4b04d447, 0xd20d85fd, 0xa50ab56b, 0x35b5a8fa, 0x42b2986c, 0xdbbbc9d6, 0xacbcf940, 0x32d86ce3,
  0x45df5c75, 0xdcd60dcf, 0xabd13d59, 0x26d930ac, 0x51de003a, 0xc8d75180, 0xbfd06116, 0x21b4f4b5, 0x56b3c423,
  0xcfba9599, 0xb8bda50f, 0x2802b89e, 0x5f058808, 0xc60cd9b2, 0xb10be924, 0x2f6f7c87, 0x58684c11, 0xc1611dab,
  0xb6662d3d, 0x76dc4190, 0x01db7106, 0x98d220bc, 0xefd5102a, 0x71b18589, 0x06b6b51f, 0x9fbfe4a5, 0xe8b8d433,
  0x7807c9a2, 0x0f00f934, 0x9609a88e, 0xe10e9818, 0x7f6a0dbb, 0x086d3d2d, 0x91646c97, 0xe6635c01, 0x6b6b51f4,
  0x1c6c6162, 0x856530d8, 0xf262004e, 0x6c0695ed, 0x1b01a57b, 0x8208f4c1, 0xf50fc457, 0x65b0d9c6, 0x12b7e950,
  0x8bbeb8ea, 0xfcb9887c, 0x62dd1ddf, 0x15da2d49, 0x8cd37cf3, 0xfbd44c65, 0x4db26158, 0x3ab551ce, 0xa3bc0074,
  0xd4bb30e2, 0x4adfa541, 0x3dd895d7, 0xa4d1c46d, 0xd3d6f4fb, 0x4369e96a, 0x346ed9fc, 0xad678846, 0xda60b8d0,
  0x44042d73, 0x33031de5, 0xaa0a4c5f, 0xdd0d7cc9, 0x5005713c, 0x270241aa, 0xbe0b1010, 0xc90c2086, 0x5768b525,
  0x206f85b3, 0xb966d409, 0xce61e49f, 0x5edef90e, 0x29d9c998, 0xb0d09822, 0xc7d7a8b4, 0x59b33d17, 0x2eb40d81,
  0xb7bd5c3b, 0xc0ba6cad, 0xedb88320, 0x9abfb3b6, 0x03b6e20c, 0x74b1d29a, 0xead54739, 0x9dd277af, 0x04db2615,
  0x73dc1683, 0xe3630b12, 0x94643b84, 0x0d6d6a3e, 0x7a6a5aa8, 0xe40ecf0b, 0x9309ff9d, 0x0a00ae27, 0x7d079eb1,
  0xf00f9344, 0x8708a3d2, 0x1e01f268, 0x6906c2fe, 0xf762575d, 0x806567cb, 0x196c3671, 0x6e6b06e7, 0xfed41b76,
  0x89d32be0, 0x10da7a5a, 0x67dd4acc, 0xf9b9df6f, 0x8ebeeff9, 0x17b7be43, 0x60b08ed5, 0xd6d6a3e8, 0xa1d1937e,
  0x38d8c2c4, 0x4fdff252, 0xd1bb67f1, 0xa6bc5767, 0x3fb506dd, 0x48b2364b, 0xd80d2bda, 0xaf0a1b4c, 0x36034af6,
  0x41047a60, 0xdf60efc3, 0xa867df55, 0x316e8eef, 0x4669be79, 0xcb61b38c, 0xbc66831a, 0x256fd2a0, 0x5268e236,
  0xcc0c7795, 0xbb0b4703, 0x220216b9, 0x5505262f, 0xc5ba3bbe, 0xb2bd0b28, 0x2bb45a92, 0x5cb36a04, 0xc2d7ffa7,
  0xb5d0cf31, 0x2cd99e8b, 0x5bdeae1d, 0x9b64c2b0, 0xec63f226, 0x756aa39c, 0x026d930a, 0x9c0906a9, 0xeb0e363f,
  0x72076785, 0x05005713, 0x95bf4a82, 0xe2b87a14, 0x7bb12bae, 0x0cb61b38, 0x92d28e9b, 0xe5d5be0d, 0x7cdcefb7,
  0x0bdbdf21, 0x86d3d2d4, 0xf1d4e242, 0x68ddb3f8, 0x1fda836e, 0x81be16cd, 0xf6b9265b, 0x6fb077e1, 0x18b74777,
  0x88085ae6, 0xff0f6a70, 0x66063bca, 0x11010b5c, 0x8f659eff, 0xf862ae69, 0x616bffd3, 0x166ccf45, 0xa00ae278,
  0xd70dd2ee, 0x4e048354, 0x3903b3c2, 0xa7672661, 0xd06016f7, 0x4969474d, 0x3e6e77db, 0xaed16a4a, 0xd9d65adc,
  0x40df0b66, 0x37d83bf0, 0xa9bcae53, 0xdebb9ec5, 0x47b2cf7f, 0x30b5ffe9, 0xbdbdf21c, 0xcabac28a, 0x53b39330,
  0x24b4a3a6, 0xbad03605, 0xcdd70693, 0x54de5729, 0x23d967bf, 0xb3667a2e, 0xc4614ab8, 0x5d681b02, 0x2a6f2b94,
  0xb40bbe37, 0xc30c8ea1, 0x5a05df1b, 0x2d02ef8d]

def crc32Initial : BitVec 32 := 0xFFFFFFFF

/-- One turn of the loop of _crc32_hash. -/
def crc32Byte (crc : BitVec 32) (b : BitVec 8) : BitVec 32 :=
  let crc := crc ^^^ b.setWidth 32
  crc32Tab.getD (crc &&& 0xFF).toNat 0 ^^^ (crc >>> 8)

def crc32Hash16 (crc : BitVec 32) (val : BitVec 16) : BitVec 32 :=
  [val.setWidth 8, (val >>> 8).setWidth 8].foldl crc32Byte crc

def crc32Hash32 (crc val : BitVec 32) : BitVec 32 :=
  [val.setWidth 8, (val >>> 8).setWidth 8, (val >>> 16).setWidth 8, (val >>> 24).setWidth 8].foldl crc32Byte crc

def crc32Result (crc : BitVec 32) : BitVec 32 := crc ^^^ 0xFFFFFFFF

/-! ## The chip -/

/-- The functions of the chip. A position on the line is an `int`. -/
structure Chip where
  Tx : Type
  Rx : Type
  pdWritePreamble : Tx → Int × Tx
  pdWriteSym : Tx → Int → BitVec 32 → Int × Tx
  pdWriteLastEdge : Tx → Int → Int × Tx
  pdInitDequeue : Rx → Rx
  pdFindPreamble : Rx → Int × Rx
  pdDequeueBits : Rx → Int → Nat → Int × Option (BitVec 32) × Rx
  /-- What is received of what was sent -/
  line : Tx → Rx
  w : BitVec 32

structure Build where
  /-- CONFIG_USB_VPD or CONFIG_USB_CTVPD -/
  vpd : Bool
  /-- CONFIG_USB_PD_DECODE_SOP -/
  decodeSop : Bool

section

variable (c : Chip) (b : Build)

/-! ## Sending -/

/-- A position, and the state of the sender. -/
abbrev Out := Int × c.Tx

def writeSym (sym : BitVec 32) (out : Out c) : Out c := c.pdWriteSym out.2 out.1 sym

def encodeShort (val16 : BitVec 16) (out : Out c) : Out c :=
  let out := writeSym c (bmc4b5b.getD ((val16 >>> 0) &&& 0xF).toNat 0) out
  let out := writeSym c (bmc4b5b.getD ((val16 >>> 4) &&& 0xF).toNat 0) out
  let out := writeSym c (bmc4b5b.getD ((val16 >>> 8) &&& 0xF).toNat 0) out
  writeSym c (bmc4b5b.getD ((val16 >>> 12) &&& 0xF).toNat 0) out

def encodeWord (val32 : BitVec 32) (out : Out c) : Out c :=
  encodeShort c (((val32 >>> 16) &&& 0xFFFF).setWidth 16) (encodeShort c (((val32 >>> 0) &&& 0xFFFF).setWidth 16) out)

/-- The start of a packet, as it is sent. -/
def writeSop (out : Out c) : Out c :=
  if b.vpd then writeSym c (bmc pdSync3)
    (writeSym c (bmc pdSync3) (writeSym c (bmc pdSync1) (writeSym c (bmc pdSync1) out)))
  else writeSym c (bmc pdSync2) (writeSym c (bmc pdSync1) (writeSym c (bmc pdSync1) (writeSym c (bmc pdSync1) out)))

def writePayload (data : Nat → BitVec 32) : Nat → Nat → BitVec 32 → Out c → BitVec 32 × Out c
  | 0, _, crc, out => (crc, out)
  | n + 1, i, crc, out => writePayload data n (i + 1) (crc32Hash32 crc (data i)) (encodeWord c (data i) out)

def prepareMessage (tx : c.Tx) (header : BitVec 16) (cnt : Nat) (data : Nat → BitVec 32) : Out c :=
  let out := encodeShort c header (writeSop c b (c.pdWritePreamble tx))
  let (crc, out) := writePayload c data cnt 0 (crc32Hash16 crc32Initial header) out
  let out := writeSym c (bmc pdEop) (encodeWord c (crc32Result crc) out)
  c.pdWriteLastEdge out.2 out.1

/-! ## Receiving -/

/-- A position, and the state of the receiver. -/
abbrev In := Int × c.Rx

/-- pd_dequeue_bits into a variable that holds `val`. -/
def dequeueBits (len : Nat) (val : BitVec 32) (inp : In c) : BitVec 32 × In c :=
  let (bit, read, rx) := c.pdDequeueBits inp.2 inp.1 len
  (read.getD val, bit, rx)

def decodeGroup (w : BitVec 32) (shift : Nat) : BitVec 16 := dec4b5b.getD ((w >>> shift) &&& 0x1f).toNat 0

def decodeShort (inp : In c) : BitVec 16 × In c :=
  let (w, inp) := dequeueBits c 20 c.w inp
  (decodeGroup w 0 ||| decodeGroup w 5 <<< 4 ||| decodeGroup w 10 <<< 8 ||| decodeGroup w 15 <<< 12, inp)

def decodeWord (inp : In c) : BitVec 32 × In c :=
  let (lo, inp) := decodeShort c inp
  let (hi, inp) := decodeShort c inp
  (hi ++ lo, inp)

def pdRxErrHardReset : Int := -2
def pdRxErrCrc : Int := -3
def pdRxErrUnsupportedSop : Int := -5
def pdRxErrCableReset : Int := -6

/-- The start of a packet that the receiver goes on with. -/
def Build.takes : Sop → Bool
  | .sop => !b.vpd
  | .sopPrime => b.vpd || b.decodeSop
  | .sopPrimePrime => !b.vpd && b.decodeSop

/-- The start of a packet that the bits are. -/
def sopOf (val : BitVec 32) : Option Sop :=
  if val = Sop.sop.pattern then some .sop
  else if val = Sop.sopPrime.pattern then some .sopPrime
  else if val = Sop.sopPrimePrime.pattern then some .sopPrimePrime
  else none

inductive Search where
  | unsupported
  | ended (val : BitVec 32) (inp : In c)

def findSop : Nat → BitVec 32 → In c → Option (Search c)
  | 0, _, _ => none
  | fuel + 1, val, inp =>
    if 0 < inp.1 then
      let (val, inp) := dequeueBits c 20 val inp
      match sopOf val with
      -- a start for somebody else ends the search
      | some s => if b.takes s then some (.ended val inp) else some .unsupported
      | none => findSop fuel val inp
    else some (.ended val inp)

/-- phs.head of a header behind this start, or `none` if that is no start. -/
def messageHead (val : BitVec 32) (header : BitVec 16) : Option (BitVec 32) :=
  if b.decodeSop then (sopOf val).map fun s => header.setWidth 32 ||| pdHeaderSop s.type
  else some (header.setWidth 32)

/-- The loop over the payload: what is left to read, and where in the array. -/
def readPayload : Nat → Nat → BitVec 32 → (Nat → BitVec 32) → In c → BitVec 32 × (Nat → BitVec 32) × In c
  | 0, _, crc, payload, inp => (crc, payload, inp)
  | n + 1, p, crc, payload, inp =>
    if 0 < inp.1 then
      let (val, inp) := decodeWord c inp
      readPayload n (p + 1) (crc32Hash32 crc val) (fun i => if i = p then val else payload i) inp
    else (crc, payload, inp)

/-- The CRC and the end of the packet, whose last bit is left out. -/
def readTrailer (ccrc head : BitVec 32) (inp : In c) : Int :=
  let (pcrc, inp) := decodeWord c inp
  -- a wrong CRC is reported as such, even where the bits ran out
  if inp.1 < 0 ∨ pcrc ≠ ccrc then if pcrc ≠ ccrc then pdRxErrCrc else inp.1
  else
    let (eop, inp) := dequeueBits c 4 c.w inp
    if inp.1 < 0 ∨ eop ≠ pdEop.setWidth 32 then inp.1 else head.toInt

/-- From the header on. -/
def readMessage (val : BitVec 32) (payload : Nat → BitVec 32) (inp : In c) : Int × (Nat → BitVec 32) :=
  let (header, inp) := decodeShort c inp
  match messageHead b val header with
  | none => (inp.1, payload)
  | some head =>
    let (crc, payload, inp) := readPayload c (pdHeaderCnt header) 0 (crc32Hash16 crc32Initial header) payload inp
    if inp.1 < 0 then (inp.1, payload) else (readTrailer c (crc32Result crc) head inp, payload)

/-- What is returned, and the payload. `none` is a search that the bound cut short. -/
def pdAnalyzeRx (fuel : Nat) (rx : c.Rx) (payload : Nat → BitVec 32) : Option (Int × (Nat → BitVec 32)) :=
  let inp := c.pdFindPreamble (c.pdInitDequeue rx)
  if inp.1 = pdRxErrHardReset ∨ inp.1 = pdRxErrCableReset then some (inp.1, payload)
  else if inp.1 < 0 then some (inp.1, payload)
  else
    match findSop c b fuel 0 inp with
    | none => none
    | some .unsupported => some (pdRxErrUnsupportedSop, payload)
    | some (.ended val inp) => if inp.1 < 0 then some (inp.1, payload) else some (readMessage c b val payload inp)

end

end ChromeEc.PdPhy
