import Mathlib.Algebra.Group.Int.Defs
import Mathlib.Algebra.Group.Nat.Defs
import Mathlib.Logic.Function.Iterate
import ChromeEc.Lib.Memory

/- The board info store: common/cbi.c, common/crc8.c.

  `cbi` is an array of CBI_IMAGE_SIZE bytes. It is a memory here: the bytes from
  CBI_IMAGE_SIZE on are whatever lies behind the array. A pointer into it is its offset
  from the start of the array, and enum cbi_data_tag is 32 bits wide, as the tag of a
  host command is. `size_t` is 32 bits wide. -/
namespace ChromeEc.Cbi

open ChromeEc.Lib.Memory

abbrev Image := Nat → UInt8

/-- The return codes that the functions below give, of both enumerations. -/
inductive Rv where
  | success
  | errorUnknown
  | errorInval
  | errorOverflow
  | errorAccessDenied
  | resError
  | resInvalidParam
  | resAccessDenied
  deriving DecidableEq, Repr

/-- The build: 256 bytes with an EEPROM and in flash, 20 with CONFIG_CBI_GPIO. -/
structure Config where
  imageSize : Nat
  systemUnlocked : Bool
  gpioStorage : Bool
  header_fits : 8 ≤ imageSize
  size_fits : imageSize ≤ 0xFFFF

def eeprom : Config where
  imageSize := 256
  systemUnlocked := false
  gpioStorage := false
  header_fits := by decide
  size_fits := by decide

/-! ## struct cbi_header, struct cbi_data -/

def cbiVersionMajor : UInt8 := 0
def cbiVersionMinor : UInt8 := 0

/-- sizeof(struct cbi_header): magic, crc, minor and major version, total_size. -/
def sizeofHeader : Nat := 8

/-- sizeof(struct cbi_data): tag and size. -/
def sizeofData : Nat := 2

def hasMagic (m : Image) : Bool := m 0 == 0x43 && m 1 == 0x42 && m 2 == 0x49

def crc (m : Image) : UInt8 := m 3
def minorVersion (m : Image) : UInt8 := m 4
def majorVersion (m : Image) : UInt8 := m 5
def totalSize (m : Image) : Nat := (m 6).toNat + 256 * (m 7).toNat

def dataTag (m : Image) (d : Nat) : UInt8 := m d
def dataSize (m : Image) (d : Nat) : Nat := (m (d + 1)).toNat

def setMagic (m : Image) : Image := Function.update (Function.update (Function.update m 0 0x43) 1 0x42) 2 0x49

def setCrc (m : Image) (crc : UInt8) : Image := Function.update m 3 crc

def setVersion (m : Image) : Image := Function.update (Function.update m 4 cbiVersionMinor) 5 cbiVersionMajor

def setTotalSize (m : Image) (n : Nat) : Image :=
  Function.update (Function.update m 6 (UInt8.ofNat n)) 7 (UInt8.ofNat (n / 256))

/-! ## crc8.c -/

def crcBit (crc : UInt32) : UInt32 := (if crc &&& 0x8000 ≠ 0 then crc ^^^ ((0x1070 : UInt32) <<< 3) else crc) <<< 1

def crcByte (crc : UInt32) (data : UInt8) : UInt32 := crcBit^[8] (crc ^^^ (data.toUInt32 <<< 8))

def crcLoop (m : Image) : Nat → Nat → UInt32 → UInt32
  | 0, _, crc => crc
  | j + 1, p, crc => crcLoop m j (p + 1) (crcByte crc (m p))

def crosCrc8 (m : Image) (p len : Nat) : UInt8 := (crcLoop m len p 0 >>> 8).toUInt8

/-- The bytes behind the crc, up to total_size. -/
def cbiCrc8 (m : Image) : UInt8 := crosCrc8 m 4 ((totalSize m + 2 ^ 32 - 4) % 2 ^ 32)

/-! ## The entries -/

/-- Where the next entry goes; an empty value leaves no entry. -/
def cbiSetData (m : Image) (p : Nat) (tag : UInt32) (buf : Nat → UInt8) (size : Nat) : Image × Nat :=
  if size = 0 then (m, p)
  else
    let m := Function.update (Function.update m p tag.toUInt8) (p + 1) (UInt8.ofNat size)
    (copy m (p + sizeofData) size buf, p + sizeofData + size)

/-- The loop of cbi_find_tag from `p` on; `none` when the fuel is spent. -/
def findFrom (m : Image) (tag : UInt32) : Nat → Nat → Option (Option Nat)
  | 0, _ => none
  | fuel + 1, p =>
    if p + sizeofData < totalSize m then
      if (dataTag m p).toUInt32 = tag then some (some p)
      else findFrom m tag fuel (p + sizeofData + dataSize m p)
    else some none

/-- cbi_find_tag. The loop advances by two at least, so that it ends before this fuel does. -/
def cbiFindTag (m : Image) (tag : UInt32) : Option Nat := (findFrom m tag (totalSize m + 1) sizeofHeader).join

/-- The difference of the pointers in cbi_remove_tag, before it becomes a size_t. -/
def bytesAfter (m : Image) (d : Nat) : Int := totalSize m - (d + (sizeofData + dataSize m d) : Nat)

def cbiRemoveTag (m : Image) (d : Nat) : Image :=
  let size := sizeofData + dataSize m d
  let total := totalSize m
  let moved := move m d (d + size) (bytesAfter m d % 2 ^ 32).toNat
  setTotalSize moved ((total + 0x10000 - size) % 0x10000)

def tagBoardVersion : UInt32 := 0
def tagOemId : UInt32 := 1

/-- The tags that a locked system sets only once. -/
def setOnce (cfg : Config) (tag : UInt32) : Bool :=
  !cfg.systemUnlocked && (tag == tagBoardVersion || tag == tagOemId)

/-- The end of cbi_set_board_info for a tag that is not in the image. -/
def appendItem (cfg : Config) (m : Image) (tag : UInt32) (buf : Nat → UInt8) (size : Nat) : Rv × Image :=
  if cfg.imageSize < totalSize m + sizeofData + size then (.errorOverflow, m)
  else
    let (m, p) := cbiSetData m (totalSize m) tag buf size
    (.success, setTotalSize m p)

/-- cbi_set_board_info; `size` is a uint8_t. -/
def cbiSetBoardInfo (cfg : Config) (m : Image) (tag : UInt32) (buf : Nat → UInt8) (size : UInt8) : Rv × Image :=
  match cbiFindTag m tag with
  | none => appendItem cfg m tag buf size.toNat
  | some d =>
    if setOnce cfg tag then (.resAccessDenied, m)
    else if dataSize m d ≠ size.toNat then appendItem cfg (cbiRemoveTag m d) tag buf size.toNat
    else (.success, copy m (d + sizeofData) (dataSize m d) buf)

/-! ## The cache and its storage -/

/-- `cbi` and `cache_status`. -/
structure Cache where
  image : Image
  synced : Bool

/-- What the storage driver answers while one function runs.

    A load of `len` bytes at an offset fails or not, and puts these bytes into the cache.
    is_protected reads a pin, and is asked twice by a command that writes. -/
structure Storage where
  load : Nat → Nat → Bool × (Nat → UInt8)
  isProtected : Bool
  isProtectedAtWrite : Bool
  storeFails : Bool

def bareHeader (m : Image) (imageSize : Nat) : Image := setTotalSize (setMagic (fill m 0 imageSize 0)) sizeofHeader

def cbiCreate (cfg : Config) (c : Cache) : Cache :=
  let m := setVersion (bareHeader c.image cfg.imageSize)
  { image := setCrc m (cbiCrc8 m), synced := true }

/-- Whether the header is one that this parser takes: magic, version and size. -/
def headerError (cfg : Config) (m : Image) : Option Rv :=
  if !hasMagic m then some .errorInval
  else if cbiVersionMajor < majorVersion m then some .errorInval
  else if totalSize m < sizeofHeader ∨ cfg.imageSize < totalSize m then some .errorOverflow
  else none

def isValidCbi (cfg : Config) (m : Image) : Bool := (headerError cfg m).isNone && cbiCrc8 m == crc m

def doCbiRead (cfg : Config) (drv : Storage) (m : Image) : Rv × Image :=
  let header := drv.load 0 sizeofHeader
  let m := copy m 0 sizeofHeader header.2
  if header.1 then (.errorInval, m)
  else
    match headerError cfg m with
    | some rv => (rv, m)
    | none =>
      let body := drv.load sizeofHeader (totalSize m - sizeofHeader)
      let m := copy m sizeofHeader (totalSize m - sizeofHeader) body.2
      if body.1 then (.errorInval, m)
      else if !cfg.gpioStorage && cbiCrc8 m != crc m then (.errorInval, m)
      else (.success, m)

/-- Two attempts; the driver answers each on its own. -/
def cbiRead (cfg : Config) (drv drv' : Storage) (c : Cache) : Rv × Cache :=
  if c.synced then (.success, c)
  else
    match doCbiRead cfg drv c.image with
    | (.success, m) => (.success, { image := m, synced := true })
    | (_, m) =>
      match doCbiRead cfg drv' m with
      | (.success, m) => (.success, { image := m, synced := true })
      | (rv, m) => (rv, { c with image := m })

/-- The weak cbi_board_override: the value is handed out as it is stored. -/
def cbiBoardOverride (buf : Nat → UInt8) (size : UInt8) : Rv × (Nat → UInt8) × UInt8 := (.success, buf, size)

/-- cbi_get_board_info once the cache is synced: the code, the caller's buffer and its size. -/
def getFromImage (m : Image) (tag : UInt32) (buf : Nat → UInt8) (size : UInt8) : Rv × (Nat → UInt8) × UInt8 :=
  match cbiFindTag m tag with
  | none => (.errorUnknown, buf, size)
  | some d =>
    if size.toNat < dataSize m d then (.errorInval, buf, size)
    else
      let cleared := fill buf 0 size.toNat 0
      cbiBoardOverride (copy cleared 0 (dataSize m d) fun i => m (d + sizeofData + i)) (m (d + 1))

def cbiGetBoardInfo (cfg : Config) (drv drv' : Storage) (c : Cache) (tag : UInt32) (buf : Nat → UInt8) (size : UInt8) :
    (Rv × (Nat → UInt8) × UInt8) × Cache :=
  match cbiRead cfg drv drv' c with
  | (.success, c) => (getFromImage c.image tag buf size, c)
  | (_, c) => ((.errorUnknown, buf, size), c)

/-! ## EC_CMD_SET_CROS_BOARD_INFO -/

/-- struct ec_params_set_cbi. `data` goes on behind the packet. -/
structure SetParams where
  tag : UInt32
  flag : UInt32
  size : UInt32
  data : Nat → UInt8

/-- CBI_SET_NO_SYNC -/
def SetParams.noSync (p : SetParams) : Bool := p.flag &&& 1 != 0

/-- CBI_SET_INIT -/
def SetParams.init (p : SetParams) : Bool := p.flag &&& 2 != 0

def cbiWrite (drv : Storage) : Rv :=
  if drv.isProtectedAtWrite then .errorAccessDenied
  else if drv.storeFails then .errorUnknown
  else .success

/-- The image that the value is set in, or the error that ends the command before. -/
def imageToSet (cfg : Config) (drv drv' : Storage) (c : Cache) (p : SetParams) : Rv × Cache :=
  if p.init then
    if !cfg.systemUnlocked && isValidCbi cfg c.image then (.resAccessDenied, c)
    else (.success, { c with image := bareHeader c.image cfg.imageSize })
  else
    match cbiRead cfg drv drv' c with
    | (.success, c) => (.success, c)
    | (_, c) => (.resError, c)

/-- Whether existing data is modified or new data created, the current format is taken over. -/
def updateFormat (m : Image) : Image :=
  let m := setVersion m
  setCrc m (cbiCrc8 m)

/-- The rest of common_cbi_set once there is an image to set the value in. -/
def setAndWrite (cfg : Config) (drv : Storage) (c : Cache) (p : SetParams) : Rv × Cache :=
  match cbiSetBoardInfo cfg c.image p.tag p.data p.size.toUInt8 with
  | (.success, m) =>
    let c := { image := updateFormat m, synced := true }
    if p.noSync then (.success, c)
    else if cbiWrite drv ≠ .success then (.resError, c)
    else (.success, c)
  | (_, m) => (.resInvalidParam, { c with image := m })

def commonCbiSet (cfg : Config) (drv drv' : Storage) (c : Cache) (p : SetParams) : Rv × Cache :=
  if drv.isProtected && !p.noSync then (.resAccessDenied, c)
  else
    match imageToSet cfg drv drv' c p with
    | (.success, c) => setAndWrite cfg drv c p
    | (rv, c) => (rv, c)

/-- sizeof(struct ec_params_set_cbi) -/
def sizeofSetParams : Nat := 12

/-- hc_cbi_set; the sum of the sizes is 32 bits wide. -/
def hcCbiSet (cfg : Config) (drv drv' : Storage) (c : Cache) (paramsSize : UInt16) (p : SetParams) : Rv × Cache :=
  if paramsSize.toNat < (sizeofSetParams + p.size.toNat) % 2 ^ 32 then (.resInvalidParam, c)
  else commonCbiSet cfg drv drv' c p

/-! ## Requests -/

/-- A call of cbi_set_board_info, or EC_CMD_SET_CROS_BOARD_INFO. -/
inductive Request where
  | direct (tag : UInt32) (buf : Nat → UInt8) (size : UInt8)
  | command (paramsSize : UInt16) (p : SetParams)

def serve (cfg : Config) (drv drv' : Storage) (c : Cache) : Request → Rv × Cache
  | .direct tag buf size =>
    let r := cbiSetBoardInfo cfg c.image tag buf size
    (r.1, { c with image := r.2 })
  | .command paramsSize p => hcCbiSet cfg drv drv' c paramsSize p

end ChromeEc.Cbi
