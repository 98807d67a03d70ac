import Mathlib.Algebra.Group.Nat.Defs
import Mathlib.Data.List.Basic

/- Serial NOR flash: `common/spi_nor.c`.

  The bus with the chip behind it, the clock and the sleep are a parameter (`Bus`). A run keeps the
  commands that have been sent, the latest one last. The result of a function is its code, or `none` where
  a loop has had as many turns as it was given: `polls` bounds the polls of one spi_nor_wait, and the other
  loops take at least one byte a turn.

  An offset is a uint32_t, and so is a size_t; a buffer is the list of its bytes, and its length
  the size that is passed along. `CONFIG_SPI_NOR_MAX_READ_SIZE` is not 0.

  Correspondence (C ↔ Lean):
    `spi_nor_read_status`, `spi_nor_write_enable` ↔ `spiNorReadStatus`, `spiNorWriteEnable`
    `spi_nor_wait` ↔ `spiNorWait`, with the loop `waitLoop`
    `spi_nor_read_sfdp_dword` ↔ `spiNorReadSfdpDword`
    `spi_nor_read_internal` ↔ `spiNorReadInternal`, with the loop `readLoop`
    `spi_nor_erase` ↔ `spiNorErase`: `blankLoop` is the loop that looks for what is erased already,
      `eraseLoop` the outer one
    `spi_nor_write` ↔ `spiNorWrite`, with the loop `writeLoop`
    `goto err_free` ↔ `andThen` -/
namespace ChromeEc.SpiNor

/-! ## Codes -/

def ecSuccess : Int := 0
def ecErrorUnknown : Int := 1
def ecErrorOverflow : Int := 3
def ecErrorTimeout : Int := 4
def ecErrorInval : Int := 5

def opcodePageProgram : UInt8 := 0x02
def opcodeSlowRead : UInt8 := 0x03
def opcodeReadStatus : UInt8 := 0x05
def opcodeWriteEnable : UInt8 := 0x06
def opcodeSfdp : UInt8 := 0x5a
def opcode4KibErase : UInt8 := 0x20
def opcode64KibErase : UInt8 := 0xd8

/-- Write in progress -/
def statusRegisterWip : UInt8 := 0x01

/-- Write enabled latch -/
def statusRegisterWel : UInt8 := 0x02

/-! ## The bus -/

structure Bus (σ : Type) where
  /-- The bytes to send, and how many to receive: the code, and the bytes received. -/
  spiTransaction : σ → List UInt8 → Nat → Int × List UInt8 × σ
  getTime : σ → Nat
  /-- watchdog_reload and crec_usleep -/
  usleep : σ → σ

/-- CONFIG_SPI_NOR_... -/
structure Config where
  maxReadSize : Nat
  maxWriteSize : Nat
  blockErase : Bool
  smartErase : Bool

/-- What the functions use of struct spi_nor_device_t. -/
structure Device where
  timeoutUsec : Nat
  pageSize : Nat
  in4bAddressingMode : Bool

structure Run (σ : Type) where
  bus : σ
  sent : List (List UInt8)

abbrev Result (σ : Type) := Option Int × Run σ

section

variable {σ : Type}

/-- The rest of a function, unless there is an error. -/
def andThen (x : Result σ) (rest : Run σ → Result σ) : Result σ :=
  if x.1 = some ecSuccess then rest x.2 else x

variable (b : Bus σ) (cfg : Config) (dev : Device) (polls : Nat)

/-- spi_transaction, with what it receives. -/
def transact (tx : List UInt8) (rxlen : Nat) (r : Run σ) : Int × List UInt8 × Run σ :=
  let (rv, rx, s) := b.spiTransaction r.bus tx rxlen
  (rv, rx, ⟨s, r.sent ++ [tx]⟩)

/-- spi_transaction with a command that receives nothing. -/
def send (tx : List UInt8) (r : Run σ) : Result σ :=
  let (rv, _, r) := transact b tx 0 r
  (some rv, r)

def spiNorReadStatus (r : Run σ) : Int × UInt8 × Run σ :=
  let (rv, rx, r) := transact b [opcodeReadStatus] 1 r
  (rv, rx.headD 0, r)

def spiNorWriteEnable (r : Run σ) : Result σ :=
  andThen (send b [opcodeWriteEnable] r) fun r =>
    let (rv, status, r) := spiNorReadStatus b r
    if rv ≠ ecSuccess then (some rv, r)
    else if status &&& statusRegisterWel = 0 then (some ecErrorUnknown, r)
    else (some rv, r)

def waitLoop (timeout : Nat) : Nat → UInt8 → Run σ → Result σ
  | 0, _, r => (none, r)
  | polls + 1, status, r =>
    if status &&& statusRegisterWip ≠ 0 then
      let r := ⟨b.usleep r.bus, r.sent⟩
      if timeout < b.getTime r.bus then (some ecErrorTimeout, r)
      else
        let (rv, status, r) := spiNorReadStatus b r
        if rv ≠ ecSuccess then (some rv, r) else waitLoop timeout polls status r
    else (some ecSuccess, r)

def spiNorWait (r : Run σ) : Result σ :=
  let (rv, status, r) := spiNorReadStatus b r
  if rv ≠ ecSuccess then (some rv, r)
  else waitLoop b (b.getTime r.bus + dev.timeoutUsec) polls status r

/-- The bytes of an offset, in front of the data of a command. -/
def addressBytes (offset : Nat) : List UInt8 :=
  if dev.in4bAddressingMode then
    [UInt8.ofNat ((offset &&& 0xFF000000) >>> 24), UInt8.ofNat ((offset &&& 0xFF0000) >>> 16),
      UInt8.ofNat ((offset &&& 0xFF00) >>> 8), UInt8.ofNat (offset &&& 0xFF)]
  else
    [UInt8.ofNat ((offset &&& 0xFF0000) >>> 16), UInt8.ofNat ((offset &&& 0xFF00) >>> 8), UInt8.ofNat (offset &&& 0xFF)]

/-- Double words are counted from 1 on, and are received with the low byte first. -/
def spiNorReadSfdpDword (tableOffset : Nat) (tableDoubleWord : Nat) (r : Run σ) : Int × BitVec 32 × Run σ :=
  let sfdpOffset := (tableOffset + (tableDoubleWord - 1) * 4) % 2 ^ 32
  let tx := [opcodeSfdp, UInt8.ofNat ((sfdpOffset &&& 0xFF0000) >>> 16), UInt8.ofNat ((sfdpOffset &&& 0xFF00) >>> 8),
    UInt8.ofNat (sfdpOffset &&& 0xFF), 0]
  let (rv, rx, r) := transact b tx 4 r
  (rv, (rx.getD 3 0).toBitVec ++ (rx.getD 2 0).toBitVec ++ (rx.getD 1 0).toBitVec ++ (rx.getD 0 0).toBitVec, r)

/-! ## Reading -/

def readLoop : Nat → Nat → Nat → Run σ → Int × List UInt8 × Run σ
  | 0, _, _, r => (ecSuccess, [], r)
  | turns + 1, offset, size, r =>
    if 0 < size then
      let readSize := min size cfg.maxReadSize
      let (rv, data, r) := transact b (opcodeSlowRead :: addressBytes dev offset) readSize r
      if rv ≠ ecSuccess then (rv, data, r)
      else
        let (rv, rest, r) := readLoop turns ((offset + readSize) % 2 ^ 32) (size - readSize) r
        (rv, data ++ rest, r)
    else (ecSuccess, [], r)

/-- The code, and the bytes that have been read. -/
def spiNorReadInternal (offset size : Nat) (r : Run σ) : Int × List UInt8 × Run σ := readLoop b cfg dev size offset size r

/-! ## Erasing -/

/-- `verify_offset` behind the loop over the words of the buffer. -/
def verifyOffset : List UInt8 → Nat
  | w₀ :: w₁ :: w₂ :: w₃ :: buffer =>
    if w₀ = 0xff ∧ w₁ = 0xff ∧ w₂ = 0xff ∧ w₃ = 0xff then 4 + verifyOffset buffer else 0
  | _ => 0

/-- `read_left` behind the loop that reads what is to be erased. -/
def blankLoop : Nat → Nat → Nat → Run σ → Nat × Run σ
  | 0, _, readLeft, r => (readLeft, r)
  | turns + 1, readOffset, readLeft, r =>
    if readLeft ≠ 0 then
      let readSize := min readLeft cfg.maxReadSize
      let (rv, buffer, r) := spiNorReadInternal b cfg dev readOffset readSize r
      -- an error does not matter here: the erase goes on
      if rv ≠ ecSuccess then (readLeft, r)
      else if verifyOffset buffer ≠ readSize then (readLeft, r)
      else blankLoop turns ((readOffset + readSize) % 2 ^ 32) (readLeft - readSize) r
    else (readLeft, r)

def eraseUnit (offset size : Nat) : UInt8 × Nat :=
  if cfg.blockErase ∧ offset % 65536 = 0 ∧ 65536 ≤ size then (opcode64KibErase, 65536) else (opcode4KibErase, 4096)

/-- What is left of a unit that is erased already, with smart erase. -/
def eraseNeeded (offset eraseSize : Nat) (r : Run σ) : Nat × Run σ :=
  if cfg.smartErase then blankLoop b cfg dev eraseSize offset eraseSize r else (eraseSize, r)

def eraseLoop : Nat → Nat → Nat → Run σ → Result σ
  | 0, _, _, r => (none, r)
  | turns + 1, offset, size, r =>
    if 0 < size then
      andThen (spiNorWait b dev polls r) fun r =>
        let (opcode, eraseSize) := eraseUnit cfg offset size
        let (readLeft, r) := eraseNeeded b cfg dev offset eraseSize r
        -- a unit that is blank already is left out
        if readLeft = 0 then eraseLoop turns ((offset + eraseSize) % 2 ^ 32) (size - eraseSize) r
        else
          andThen (spiNorWriteEnable b r) fun r =>
            andThen (send b (opcode :: addressBytes dev offset) r) fun r =>
              eraseLoop turns ((offset + eraseSize) % 2 ^ 32) (size - eraseSize) r
    else spiNorWait b dev polls r

def spiNorErase (offset size : Nat) (r : Run σ) : Result σ :=
  if offset % 4096 ≠ 0 ∨ size % 4096 ≠ 0 ∨ size < 4096 then (some ecErrorInval, r)
  else eraseLoop b cfg dev polls (size + 1) offset size r

/-! ## Writing -/

/-- MIN(page_size, CONFIG_SPI_NOR_MAX_WRITE_SIZE) -/
def effectivePageSize : Nat := min dev.pageSize cfg.maxWriteSize

def writeLoop : Nat → Nat → List UInt8 → Run σ → Result σ
  | 0, _, _, r => (none, r)
  | turns + 1, offset, data, r =>
    if 0 < data.length then
      let pageOffset := offset &&& (effectivePageSize cfg dev - 1)
      let writeSize := min data.length (effectivePageSize cfg dev - pageOffset)
      andThen (spiNorWait b dev polls r) fun r =>
        andThen (spiNorWriteEnable b r) fun r =>
          andThen (send b (opcodePageProgram :: (addressBytes dev offset ++ data.take writeSize)) r) fun r =>
            writeLoop turns ((offset + writeSize) % 2 ^ 32) (data.drop writeSize) r
    else spiNorWait b dev polls r

def spiNorWrite (offset : Nat) (data : List UInt8) (r : Run σ) : Result σ :=
  writeLoop b cfg dev polls (data.length + 1) offset data r

end

end ChromeEc.SpiNor
