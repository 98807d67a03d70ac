import Mathlib.Data.BitVec

/- The firmware updater of `common/update_fw.c`.

  Offsets and sizes are `BitVec 32`, as on the 32-bit targets of the updater: a
  `size_t` there has 32 bits, and sums of offsets and sizes wrap. A block is the
  list of its bytes, `struct update_command` first. What the updater does to flash
  and to the touchpad is returned as a list of operations; whether they work, and
  what the rest of the system says, is an input of the call (`Env`).

  Correspondence (C ↔ Lean):
    `update_section` ↔ `Section`
    `is_touchpad_block`, `check_update_chunk`, `update_pdu_valid`, `contents_allowed`, `fw_update_start`,
      `fw_update_command_handler` ↔ the same in camelCase
  SHA-256 is a parameter. The digest of a block is compared as the code does it on
  a little-endian target: the bytes of the host-order word, so the wire bytes
  backwards. `new_chunk_written` is empty in this repository and left out. -/
namespace ChromeEc.UpdateFw

/-- `uint32_t`, and `size_t` of the target. -/
abbrev U32 := BitVec 32

/-- The result codes of the updater. -/
inductive Code where
  | success
  | badAddr
  | eraseFailure
  | dataError
  | writeFailure
  | verifyError
  | genError
  | mallocError
  | rollbackError
  | rateLimitError
  | rwsigBusy
  deriving DecidableEq

/-- The value of `UPDATE_SUCCESS` and its siblings. -/
def Code.toNat : Code → Nat
  | .success => 0
  | .badAddr => 1
  | .eraseFailure => 2
  | .dataError => 3
  | .writeFailure => 4
  | .verifyError => 5
  | .genError => 6
  | .mallocError => 7
  | .rollbackError => 8
  | .rateLimitError => 9
  | .rwsigBusy => 10

/-- `struct update_section`. -/
structure Section where
  baseOffset : U32
  topOffset : U32
  deriving DecidableEq

/-- `CONFIG_TOUCHPAD_VIRTUAL_OFF` and `_SIZE`, and `touchpad_fw_hashes` where
`CONFIG_TOUCHPAD_HASH_FW` is set. The region is part of the address space. -/
structure Touchpad where
  virtualOff : U32
  virtualSize : U32
  fwHashes : Option (List (List UInt8))
  fits : virtualOff.toNat + virtualSize.toNat < 2 ^ 32

/-- The configuration of a board. Both sections are part of the address space. -/
structure Config where
  roMemOff : U32
  roSize : U32
  rwMemOff : U32
  rwSize : U32
  pduSize : U32
  sha256Enabled : Bool
  touchpad : Option Touchpad
  roFits : roMemOff.toNat + roSize.toNat < 2 ^ 32
  rwFits : rwMemOff.toNat + rwSize.toNat < 2 ^ 32

/-- `system_get_image_copy`. -/
inductive Image where
  | ro
  | rw
  | other
  deriving DecidableEq

structure Env where
  image : Image
  /-- `crec_flash_get_protect`. -/
  flashProtect : U32
  /-- `system_get_version` of the other section. -/
  version : Option (List UInt8)
  /-- `rollback_get_minimum_version`, -1 without rollback protection. -/
  minRollback : U32
  /-- The version of the key of the image, 0 without signatures. -/
  keyVersion : U32
  /-- `rwsig_get_status() == RWSIG_IN_PROGRESS`. -/
  rwsigInProgress : Bool
  eraseWorks : Bool
  writeWorks : Bool
  /-- The bytes written read back as they should. -/
  verifyWorks : Bool
  touchpadWorks : Bool

inductive FlashOp where
  | erase (offset size : U32)
  | write (offset : U32) (data : List UInt8)
  | touchpad (offset : U32) (data : List UInt8)
  deriving DecidableEq

/-- `struct first_response_pdu`, in host byte order. -/
structure FirstResponsePdu where
  returnValue : Nat
  headerType : Nat
  protocolVersion : Nat
  maximumPduSize : U32
  flashProtection : U32
  offset : U32
  version : List UInt8
  minRollback : U32
  keyVersion : U32
  deriving DecidableEq

/-- The response: the code in the first byte of the block, or the first response
in its place. -/
inductive Response where
  | code (c : Code)
  | first (pdu : FirstResponsePdu)
  deriving DecidableEq

/-- The big-endian word at byte `i`. -/
def be32toh (bytes : List UInt8) (i : Nat) : U32 :=
  (bytes.getD i 0).toBitVec ++ (bytes.getD (i + 1) 0).toBitVec ++
    ((bytes.getD (i + 2) 0).toBitVec ++ (bytes.getD (i + 3) 0).toBitVec)

/-- `sizeof(struct update_command)`: the digest and the base. -/
def sizeofCommand : Nat := 8

section
variable (cfg : Config) (sha256 : List UInt8 → List UInt8)

def isTouchpadBlock (blockOffset bodySize : U32) : Bool :=
  match cfg.touchpad with
  | none => false
  | some tp =>
    decide (tp.virtualOff ≤ blockOffset) &&
      decide (blockOffset + bodySize ≤ tp.virtualOff + tp.virtualSize)

/-- The condition under which `check_update_chunk` takes a block to belong to the
section. -/
def inSection (sec : Section) (blockOffset bodySize : U32) : Bool :=
  decide (sec.baseOffset ≠ sec.topOffset) && decide (sec.baseOffset ≤ blockOffset) &&
    decide (blockOffset + bodySize ≤ sec.topOffset)

def checkUpdateChunk (sec : Section) (env : Env) (blockOffset bodySize : U32) :
    Code × List FlashOp :=
  if inSection sec blockOffset bodySize then
    let base := sec.baseOffset
    let size := sec.topOffset - sec.baseOffset
    if blockOffset = base then
      if env.eraseWorks then
        (.success, [.erase base size])
      else
        (.eraseFailure, [.erase base size])
    else
      (.success, [])
  else if isTouchpadBlock cfg blockOffset bodySize then
    (.success, [])
  else
    (.badAddr, [])

/-- `update_pdu_valid` on a block of at least eight bytes. -/
def updatePduValid (body : List UInt8) : Bool :=
  if cfg.sha256Enabled then
    if body.length = sizeofCommand ∨ be32toh body 0 = 0 then
      true
    else
      decide ((body.take 4).reverse = (sha256 (body.drop sizeofCommand)).take 4)
  else
    true

def contentsAllowed (blockOffset bodySize : U32) (data : List UInt8) : Bool :=
  match cfg.touchpad with
  | none => true
  | some tp =>
    match tp.fwHashes with
    | none => true
    | some hashes =>
      if isTouchpadBlock cfg blockOffset bodySize then
        let fwOffset := blockOffset - tp.virtualOff
        let chunk := fwOffset / cfg.pduSize
        if tp.virtualSize / cfg.pduSize ≤ chunk ∨ fwOffset % cfg.pduSize ≠ 0 then
          false
        else
          decide (sha256 data = hashes.getD chunk.toNat [])
      else
        true

def chunkCameTooSoon (_blockOffset : U32) : Bool := false

def otherSection : Image → Option Section
  | .ro => some ⟨cfg.rwMemOff, cfg.rwMemOff + cfg.rwSize⟩
  | .rw => some ⟨cfg.roMemOff, cfg.roMemOff + cfg.roSize⟩
  | .other => none

def fwUpdateStart (sec : Section) (env : Env) : FirstResponsePdu × Section :=
  let blank : FirstResponsePdu := ⟨0, 1, 6, 0, 0, 0, List.replicate 32 0, 0, 0⟩
  match otherSection cfg env.image with
  | none => ({ blank with returnValue := Code.genError.toNat }, sec)
  | some sec =>
    ({ blank with
        returnValue := if env.rwsigInProgress then Code.rwsigBusy.toNat else 0
        maximumPduSize := cfg.pduSize
        flashProtection := env.flashProtect
        offset := sec.baseOffset
        version := env.version.getD blank.version
        minRollback := env.minRollback
        keyVersion := env.keyVersion }, sec)

def programBlock (sec : Section) (env : Env) (body : List UInt8) : Code × List FlashOp :=
  let bodySize := BitVec.ofNat 32 (body.length - sizeofCommand)
  let blockOffset := be32toh body 4
  let data := body.drop sizeofCommand
  if !updatePduValid cfg sha256 body then
    (.dataError, [])
  else if !contentsAllowed cfg sha256 blockOffset bodySize data then
    (.rollbackError, [])
  else
    let checked := checkUpdateChunk cfg sec env blockOffset bodySize
    if checked.1 ≠ .success then
      checked
    else if chunkCameTooSoon blockOffset then
      (.rateLimitError, checked.2)
    else
      match cfg.touchpad with
      | some tp =>
        if isTouchpadBlock cfg blockOffset bodySize then
          (if env.touchpadWorks then .success else .writeFailure,
            checked.2 ++ [.touchpad (blockOffset - tp.virtualOff) data])
        else
          (if env.writeWorks then (if env.verifyWorks then .success else .verifyError)
            else .writeFailure, checked.2 ++ [.write blockOffset data])
      | none =>
        (if env.writeWorks then (if env.verifyWorks then .success else .verifyError)
          else .writeFailure, checked.2 ++ [.write blockOffset data])

/-- `fw_update_command_handler`: the response, what happened to flash, and the
section from then on. -/
def fwUpdateCommandHandler (sec : Section) (env : Env) (body : List UInt8) :
    Response × List FlashOp × Section :=
  if body.length < sizeofCommand then
    (.code .genError, [], sec)
  else if be32toh body 4 = 0 ∧ body.length = sizeofCommand then
    let r := fwUpdateStart cfg sec env
    (.first r.1, [], r.2)
  else
    let r := programBlock cfg sha256 sec env body
    (.code r.1, r.2, sec)

/-! ## Runs -/

/-- `update_section` before the first start request. -/
def noSection : Section := ⟨0, 0⟩

/-- The sections that requests can leave while `image` is running. -/
inductive Reachable (image : Image) : Section → Prop
  | init : Reachable image noSection
  | step {sec : Section} (env : Env) (body : List UInt8) : Reachable image sec →
      env.image = image → Reachable image (fwUpdateCommandHandler cfg sha256 sec env body).2.2

end

end ChromeEc.UpdateFw
