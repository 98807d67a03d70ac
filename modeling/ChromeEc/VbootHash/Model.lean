import ChromeEc.Flash.CbiSection
import ChromeEc.Lib.Steps

/- The verified boot hash of `common/vboot_hash.c`, and the writes and erases of
  `common/flash.c` that it has to notice.

  A step is one call: of `vboot_hash_start`, of the deferred function, of
  `vboot_hash_abort`, of `crec_flash_write` or `crec_flash_erase`, of the host command, or
  one turn of the loop of `vboot_hash_all_chunks`, whose caller's task others may preempt
  between two turns. `hash` points into the context, so the digest is what
  the context holds when it is read. SHA-256 is a parameter that is right when a context is
  initialised, updated and finished once. What shared memory and the chip answer is an
  input of the step.

  Correspondence (C ↔ Lean):
    `vboot_hash_abort`, `read_and_hash_chunk`, `hash_next_chunk`, `vboot_hash_next_chunk`,
      `vboot_hash_start`, `vboot_hash_invalidate`, `flash_abort_or_invalidate_hash`, `get_offset`,
      `fill_response`, `host_start_hash`, `host_command_vboot_hash` ↔ the same in camelCase
    `vboot_hash_all_chunks` ↔ `vbootHashAllChunks` (one turn)
  The EC executes in place: with `CONFIG_EXTERNAL_STORAGE` an image that runs in RAM keeps
  its hash on purpose. Clocks, prints and `rwsig_abort` are left out. -/
namespace ChromeEc.VbootHash
open ChromeEc.Lib ChromeEc.Lib.Memory ChromeEc.Lib.Steps ChromeEc.Flash

abbrev U32 := BitVec 32

def CHUNK_SIZE : Nat := 1024

/-- `SHA256_init`, `SHA256_update` and `SHA256_final` on a context, and the bytes that the
pointer returned by `SHA256_final` points to. -/
structure Sha256 where
  Ctx : Type
  init : Ctx
  update : Ctx → List UInt8 → Ctx
  final : Ctx → Ctx
  buf : Ctx → List UInt8
  sha256 : List UInt8 → List UInt8
  correct : ∀ parts : List (List UInt8), buf (final (parts.foldl update init)) = sha256 parts.flatten

/-- The state of the module and flash. `deferred`: a call of `vboot_hash_next_chunk` is
pending. `blocking`: a call of `vboot_hash_all_chunks` is in its loop. `nonce` and `hashed`
only record the nonce of the last start and the flash bytes given to SHA-256 since. -/
structure State (sha : Sha256) where
  dataOffset : U32
  dataSize : U32
  currPos : U32
  hash : Bool
  wantAbort : Bool
  inProgress : Bool
  ctx : sha.Ctx
  deferred : Bool
  blocking : Bool
  flash : Image
  nonce : List UInt8
  hashed : List Nat

/-- What `shared_mem_acquire` returns: a buffer with what it held, `EC_ERROR_BUSY` or
another error. -/
inductive Scratch where
  | acquired (buffer : Nat → UInt8)
  | busy
  | failed

structure Env (c : Config) where
  scratch : Scratch
  chip : Chip c

section
variable (c : Config) {sha : Sha256}

def vbootHashAbort (s : State sha) : State sha :=
  if s.inProgress then { s with wantAbort := true }
  else { s with wantAbort := false, dataSize := 0, hash := false }

/-- `SHA256_update` with bytes read from flash. -/
def feed (s : State sha) (offset : Nat) (bytes : List UInt8) : State sha :=
  { s with ctx := sha.update s.ctx bytes, hashed := s.hashed ++ List.range' offset bytes.length }

def readAndHashChunk (env : Env c) (s : State sha) (offset : Int) (size : Nat) : State sha :=
  if size = 0 then s
  else
    match env.scratch with
    | .busy => { s with deferred := true }
    | .failed => vbootHashAbort s
    | .acquired buffer =>
      match crecFlashRead c env.chip s.flash offset size buffer with
      | .ok buf => feed s offset.toNat (read buf 0 size)
      | .error _ => vbootHashAbort s

/-- `hash_next_chunk`. What `read_and_hash_chunk` returns is not passed on. -/
def hashNextChunk (env : Env c) (s : State sha) (size : Nat) : State sha :=
  let offset := s.dataOffset + s.currPos
  if c.mapped then feed s offset.toNat (read s.flash offset.toNat size)
  else readAndHashChunk c env s offset.toInt size

def chunkSize (s : State sha) : Nat := min CHUNK_SIZE (s.dataSize - s.currPos).toNat

/-- The chunk at the current position, and the position after it. -/
def advance (env : Env c) (s : State sha) : State sha :=
  let size := chunkSize s
  let s := hashNextChunk c env s size
  { s with currPos := s.currPos + BitVec.ofNat 32 size }

/-- `hash = SHA256_final(&ctx)`, and the end of the calculation. -/
def finish (s : State sha) : State sha :=
  { s with ctx := sha.final s.ctx, hash := true, inProgress := false }

/-- One turn of the loop of `vboot_hash_all_chunks`, and what follows it. -/
def vbootHashAllChunks (env : Env c) (s : State sha) : State sha :=
  let s := advance c env s
  if s.currPos < s.dataSize then s else { finish s with blocking := false }

def vbootHashNextChunk (env : Env c) (s : State sha) : State sha :=
  if s.wantAbort then vbootHashAbort { s with inProgress := false }
  else
    let s := advance c env s
    if s.currPos ≥ s.dataSize then
      let s := finish s
      -- "Handle receiving abort during finalize"
      if s.wantAbort then vbootHashAbort s else s
    else { s with deferred := true }

/-- The results of `vboot_hash_start`. -/
inductive Ec where
  | success
  | busy
  | inval
  deriving DecidableEq

/-- `vboot_hash_start`. A blocking call goes on with `vbootHashAllChunks`. -/
def vbootHashStart (s : State sha) (offset size : U32) (nonce : Nat → UInt8) (nonceSize : Int) (deferred : Bool) :
    Ec × State sha :=
  if s.inProgress then (.busy, s)
  else if offset.toNat > c.flashSize ∨ size.toNat > c.flashSize ∨ (offset + size).toNat > c.flashSize ∨
      nonceSize < 0 then (.inval, s)
  else
    let ctx := if nonceSize ≠ 0 then sha.update sha.init (read nonce 0 nonceSize.toNat) else sha.init
    let s := { s with dataOffset := offset, dataSize := size, currPos := 0, hash := false, wantAbort := false,
                      inProgress := true, ctx := ctx, nonce := read nonce 0 nonceSize.toNat, hashed := [] }
    (.success, if deferred then { s with deferred := true } else { s with blocking := true })

def vbootHashInvalidate (s : State sha) (offset size : Int) : State sha :=
  if offset < 0 ∨ size ≤ 0 ∨ offset + size < 0 then s
  else if !s.hash then s
  else if s.dataSize.toNat > 0 ∧
      (offset + size ≤ s.dataOffset.toNat ∨ offset ≥ (s.dataOffset + s.dataSize).toNat) then s
  else vbootHashAbort s

def flashAbortOrInvalidateHash (s : State sha) (offset size : Int) : State sha :=
  if s.inProgress then vbootHashAbort s else vbootHashInvalidate s offset size

/-- `crec_flash_write`: the range check, the hash, the chip. -/
def flashWrite (chip : Chip c) (s : State sha) (offset size : Int) (data : Data) : State sha :=
  if flashRangeOk c offset size c.writeSize then
    { flashAbortOrInvalidateHash s offset size with flash := (crecFlashWrite c chip s.flash offset size data).2 }
  else s

/-- `crec_flash_erase`, likewise. -/
def flashErase (chip : Chip c) (s : State sha) (offset size : Int) : State sha :=
  if c.multipleRegion ∨ flashRangeOk c offset size c.eraseSize then
    { flashAbortOrInvalidateHash s offset size with flash := (crecFlashErase c chip s.flash offset size).2 }
  else s

end

/-! ## The host command -/

structure Images where
  roOffset : U32
  activeOffset : U32
  updateOffset : U32
  roSize : U32
  rwSize : U32

def EC_VBOOT_HASH_OFFSET_RO : U32 := 0xfffffffe
def EC_VBOOT_HASH_OFFSET_ACTIVE : U32 := 0xfffffffd
def EC_VBOOT_HASH_OFFSET_UPDATE : U32 := 0xfffffffc

def EC_VBOOT_HASH_TYPE_SHA256 : Nat := 0

def SHA256_DIGEST_SIZE : Nat := 32

/-- `enum ec_vboot_hash_cmd`. -/
inductive Cmd where
  | get
  | abort
  | start
  | recalc
  | other (code : Nat)
  deriving DecidableEq

/-- `struct ec_params_vboot_hash`. -/
structure Params where
  cmd : Cmd
  hashType : Nat
  nonceSize : Nat
  offset : U32
  size : U32
  nonceData : Nat → UInt8

/-- `struct ec_response_vboot_hash`: a response that is not `DONE` has only its status. -/
inductive Response where
  | none
  | done (hashType digestSize reserved0 : Nat) (offset size : U32) (hashDigest : List UInt8)
  | busy
  deriving DecidableEq

/-- `enum ec_status`. -/
inductive Status where
  | success
  | error
  | invalidParam
  deriving DecidableEq

/-- What the host command does: it answers, or it waits for the hash (`RECALC`) and answers
with `fillResponse` for the offset then. -/
inductive Reply where
  | answer (status : Status) (response : Option Response)
  | waits (offset : U32)
  deriving DecidableEq

def getOffset (im : Images) (offset : U32) : U32 :=
  if offset = EC_VBOOT_HASH_OFFSET_RO then im.roOffset
  else if offset = EC_VBOOT_HASH_OFFSET_ACTIVE then im.activeOffset
  else if offset = EC_VBOOT_HASH_OFFSET_UPDATE then im.updateOffset
  else offset

section
variable (c : Config) {sha : Sha256}

def fillResponse (im : Images) (s : State sha) (requestOffset : U32) : Response :=
  if s.inProgress then .busy
  else if getOffset im requestOffset = s.dataOffset ∧ s.hash ∧ !s.wantAbort then
    .done EC_VBOOT_HASH_TYPE_SHA256 SHA256_DIGEST_SIZE 0 s.dataOffset s.dataSize (sha.buf s.ctx)
  else .none

/-- `host_start_hash`. `nonce_data` has 64 bytes. -/
def hostStartHash (im : Images) (s : State sha) (p : Params) : Status × State sha :=
  if p.hashType ≠ EC_VBOOT_HASH_TYPE_SHA256 then (.invalidParam, s)
  else if p.nonceSize > 64 then (.invalidParam, s)
  else
    let size :=
      if p.offset = EC_VBOOT_HASH_OFFSET_RO then im.roSize
      else if p.offset = EC_VBOOT_HASH_OFFSET_ACTIVE ∨ p.offset = EC_VBOOT_HASH_OFFSET_UPDATE then im.rwSize
      else p.size
    match vbootHashStart c s (getOffset im p.offset) size p.nonceData p.nonceSize true with
    | (.success, s) => (.success, s)
    | (.inval, s) => (.invalidParam, s)
    | (.busy, s) => (.error, s)

def hostCommandVbootHash (im : Images) (s : State sha) (p : Params) : Reply × State sha :=
  match p.cmd with
  | .get =>
    (.answer .success (some (fillResponse im s (if p.offset ≠ 0 ∨ p.size ≠ 0 then p.offset else s.dataOffset))), s)
  | .abort => (.answer .success none, vbootHashAbort s)
  | .start =>
    match hostStartHash c im s p with
    | (.success, s) => (.answer .success (some (fillResponse im s p.offset)), s)
    | (status, s) => (.answer status none, s)
  | .recalc =>
    match hostStartHash c im s p with
    | (.success, s) => (.waits p.offset, s)
    | (status, s) => (.answer status none, s)
  | .other _ => (.answer .invalidParam none, s)

end

/-! ## Steps -/

inductive Action (c : Config) where
  | start (offset size : U32) (nonce : Nat → UInt8) (nonceSize : Int) (deferred : Bool)
  | deferredCall (env : Env c)
  | blockingTurn (env : Env c)
  | abort
  | write (chip : Chip c) (offset size : Int) (data : Data)
  | erase (chip : Chip c) (offset size : Int)
  | host (im : Images) (p : Params)

/-- A deferred call is no longer pending when it is made. -/
def step (c : Config) {sha : Sha256} : Action c → State sha → Option (State sha)
  | .start offset size nonce nonceSize deferred, s => some (vbootHashStart c s offset size nonce nonceSize deferred).2
  | .deferredCall env, s => if s.deferred then some (vbootHashNextChunk c env { s with deferred := false }) else none
  | .blockingTurn env, s => if s.blocking then some (vbootHashAllChunks c env s) else none
  | .abort, s => some (vbootHashAbort s)
  | .write chip offset size data, s => some (flashWrite c chip s offset size data)
  | .erase chip offset size, s => some (flashErase c chip s offset size)
  | .host im p, s => some (hostCommandVbootHash c im s p).2

/-- The state after reset, with whatever flash and the context hold. -/
def initial {sha : Sha256} (flash : Image) (ctx : sha.Ctx) : State sha where
  dataOffset := 0
  dataSize := 0
  currPos := 0
  hash := false
  wantAbort := false
  inProgress := false
  ctx := ctx
  deferred := false
  blocking := false
  flash := flash
  nonce := []
  hashed := []

end ChromeEc.VbootHash
