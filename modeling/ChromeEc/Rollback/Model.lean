import Mathlib.Data.BitVec
import Mathlib.Data.Fin.Basic

/- The rollback blocks of `common/rollback.c`.

  Flash is seen as words of 32 bits. Each of the two regions holds one
  `struct rollback_data` from its first word on; an erased word is all ones. An
  update erases the region that does not hold the latest block and writes the new
  block to it word by word, the cookie after the rest of the data. Everything
  that the code asks of the hardware or of the board is an input of the call
  (`Env`): among it how far the erase and the write got, and whether they stopped
  because they failed or because the power went.

  Correspondence (C ↔ Lean):
    `struct rollback_data` ↔ `RollbackData`
    `read_rollback`, `get_latest_rollback`, `rollback_get_minimum_version`, `rollback_get_secret`,
      `rollback_update`, `rollback_update_version`, `rollback_add_entropy` ↔ the same in camelCase
  The memory protection around flash accesses and the clearing of buffers are left
  out: no result depends on them. The digest of secret and entropy is a parameter. -/
namespace ChromeEc.Rollback

abbrev Word := BitVec 32

/-- `CROS_EC_ROLLBACK_COOKIE`. -/
def COOKIE : Word := 0x0b112233#32

def ERASED : Word := 0xffffffff#32

/-- The board's configuration: the words of the secret (0 without
`CONFIG_ROLLBACK_SECRET_SIZE`), the words of padding up to
`CONFIG_FLASH_WRITE_SIZE`, and `CONFIG_OTP_KEY`. -/
structure Config where
  secretWords : Nat
  padWords : Nat
  otpKey : Bool

structure RollbackData (n : Nat) where
  id : Word
  rollbackMinVersion : Word
  secret : Fin n → Word
  cookie : Word
  deriving DecidableEq

abbrev Region := Nat → Word

abbrev Flash := Fin 2 → Region

/-- Results of the functions, `enum ec_error_list`. -/
inductive Ec where
  | success
  | unknown
  | accessDenied
  | inval
  | unchanged
  | other (code : Nat)
  deriving DecidableEq

/-! ## Flash -/

/-- What happens to flash: an erase, of all words but those in `keep`, or words
that are written to a region from its start on. -/
inductive FlashOp where
  | erase (region : Fin 2) (keep : Nat → Bool)
  | write (region : Fin 2) (words : List Word)

def FlashOp.region : FlashOp → Fin 2
  | .erase region _ => region
  | .write region _ => region

def eraseRegion (keep : Nat → Bool) (r : Region) : Region := fun i => if keep i then r i else ERASED

def writeRegion (words : List Word) (r : Region) : Region := fun i => words.getD i (r i)

def applyOp (flash : Flash) : FlashOp → Flash
  | .erase region keep => Function.update flash region (eraseRegion keep (flash region))
  | .write region words => Function.update flash region (writeRegion words (flash region))

def applyOps (flash : Flash) (ops : List FlashOp) : Flash := ops.foldl applyOp flash

def dataOf (n : Nat) (r : Region) : RollbackData n where
  id := r 0
  rollbackMinVersion := r 1
  secret i := r (2 + i)
  cookie := r (2 + n)

def blockWords (cfg : Config) (data : RollbackData cfg.secretWords) : List Word :=
  data.id :: data.rollbackMinVersion ::
    (List.ofFn data.secret ++ data.cookie :: List.replicate cfg.padWords ERASED)

/-! ## Reading -/

/-- `read_rollback`, with whether `crec_flash_read` works. -/
def readRollback (n : Nat) (works : Bool) (flash : Flash) (region : Fin 2) :
    Option (RollbackData n) :=
  if works then some (dataOf n (flash region)) else none

/-- One round of the loop of `get_latest_rollback` over `(min_region, max_id)`. -/
def scanRegion (n : Nat) (works : Bool) (flash : Flash) (region : Fin 2)
    (acc : Option (Fin 2) × Word) : Option (Option (Fin 2) × Word) :=
  match readRollback n works flash region with
  | none => none
  | some tmp =>
    if tmp.cookie ≠ COOKIE then some acc
    else if acc.2.slt tmp.id then some (some region, tmp.id)
    else some acc

/-- What `get_latest_rollback` fills in when no block is valid. -/
def defaultData (n : Nat) : RollbackData n where
  id := 0
  rollbackMinVersion := 0
  secret _ := 0
  cookie := COOKIE

local instance neZero_two : NeZero 2 := Nat.instNeZeroSucc

local instance neZero_three : NeZero 3 := Nat.instNeZeroSucc

/-- `get_latest_rollback`; `works i` tells whether the `i`-th read works. -/
def getLatestRollback (n : Nat) (works : Fin 3 → Bool) (flash : Flash) :
    Option (Fin 2 × RollbackData n) := do
  let acc ← scanRegion n (works 0) flash 0 (none, -1)
  let acc ← scanRegion n (works 1) flash 1 acc
  match acc.1 with
  | some region =>
    let data ← readRollback n (works 2) flash region
    some (region, data)
  | none => some (0, defaultData n)

def rollbackGetMinimumVersion (n : Nat) (works : Fin 3 → Bool) (flash : Flash) : Int :=
  match getLatestRollback n works flash with
  | none => -1
  | some (_, data) => data.rollbackMinVersion.toInt

/-- `bytes_are_trivial` on the words of a secret: all bits 0, or all bits 1. -/
def isTrivial {n : Nat} (secret : Fin n → Word) : Bool :=
  decide (∀ i, secret i = 0) || decide (∀ i, secret i = ERASED)

def rollbackGetSecret (n : Nat) (works : Fin 3 → Bool) (flash : Flash) :
    Except Ec (Fin n → Word) :=
  match getLatestRollback n works flash with
  | none => .error .unknown
  | some (_, data) => if isTrivial data.secret then .error .unknown else .ok data.secret

/-! ## Updating -/

inductive EraseEnd where
  | done
  | failed (keep : Nat → Bool)
  | cut (keep : Nat → Bool)

/-- How a write ends; `n` words have been written. -/
inductive WriteEnd where
  | done
  | failed (n : Nat) (err : Ec)
  | cut (n : Nat)

structure Env where
  cutEarly : Bool
  /-- The result of `otp_key_provision`. -/
  otpStatus : Ec
  /-- `EC_FLASH_PROTECT_ROLLBACK_NOW` is set. -/
  protectNow : Bool
  works : Fin 3 → Bool
  /-- The bytes of `board_get_entropy`, or its failure. -/
  localEntropy : Option (List UInt8)
  /-- The result of `get_rollback_erase_size_bytes`. -/
  eraseSize : Int
  /-- The result of `system_unsafe_to_overwrite`. -/
  unsafeToOverwrite : Bool
  eraseEnd : EraseEnd
  writeEnd : WriteEnd

section
variable (cfg : Config)
  (digest : (Fin cfg.secretWords → Word) → List UInt8 → List UInt8 → Fin cfg.secretWords → Word)

/-- The version to write, or the result with which `rollback_update` returns
without writing. -/
def nextVersion (data : RollbackData cfg.secretWords) (next : Word)
    (entropy : Option (List UInt8)) : Except Ec Word :=
  if cfg.secretWords ≠ 0 ∧ entropy.isSome then
    .ok (if next.slt data.rollbackMinVersion then data.rollbackMinVersion else next)
  else if next.slt data.rollbackMinVersion then
    .error .inval
  else if next = data.rollbackMinVersion then
    .error .success
  else
    .ok next

/-- `add_entropy` where entropy is given, and the secret as it is otherwise. -/
def nextSecret (env : Env) (data : RollbackData cfg.secretWords) (entropy : Option (List UInt8)) :
    Option (Fin cfg.secretWords → Word) :=
  match entropy with
  | none => some data.secret
  | some bytes =>
    if cfg.secretWords = 0 then some data.secret
    else env.localEntropy.map (digest data.secret bytes)

/-- The erase and the write at the end of `rollback_update`. -/
def eraseAndWrite (env : Env) (region : Fin 2) (data : RollbackData cfg.secretWords) :
    Option Ec × List FlashOp :=
  let erase := FlashOp.erase region fun _ => false
  match env.eraseEnd with
  | .failed keep => (some .unknown, [.erase region keep])
  | .cut keep => (none, [.erase region keep])
  | .done =>
    match env.writeEnd with
    | .done => (some .success, [erase, .write region (blockWords cfg data)])
    | .failed n err => (some err, [erase, .write region ((blockWords cfg data).take n)])
    | .cut n => (none, [erase, .write region ((blockWords cfg data).take n)])

/-- `rollback_update`: the result, or `none` when the power was cut, and what
happened to flash. -/
def rollbackUpdate (env : Env) (flash : Flash) (next : Word) (entropy : Option (List UInt8)) :
    Option Ec × List FlashOp :=
  if env.cutEarly then
    (none, [])
  else if env.protectNow then
    (some .accessDenied, [])
  else
    match getLatestRollback cfg.secretWords env.works flash with
    | none => (some .unknown, [])
    | some (region, data) =>
      match nextVersion cfg data next entropy with
      | .error ret => (some ret, [])
      | .ok version =>
        -- Use the other region.
        let region := region + 1
        match nextSecret cfg digest env data entropy with
        | none => (some .unchanged, [])
        | some secret =>
          if env.eraseSize < 0 then
            (some .unknown, [])
          else if env.unsafeToOverwrite then
            (some .unknown, [])
          else
            eraseAndWrite cfg env region
              { id := data.id + 1, rollbackMinVersion := version, secret := secret,
                cookie := COOKIE }

def rollbackUpdateVersion (env : Env) (flash : Flash) (next : Word) : Option Ec × List FlashOp :=
  rollbackUpdate cfg digest env flash next none

def rollbackAddEntropy (env : Env) (flash : Flash) (entropy : Option (List UInt8)) :
    Option Ec × List FlashOp :=
  if cfg.otpKey ∧ env.otpStatus ≠ .success then
    (some env.otpStatus, [])
  else
    rollbackUpdate cfg digest env flash (-1) entropy

/-! ## Runs -/

inductive Call where
  | updateVersion (env : Env) (next : Word)
  | addEntropy (env : Env) (entropy : Option (List UInt8))

def callOps (flash : Flash) : Call → List FlashOp
  | .updateVersion env next => (rollbackUpdateVersion cfg digest env flash next).2
  | .addEntropy env entropy => (rollbackAddEntropy cfg digest env flash entropy).2

/-- A call that was made: flash before, what happened to it, and flash after. -/
structure Step where
  before : Flash
  ops : List FlashOp
  after : Flash

def run : Flash → List Call → List Step
  | _, [] => []
  | flash, call :: calls =>
    let ops := callOps cfg digest flash call
    ⟨flash, ops, applyOps flash ops⟩ :: run (applyOps flash ops) calls

def finish : Flash → List Call → Flash
  | flash, [] => flash
  | flash, call :: calls => finish (applyOps flash (callOps cfg digest flash call)) calls

end

end ChromeEc.Rollback
