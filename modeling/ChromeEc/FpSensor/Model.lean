import Mathlib.Data.Vector.Basic
import ChromeEc.Lib.Memory

/- The fingerprint sensor: common/fpsensor/fpsensor.cc, fpsensor_state.cc,
  fpsensor_auth_commands.cc and what they use of fpsensor_crypto.cc,
  fpsensor_auth_crypto_stateless.cc and fpsensor_utils.cc.

  A step of the system is the handler of one host command or one turn of the loop of
  fp_task. What the sensor, the matcher, the random source, AES-GCM and the key derivation
  answer comes with the step. HMAC-SHA256 is a parameter of the build.

  fp_template and fp_positive_match_salt are indexed by natural numbers: the slots from
  FP_MAX_FINGER_COUNT on are whatever lies behind the arrays. Two fields of the state are
  not in the code and nothing reads them: `accessed` keeps the index of every access to the
  two arrays, and `plain` says which bytes of fp_enc_buffer were last written with the
  plaintext of a template or of its salt. -/
namespace ChromeEc.FpSensor

open ChromeEc.Lib.Memory

/-- A fixed-size array of bytes that is handled as a whole. -/
abbrev Bytes (n : Nat) := List.Vector UInt8 n

abbrev Buffer := Nat → UInt8

structure Config where
  /-- FP_MAX_FINGER_COUNT -/
  maxFingerCount : Nat
  /-- FP_ALGORITHM_TEMPLATE_SIZE -/
  templateSize : Nat
  /-- FP_SENSOR_IMAGE_SIZE -/
  imageSize : Nat
  /-- FP_SENSOR_IMAGE_OFFSET -/
  imageOffset : Nat
  /-- system_is_locked() -/
  locked : Bool
  /-- hmac_sha256 of a key and of the inputs one after the other -/
  hmacSha256 : Bytes 32 → List UInt8 → Option (Bytes 32)
  some_finger : 0 < maxFingerCount
  count_fits : maxFingerCount < 0xFFFF

/-- The return codes that the functions below give, of both enumerations. -/
inductive Rv where
  | success
  | errorUnknown
  | errorInval
  | errorOverflow
  | errorTimeout
  | errorAccessDenied
  | errorHwInternal
  | resError
  | resInvalidParam
  | resAccessDenied
  | resUnavailable
  | resTimeout
  | resOverflow
  | resBusy
  deriving DecidableEq, Repr

/-- What a handler leaves in args->response. -/
inductive Payload where
  | empty
  | mode (sensorMode : BitVec 32)
  | bytes (data : List UInt8)
  deriving DecidableEq

structure Response where
  rv : Rv
  payload : Payload := .empty
  deriving DecidableEq

/-! ## Constants -/

def fpModeDeepsleep : BitVec 32 := .twoPow 32 0
def fpModeFingerDown : BitVec 32 := .twoPow 32 1
def fpModeFingerUp : BitVec 32 := .twoPow 32 2
def fpModeCapture : BitVec 32 := .twoPow 32 3
def fpModeEnrollSession : BitVec 32 := .twoPow 32 4
def fpModeEnrollImage : BitVec 32 := .twoPow 32 5
def fpModeMatch : BitVec 32 := .twoPow 32 6
def fpModeResetSensor : BitVec 32 := .twoPow 32 7
def fpModeSensorMaintenance : BitVec 32 := .twoPow 32 8
def fpModeDontChange : BitVec 32 := .twoPow 32 31

def fpValidModes : BitVec 32 :=
  fpModeDeepsleep ||| fpModeFingerDown ||| fpModeFingerUp ||| fpModeCapture ||| fpModeEnrollSession |||
    fpModeEnrollImage ||| fpModeMatch ||| fpModeResetSensor ||| fpModeSensorMaintenance ||| fpModeDontChange

def fpModesWithAuthentication : BitVec 32 := fpModeEnrollSession ||| fpModeMatch
def fpModeAnyCapture : BitVec 32 := fpModeCapture ||| fpModeEnrollImage ||| fpModeMatch
def fpModeAnyDetectFinger : BitVec 32 := fpModeFingerDown ||| fpModeFingerUp ||| fpModeAnyCapture
def fpModeAnyWaitIrq : BitVec 32 := fpModeFingerDown ||| fpModeAnyCapture

def fpModeCaptureTypeMask : BitVec 32 := 0x1F#32 <<< 26
def fpCaptureType (mode : BitVec 32) : Nat := ((mode &&& fpModeCaptureTypeMask) >>> 26).toNat
def fpCaptureTypeMax : Nat := 21

def fpNoSuchTemplate : Nat := 0xFFFF
def fpTemplateFormatVersion : UInt16 := 4
def second : Nat := 1000000

/-- Where the members of struct enc_buffer start. -/
def nonceOffset : Nat := 4
def encryptionSaltOffset : Nat := 16
def tagOffset : Nat := 32
def fpTemplateOffset : Nat := 48

def fpPositiveMatchSaltBytes : Nat := 16

/-- The template and the salt behind it, which are encrypted and decrypted together. -/
def payloadSize (cfg : Config) : Nat := cfg.templateSize + fpPositiveMatchSaltBytes

/-- sizeof(fp_enc_buffer) -/
def encBufferSize (cfg : Config) : Nat := fpTemplateOffset + payloadSize cfg

def ascii (text : List Char) : List UInt8 := text.map fun c => c.toNat.toUInt8

def senderFingerGuard : List UInt8 := ascii ['f', 'i', 'n', 'g', 'e', 'r', '_', 'g', 'u', 'a', 'r', 'd']
def senderFpmcu : List UInt8 := ascii ['f', 'p', 'm', 'c', 'u']
def operationEnroll : List UInt8 := ascii ['e', 'n', 'r', 'o', 'l', 'l']
def operationAuth : List UInt8 := ascii ['a', 'u', 't', 'h']
def operationEnrollFinish : List UInt8 :=
  ascii ['e', 'n', 'r', 'o', 'l', 'l', '_', 'f', 'i', 'n', 'i', 's', 'h']

/-! ## State -/

/-- The flags of fp_encryption_status. -/
structure EncryptionStatus where
  seedSet : Bool := false
  sessionEstablished : Bool := false
  sessionNonceSet : Bool := false
  userIdSet : Bool := false
  challengeSet : Bool := false

structure PositiveMatchSecretState where
  templateMatched : Nat
  readable : Bool
  deadline : Nat

structure State where
  templateNewlyEnrolled : Nat
  templValid : Nat
  templDirty : BitVec 32
  encryptionStatus : EncryptionStatus
  sensorMode : BitVec 32
  tpmSeed : Bytes 32
  userId : Bytes 32
  positiveMatchSecretState : PositiveMatchSecretState
  fpPositiveMatchSalt : Nat → Buffer
  fpTemplate : Nat → Buffer
  fpEncBuffer : Buffer
  fpBuffer : Buffer
  encryptionDeadline : Nat
  enrollSession : BitVec 32
  /-- TASK_EVENT_UPDATE_CONFIG is set for fp_task. -/
  updateConfig : Bool
  pairingKey : Bytes 32
  sessionNonce : Bytes 32
  sessionKey : Bytes 32
  challenge : Bytes 32
  challengeCtime : Nat
  accessed : List Nat
  plain : Nat → Bool

def zeros (n : Nat) : Bytes n := List.Vector.replicate n 0

def noMatch : PositiveMatchSecretState := { templateMatched := fpNoSuchTemplate, readable := false, deadline := 0 }

def boot : State where
  templateNewlyEnrolled := fpNoSuchTemplate
  templValid := 0
  templDirty := 0
  encryptionStatus := {}
  sensorMode := 0
  tpmSeed := zeros 32
  userId := zeros 32
  positiveMatchSecretState := noMatch
  fpPositiveMatchSalt := fun _ _ => 0
  fpTemplate := fun _ _ => 0
  fpEncBuffer := fun _ => 0
  fpBuffer := fun _ => 0
  encryptionDeadline := 0
  enrollSession := 0
  updateConfig := false
  pairingKey := zeros 32
  sessionNonce := zeros 32
  sessionKey := zeros 32
  challenge := zeros 32
  challengeCtime := 0
  accessed := []
  plain := fun _ => false

/-! ## Helpers -/

def has (mode flags : BitVec 32) : Bool := mode &&& flags != 0#32

def fingerprintAuthEnabled (s : State) : Bool := s.encryptionStatus.sessionEstablished

def timestampExpired (deadline now : Nat) : Bool := decide (deadline ≤ now)

def bytesAreTrivial (bytes : List UInt8) : Bool := bytes.all (· == 0) || bytes.all (· == 0xff)

def validateFpBufferOffset (bufferSize offset size : Nat) : Rv :=
  if 2 ^ 32 ≤ size + offset then .errorOverflow
  else if bufferSize < size + offset then .errorInval
  else .success

def skipImageOffset (mode : BitVec 32) : Bool := !(fpCaptureType mode == 0 || fpCaptureType mode == 16)

def isFingerNeeded (mode : BitVec 32) : Bool :=
  !(has mode fpModeCapture && [1, 2, 3, 8, 12, 20].contains (fpCaptureType mode))

/-- The first four bytes of the user id, which requests are signed with. -/
def context (userId : Bytes 32) : List UInt8 := userId.toList.take 4

/-- templ_valid is 16 bits wide. -/
def increment (templValid : Nat) : Nat := (templValid + 1) % 0x10000

/-- An access to the slot of one finger in fp_template or fp_positive_match_salt. -/
def State.access (s : State) (idx : Nat) : State := { s with accessed := idx :: s.accessed }

def State.setTemplate (s : State) (idx : Nat) (templ : Buffer) : State :=
  { s.access idx with fpTemplate := Function.update s.fpTemplate idx templ }

def State.setSalt (s : State) (idx : Nat) (salt : Buffer) : State :=
  { s.access idx with fpPositiveMatchSalt := Function.update s.fpPositiveMatchSalt idx salt }

/-- Bytes from the host or from AES-GCM in fp_enc_buffer. -/
def State.putPublic (s : State) (offset size : Nat) (data : Buffer) : State :=
  { s with
    fpEncBuffer := copy s.fpEncBuffer offset size data
    plain := copy s.plain offset size fun _ => false }

/-- Bytes of a template or of its salt in fp_enc_buffer. -/
def State.putPlain (s : State) (offset size : Nat) (data : Buffer) : State :=
  { s with
    fpEncBuffer := copy s.fpEncBuffer offset size data
    plain := copy s.plain offset size fun _ => true }

def State.clearEncBuffer (s : State) : State := { s with fpEncBuffer := fun _ => 0, plain := fun _ => false }

/-- The salt behind the template in fp_enc_buffer. -/
def saltInBuffer (cfg : Config) (s : State) : List UInt8 :=
  read s.fpEncBuffer (fpTemplateOffset + cfg.templateSize) fpPositiveMatchSaltBytes

/-! ## fpsensor_state.cc -/

def fpClearFingerContext (idx : Nat) (s : State) : State :=
  (s.setTemplate idx fun _ => 0).setSalt idx fun _ => 0

def fpDisablePositiveMatchSecret (s : State) : State := { s with positiveMatchSecretState := noMatch }

def fpEnablePositiveMatchSecret (fgr now : Nat) (s : State) : State :=
  if s.positiveMatchSecretState.readable then fpDisablePositiveMatchSecret s
  else { s with positiveMatchSecretState := { templateMatched := fgr, readable := true, deadline := now + 5 * second } }

def fpResetContext (s : State) : State :=
  fpDisablePositiveMatchSecret
    { s.clearEncBuffer with
      templValid := 0
      templDirty := 0
      templateNewlyEnrolled := fpNoSuchTemplate
      encryptionStatus := { s.encryptionStatus with userIdSet := false, challengeSet := false }
      userId := zeros 32 }

def fpResetAndClearContext (cfg : Config) (s : State) : State :=
  (List.range cfg.maxFingerCount).foldl (fun s idx => fpClearFingerContext idx s)
    { fpResetContext s with fpBuffer := fun _ => 0 }

def fpCommandTpmSeed (structVersion : UInt16) (seed : Bytes 32) (s : State) : State × Response :=
  if structVersion ≠ fpTemplateFormatVersion then (s, { rv := .resInvalidParam })
  else if s.encryptionStatus.seedSet then (s, { rv := .resAccessDenied })
  else ({ s with tpmSeed := seed, encryptionStatus := { s.encryptionStatus with seedSet := true } }, { rv := .success })

def validateFpMode (cfg : Config) (mode : BitVec 32) (s : State) : Rv :=
  if fpCaptureTypeMax ≤ fpCaptureType mode then .errorInval
  else if has (mode &&& ~~~fpModeCaptureTypeMask) (~~~fpValidModes) then .errorInval
  else if has mode fpModeEnrollSession ∧ cfg.maxFingerCount ≤ s.templValid then .errorInval
  else if has mode fpModeResetSensor ∧ has s.sensorMode fpValidModes then .errorInval
  else .success

def computeMessageSignature (cfg : Config) (sessionKey : Bytes 32) (context sender operation : List UInt8)
    (challenge : Bytes 32) : Option (Bytes 32) :=
  cfg.hmacSha256 sessionKey (challenge.toList ++ context ++ sender ++ operation)

/-- FP_AUTH_CHALLENGE_SET is cleared. -/
def removeChallenge (s : State) : State :=
  { s with encryptionStatus := { s.encryptionStatus with challengeSet := false } }

/-- What validate_request finds out about a request once the challenge is removed. -/
def checkRequest (cfg : Config) (operation : List UInt8) (mac : Bytes 32) (now : Nat) (s : State) : Rv :=
  if s.challengeCtime + 5 * second < now then .errorTimeout
  else
    match computeMessageSignature cfg s.sessionKey (context s.userId) senderFingerGuard operation s.challenge with
    | none => .errorInval
    | some computedMac => if mac ≠ computedMac then .errorAccessDenied else .success

def validateRequest (cfg : Config) (operation : List UInt8) (mac : Bytes 32) (now : Nat) (s : State) : State × Rv :=
  if !s.encryptionStatus.challengeSet then (s, .errorAccessDenied)
  else (removeChallenge s, checkRequest cfg operation mac now s)

/-- Only the flags that the request turns on are looked at. -/
def authenticateFpMode (cfg : Config) (mode : BitVec 32) (mac : Option (Bytes 32)) (now : Nat) (s : State) : State × Rv :=
  if !fingerprintAuthEnabled s then (s, .success)
  else
    let flagsChanged := s.sensorMode ^^^ mode
    let flagsEnabled := mode &&& flagsChanged
    if !has flagsEnabled fpModesWithAuthentication then (s, .success)
    else
      match mac with
      | none => (s, .errorAccessDenied)
      | some mac =>
        if has flagsEnabled fpModeEnrollSession then validateRequest cfg operationEnroll mac now s
        else if has flagsEnabled fpModeMatch then validateRequest cfg operationAuth mac now s
        else (s, .errorUnknown)

def fpSetSensorMode (cfg : Config) (mode : BitVec 32) (mac : Option (Bytes 32)) (now : Nat) (s : State) :
    State × Response :=
  if validateFpMode cfg mode s ≠ .success then (s, { rv := .resInvalidParam })
  else if has mode fpModeDontChange then (s, { rv := .success, payload := .mode s.sensorMode })
  else
    match authenticateFpMode cfg mode mac now s with
    | (s, .success) => ({ s with sensorMode := mode, updateConfig := true }, { rv := .success, payload := .mode mode })
    | (s, _) => (s, { rv := .resAccessDenied })

/-- A request of version 1 comes with a MAC. -/
def fpCommandMode (cfg : Config) (mode : BitVec 32) (mac : Option (Bytes 32)) (now : Nat) (s : State) : State × Response :=
  fpSetSensorMode cfg mode mac now s

/-- The response of FP_CONTEXT_ASYNC carries no data. -/
def fpCommandContext (cfg : Config) (action : UInt8) (userId : Bytes 32) (now : Nat) (s : State) : State × Response :=
  if action = 0 then
    if has s.sensorMode fpModeResetSensor then (s, { rv := .resBusy })
    else
      let (s, response) := fpSetSensorMode cfg fpModeResetSensor none now s
      (s, { rv := response.rv })
  else if action = 1 then
    if has s.sensorMode fpModeResetSensor then (s, { rv := .resBusy })
    else
      let userIdSet := s.encryptionStatus.userIdSet || userId.toList.any (· != 0)
      ({ s with userId := userId, encryptionStatus := { s.encryptionStatus with userIdSet := userIdSet } },
        { rv := .success })
  else (s, { rv := .resInvalidParam })

/-- derive_key: the TPM seed has to be set, the rest is the answer of the key derivation. -/
def deriveKey (s : State) (derived : Option (Bytes 32)) : Option (Bytes 32) :=
  if bytesAreTrivial s.tpmSeed.toList then none else derived

def derivePositiveMatchSecret (salt : List UInt8) (s : State) (derived : Option (Bytes 32)) : Option (Bytes 32) :=
  if bytesAreTrivial salt then none
  else
    match deriveKey s derived with
    | none => none
    | some secret => if bytesAreTrivial secret.toList then none else some secret

/-- The finger number is the low byte of the parameter, with its sign. -/
def fingerNumber (fgr : UInt16) : Option Nat := if fgr.toNat % 256 < 128 then some (fgr.toNat % 256) else none

def fpReadMatchSecret (cfg : Config) (fgr : Option Nat) (derived : Option (Bytes 32)) (now : Nat) (s : State) :
    State × Response :=
  let stateCopy := s.positiveMatchSecretState
  let s := fpDisablePositiveMatchSecret s
  match fgr with
  | none => (s, { rv := .resInvalidParam })
  | some fgr =>
    if cfg.maxFingerCount ≤ fgr then (s, { rv := .resInvalidParam })
    else if timestampExpired stateCopy.deadline now then (s, { rv := .resTimeout })
    else if fgr ≠ stateCopy.templateMatched ∨ !stateCopy.readable then (s, { rv := .resAccessDenied })
    else
      let s := s.access fgr
      match derivePositiveMatchSecret (read (s.fpPositiveMatchSalt fgr) 0 fpPositiveMatchSaltBytes) s derived with
      | none => (s, { rv := .resError })
      | some secret => (s, { rv := .success, payload := .bytes secret.toList })

def fpCommandReadMatchSecret (cfg : Config) (fgr : UInt16) (derived : Option (Bytes 32)) (now : Nat) (s : State) :
    State × Response :=
  fpReadMatchSecret cfg (fingerNumber fgr) derived now s

def fpCommandSignMatch (cfg : Config) (peerChallenge : Bytes 32) (now : Nat) (s : State) : State × Response :=
  if !fingerprintAuthEnabled s then (s, { rv := .resAccessDenied })
  else
    let stateCopy := s.positiveMatchSecretState
    let s := fpDisablePositiveMatchSecret s
    if fpNoSuchTemplate = stateCopy.templateMatched ∨ !stateCopy.readable then (s, { rv := .resAccessDenied })
    else if timestampExpired stateCopy.deadline now then (s, { rv := .resTimeout })
    else
      match computeMessageSignature cfg s.sessionKey (context s.userId) senderFpmcu operationAuth peerChallenge with
      | none => (s, { rv := .resError })
      | some signature => (s, { rv := .success, payload := .bytes signature.toList })

end ChromeEc.FpSensor
