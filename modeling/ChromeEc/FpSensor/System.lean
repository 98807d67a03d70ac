import ChromeEc.FpSensor.Model
import ChromeEc.Lib.Steps

/- The fingerprint sensor as a system of steps: the session commands of
  fpsensor_auth_commands.cc, the template commands and fp_task of fpsensor.cc. -/
namespace ChromeEc.FpSensor

open ChromeEc.Lib.Memory

/-! ## What the rest of the system answers -/

/-- The outcome of AES-GCM working in place on a region of fp_enc_buffer. -/
inductive Aead where
  /-- The context is not set up and nothing is written. -/
  | noContext
  /-- The operation fails, after which `left` is in the region. -/
  | failed (left : Buffer)
  | done (out : Buffer)

inductive KeyDecryption where
  | noContext
  | failed (left : Bytes 32)
  | done (key : Bytes 32)

/-- What fp_command_frame asks for when the host reads the first chunk of a template. -/
structure Encryption where
  nonce : Buffer
  encryptionSalt : Buffer
  /-- The positive match salt of a newly enrolled template. -/
  newSalt : Buffer
  key : Bool
  aead : Aead
  tag : Buffer

structure Decryption where
  key : Bool
  aead : Aead

/-- The outcome of fp_enrollment_finish, which writes to the slot it is given. -/
inductive EnrollmentFinish where
  | failed (left : Buffer)
  | done (templ : Buffer)

inductive FingerState where
  | none
  | part
  | present
  deriving DecidableEq

/-- What the sensor and the matcher answer while an image of a finger is processed. -/
structure FingerImage where
  /-- fp_acquire_image returns 0. -/
  acquired : Bool
  image : Buffer
  enrollRes : Int
  percent : Int
  finish : EnrollmentFinish
  matchRes : Int
  matchIndex : Int
  updated : BitVec 32
  /-- fp_template after fp_finger_match, as far as it was handed over. -/
  matched : Nat → Buffer

/-! ## fpsensor_auth_commands.cc -/

def checkContextCleared (s : State) : Bool :=
  s.userId.toList.all (· == 0) && s.templValid == 0 && s.templDirty == 0 &&
    s.positiveMatchSecretState.templateMatched == fpNoSuchTemplate && !s.encryptionStatus.userIdSet

def fpCommandLoadPairingKey (structVersion : UInt16) (decryption : KeyDecryption) (s : State) : State × Response :=
  if !checkContextCleared s then (s, { rv := .resAccessDenied })
  else if fingerprintAuthEnabled s then (s, { rv := .resAccessDenied })
  else if structVersion ≠ 1 then (s, { rv := .resUnavailable })
  else
    match decryption with
    | .noContext => (s, { rv := .resUnavailable })
    | .failed left => ({ s with pairingKey := left }, { rv := .resUnavailable })
    | .done key => ({ s with pairingKey := key }, { rv := .success })

/-- A new nonce in a session invalidates the context and leaves the session and the mode. -/
def fpCommandGenerateNonce (nonce : Bytes 32) (s : State) : State × Response :=
  let s := if fingerprintAuthEnabled s then fpResetContext s else s
  ({ s with sessionNonce := nonce, encryptionStatus := { s.encryptionStatus with sessionNonceSet := true } },
    { rv := .success, payload := .bytes nonce.toList })

def generateSessionKey (cfg : Config) (fpmcuNonce peerNonce pairingKey : Bytes 32) : Option (Bytes 32) :=
  cfg.hmacSha256 pairingKey (fpmcuNonce.toList ++ peerNonce.toList)

/-- The session key is replaced before the TPM seed is decrypted with it. -/
def fpCommandEstablishSession (cfg : Config) (peerNonce : Bytes 32) (tpmSeed : Option (Bytes 32)) (s : State) :
    State × Response :=
  if !s.encryptionStatus.sessionNonceSet then (s, { rv := .resAccessDenied })
  else
    match generateSessionKey cfg s.sessionNonce peerNonce s.pairingKey with
    | none => (s, { rv := .resInvalidParam })
    | some sessionKey =>
      let s := { s with sessionKey := sessionKey }
      match tpmSeed with
      | none => (s, { rv := .resError })
      | some seed =>
        ({ s with
            tpmSeed := seed
            encryptionStatus :=
              { s.encryptionStatus with seedSet := true, sessionNonceSet := false, sessionEstablished := true } },
          { rv := .success })

def fpCmdGenerateChallenge (challenge : Bytes 32) (now : Nat) (s : State) : State × Response :=
  if !fingerprintAuthEnabled s then (s, { rv := .resAccessDenied })
  else
    ({ s with
        challenge := challenge
        challengeCtime := now
        encryptionStatus := { s.encryptionStatus with challengeSet := true } },
      { rv := .success, payload := .bytes challenge.toList })

/-! ## fpsensor.cc: host commands -/

/-- The metadata of a template that is about to be encrypted, in a cleared buffer. -/
def writeMetadata (nonce encryptionSalt : Buffer) (s : State) : State :=
  let s := s.clearEncBuffer
  let s := s.putPublic 0 2 fun i => if i = 0 then fpTemplateFormatVersion.toUInt8 else 0
  (s.putPublic nonceOffset 12 nonce).putPublic encryptionSaltOffset 16 encryptionSalt

/-- A newly enrolled template gets its salt when it is read for the first time. -/
def renewSalt (fgr : Nat) (newSalt : Buffer) (s : State) : State :=
  if fgr = s.templateNewlyEnrolled then
    { s.setSalt fgr newSalt with templateNewlyEnrolled := fpNoSuchTemplate }
  else s

def clearDirty (fgr : Nat) (s : State) : State := { s with templDirty := s.templDirty &&& ~~~BitVec.twoPow 32 fgr }

/-- The template and its salt behind the metadata. -/
def copyPayload (cfg : Config) (fgr : Nat) (s : State) : State :=
  let s := (s.access fgr).putPlain fpTemplateOffset cfg.templateSize (s.fpTemplate fgr)
  s.putPlain (fpTemplateOffset + cfg.templateSize) fpPositiveMatchSaltBytes (s.fpPositiveMatchSalt fgr)

/-- The encryption of a template in place, up to the point where the chunk is copied. -/
def encryptTemplate (cfg : Config) (fgr now : Nat) (answer : Encryption) (s : State) : State × Rv :=
  if !timestampExpired s.encryptionDeadline now then (s, .resBusy)
  else
    let s := { s with encryptionDeadline := now + 1 * second }
    let s := renewSalt fgr answer.newSalt (writeMetadata answer.nonce answer.encryptionSalt s)
    if bytesAreTrivial s.tpmSeed.toList || !answer.key then (s, .resUnavailable)
    else
      let s := copyPayload cfg fgr s
      match answer.aead with
      | .noContext => (s, .resUnavailable)
      | .failed left => (s.putPublic fpTemplateOffset (payloadSize cfg) left, .resUnavailable)
      | .done out =>
        (clearDirty fgr ((s.putPublic fpTemplateOffset (payloadSize cfg) out).putPublic tagOffset 16 answer.tag), .success)

/-- The upper four bits of `offset` say what is read: the image or a template, numbered from 1. -/
def fpCommandFrame (cfg : Config) (offset size : UInt32) (responseMax now : Nat) (answer : Encryption) (s : State) :
    State × Response :=
  let idx := offset.toNat / 2 ^ 28
  let offset := offset.toNat % 2 ^ 28
  let size := size.toNat
  if responseMax < size then (s, { rv := .resInvalidParam })
  else if idx = 0 then
    if cfg.locked then (s, { rv := .resAccessDenied })
    else
      let offset := if skipImageOffset s.sensorMode then offset + cfg.imageOffset else offset
      if validateFpBufferOffset cfg.imageSize offset size ≠ .success then (s, { rv := .resInvalidParam })
      else (s, { rv := .success, payload := .bytes (read s.fpBuffer offset size) })
  else
    let fgr := idx - 1
    if cfg.maxFingerCount ≤ fgr then (s, { rv := .resInvalidParam })
    else if s.templValid ≤ fgr then (s, { rv := .resUnavailable })
    else if validateFpBufferOffset (encBufferSize cfg) offset size ≠ .success then (s, { rv := .resInvalidParam })
    else if offset = 0 then
      match encryptTemplate cfg fgr now answer s with
      | (s, .success) => (s, { rv := .success, payload := .bytes (read s.fpEncBuffer offset size) })
      | (s, rv) => (s, { rv := rv })
    -- only the first chunk is encrypted, the others are read as they are
    else (s, { rv := .success, payload := .bytes (read s.fpEncBuffer offset size) })

/-- struct_version of the metadata in fp_enc_buffer. -/
def structVersion (s : State) : Nat := (s.fpEncBuffer 0).toNat + 256 * (s.fpEncBuffer 1).toNat

def validateTemplateFormat (s : State) : Bool := structVersion s == fpTemplateFormatVersion.toNat

def decryptTemplate (cfg : Config) (answer : Decryption) (s : State) : State × Rv :=
  if bytesAreTrivial s.tpmSeed.toList || !answer.key then (s, .resUnavailable)
  else
    match answer.aead with
    | .noContext => (fpClearFingerContext s.templValid s, .resUnavailable)
    | .failed left =>
      let s := s.putPublic fpTemplateOffset (payloadSize cfg) left
      (fpClearFingerContext s.templValid s, .resUnavailable)
    | .done out => (s.putPlain fpTemplateOffset (payloadSize cfg) out, .success)

/-- The slot at templ_valid from what was decrypted. -/
def storeTemplate (cfg : Config) (s : State) : State × Response :=
  let idx := s.templValid
  let templ := copy (s.fpTemplate idx) 0 cfg.templateSize fun i => s.fpEncBuffer (fpTemplateOffset + i)
  let s := s.setTemplate idx templ
  if bytesAreTrivial (saltInBuffer cfg s) then (s.setTemplate idx fun _ => 0, { rv := .resInvalidParam })
  else
    let salt := copy (s.fpPositiveMatchSalt idx) 0 fpPositiveMatchSaltBytes fun i =>
      s.fpEncBuffer (fpTemplateOffset + cfg.templateSize + i)
    ({ s.setSalt idx salt with templValid := increment s.templValid }, { rv := .success })

def fpCommitTemplate (cfg : Config) (answer : Decryption) (s : State) : State × Response :=
  let s := fpClearFingerContext s.templValid s
  if !validateTemplateFormat s then (s, { rv := .resInvalidParam })
  else
    match decryptTemplate cfg answer s with
    | (s, .success) => storeTemplate cfg s
    | (s, rv) => (s, { rv := rv })

def fpCommandTemplate (cfg : Config) (paramsSize : Nat) (offset size : UInt32) (data : Buffer) (answer : Decryption)
    (s : State) : State × Response :=
  let xferComplete := decide (2 ^ 31 ≤ size.toNat)
  let size := size.toNat % 2 ^ 31
  if cfg.maxFingerCount ≤ s.templValid then (s, { rv := .resOverflow })
  else if paramsSize ≠ size + 8 then (s, { rv := .resInvalidParam })
  else if validateFpBufferOffset (encBufferSize cfg) offset.toNat size ≠ .success then (s, { rv := .resInvalidParam })
  else
    let s := s.putPublic offset.toNat size data
    if xferComplete then fpCommitTemplate cfg answer s else (s, { rv := .success })

def fpCommandConfirmTemplate (cfg : Config) (mac : Bytes 32) (now : Nat) (s : State) : State × Response :=
  if s.templateNewlyEnrolled ≠ s.templValid then (s, { rv := .resError })
  else
    match validateRequest cfg operationEnrollFinish mac now s with
    | (s, .success) => ({ s with templValid := increment s.templValid }, { rv := .success })
    | (s, _) => (s, { rv := .resAccessDenied })

/-! ## fpsensor.cc: fp_task -/

/-- The slot at templ_valid is filled. -/
def newTemplate (templ : Buffer) (s : State) : State :=
  { s.setTemplate s.templValid templ with templateNewlyEnrolled := s.templValid }

def validAtOnce (s : State) : State :=
  if fingerprintAuthEnabled s then s else { s with templValid := increment s.templValid }

def finishEnrollment (finish : EnrollmentFinish) (now : Nat) (s : State) : State :=
  match finish with
  | .failed left => s.setTemplate s.templValid left
  | .done templ => validAtOnce (fpEnablePositiveMatchSecret s.templValid now (newTemplate templ s))

def fpProcessEnroll (answer : FingerImage) (now : Nat) (s : State) : State :=
  if answer.enrollRes < 0 then s
  else
    let s := { s with templDirty := s.templDirty ||| BitVec.twoPow 32 s.templValid }
    if answer.percent = 100 then
      let s := finishEnrollment answer.finish now s
      { s with
        sensorMode := s.sensorMode &&& ~~~fpModeEnrollSession
        enrollSession := s.enrollSession &&& ~~~fpModeEnrollSession }
    else s

/-- EC_MKBP_FP_ERR_MATCH_YES, _UPDATED and _UPDATE_FAILED. -/
def fpMatchSuccess (res : Int) : Bool := res == 1 || res == 3 || res == 5

/-- EC_MKBP_FP_ERR_MATCH_YES_UPDATED -/
def matchYesUpdated : Int := 3

def acceptedMatch (cfg : Config) (answer : FingerImage) : Option Nat :=
  if fpMatchSuccess answer.matchRes ∧ 0 ≤ answer.matchIndex ∧ answer.matchIndex < cfg.maxFingerCount then
    some answer.matchIndex.toNat
  else none

/-- The matcher is handed the valid templates and may update them. -/
def fpFingerMatch (answer : FingerImage) (s : State) : State :=
  { s with
    fpTemplate := fun i => if i < s.templValid then answer.matched i else s.fpTemplate i
    accessed := List.range s.templValid ++ s.accessed }

def markUpdated (answer : FingerImage) (s : State) : State :=
  if answer.matchRes = matchYesUpdated then { s with templDirty := s.templDirty ||| answer.updated } else s

def fpProcessMatch (cfg : Config) (answer : FingerImage) (now : Nat) (s : State) : State :=
  let s := fpDisablePositiveMatchSecret s
  if s.templValid = 0 then s
  else
    match acceptedMatch cfg answer with
    | none => fpFingerMatch answer s
    | some fgr => markUpdated answer (fpEnablePositiveMatchSecret fgr now (fpFingerMatch answer s))

def fpProcessFinger (cfg : Config) (answer : FingerImage) (now : Nat) (s : State) : State :=
  let s := { s with fpBuffer := answer.image }
  if !answer.acquired then s
  else
    let s :=
      if has s.sensorMode fpModeEnrollImage then fpProcessEnroll answer now s
      else if has s.sensorMode fpModeMatch then fpProcessMatch cfg answer now s
      else s
    { s with sensorMode := s.sensorMode &&& ~~~fpModeAnyCapture }

/-- A new mode starts an enrolment or ends one. -/
def updateEnrollSession (beginFails : Bool) (s : State) : State :=
  if has (s.sensorMode ^^^ s.enrollSession) fpModeEnrollSession then
    let sensorMode :=
      if has s.sensorMode fpModeEnrollSession ∧ beginFails then s.sensorMode &&& ~~~fpModeEnrollSession
      else s.sensorMode
    { s with sensorMode := sensorMode, enrollSession := sensorMode &&& fpModeEnrollSession }
  else s

/-- TASK_EVENT_UPDATE_CONFIG. -/
def fpTaskUpdateConfig (cfg : Config) (beginFails : Bool) (image : Buffer) (s : State) : State :=
  let mode := s.sensorMode
  let s := updateEnrollSession beginFails { s with updateConfig := false }
  if !isFingerNeeded mode then { s with fpBuffer := image, sensorMode := s.sensorMode &&& ~~~fpModeCapture }
  else if has mode fpModeAnyWaitIrq then s
  else if has mode fpModeResetSensor then
    let s := fpResetAndClearContext cfg s
    { s with sensorMode := s.sensorMode &&& ~~~fpModeResetSensor }
  else if has mode fpModeSensorMaintenance then
    { s with sensorMode := s.sensorMode &&& ~~~fpModeSensorMaintenance }
  else s

def detectFinger (st : FingerState) (s : State) : State :=
  let s :=
    if st = .present ∧ has s.sensorMode fpModeFingerDown then
      { s with sensorMode := s.sensorMode &&& ~~~fpModeFingerDown }
    else s
  if st = .none ∧ has s.sensorMode fpModeFingerUp then { s with sensorMode := s.sensorMode &&& ~~~fpModeFingerUp } else s

/-- TASK_EVENT_SENSOR_IRQ or TASK_EVENT_TIMER. The finger is asked for only if it is waited for. -/
def fpTaskSensorEvent (cfg : Config) (finger : FingerState) (answer : FingerImage) (now : Nat) (s : State) : State :=
  if has s.sensorMode fpModeAnyDetectFinger then
    let s := detectFinger finger s
    if finger = .present ∧ has s.sensorMode fpModeAnyCapture then fpProcessFinger cfg answer now s else s
  else s

/-! ## Steps -/

inductive Label where
  | mode (mode : BitVec 32) (mac : Option (Bytes 32)) (now : Nat)
  | context (action : UInt8) (userId : Bytes 32) (now : Nat)
  | tpmSeed (structVersion : UInt16) (seed : Bytes 32)
  | readMatchSecret (fgr : UInt16) (derived : Option (Bytes 32)) (now : Nat)
  | signMatch (peerChallenge : Bytes 32) (now : Nat)
  | loadPairingKey (structVersion : UInt16) (decryption : KeyDecryption)
  | generateNonce (nonce : Bytes 32)
  | establishSession (peerNonce : Bytes 32) (tpmSeed : Option (Bytes 32))
  | generateChallenge (challenge : Bytes 32) (now : Nat)
  | frame (offset size : UInt32) (responseMax now : Nat) (answer : Encryption)
  | template (paramsSize : Nat) (offset size : UInt32) (data : Buffer) (answer : Decryption)
  | confirmTemplate (mac : Bytes 32) (now : Nat)
  | updateConfig (beginFails : Bool) (image : Buffer)
  | sensorEvent (finger : FingerState) (answer : FingerImage) (now : Nat)

/-- The state after a step and the response of a host command. -/
def exec (cfg : Config) : Label → State → State × Response
  | .mode mode mac now, s => fpCommandMode cfg mode mac now s
  | .context action userId now, s => fpCommandContext cfg action userId now s
  | .tpmSeed structVersion seed, s => fpCommandTpmSeed structVersion seed s
  | .readMatchSecret fgr derived now, s => fpCommandReadMatchSecret cfg fgr derived now s
  | .signMatch peerChallenge now, s => fpCommandSignMatch cfg peerChallenge now s
  | .loadPairingKey structVersion decryption, s => fpCommandLoadPairingKey structVersion decryption s
  | .generateNonce nonce, s => fpCommandGenerateNonce nonce s
  | .establishSession peerNonce tpmSeed, s => fpCommandEstablishSession cfg peerNonce tpmSeed s
  | .generateChallenge challenge now, s => fpCmdGenerateChallenge challenge now s
  | .frame offset size responseMax now answer, s => fpCommandFrame cfg offset size responseMax now answer s
  | .template paramsSize offset size data answer, s => fpCommandTemplate cfg paramsSize offset size data answer s
  | .confirmTemplate mac now, s => fpCommandConfirmTemplate cfg mac now s
  | .updateConfig beginFails image, s => (fpTaskUpdateConfig cfg beginFails image s, { rv := .success })
  | .sensorEvent finger answer now, s => (fpTaskSensorEvent cfg finger answer now s, { rv := .success })

/-- fp_task updates the mode only after it was told to. -/
def Label.enabled : Label → State → Bool
  | .updateConfig .., s => s.updateConfig
  | _, _ => true

def step (cfg : Config) (i : Label) (s : State) : Option State := if i.enabled s then some (exec cfg i s).1 else none

abbrev Run (cfg : Config) : List (State × Label) → State → Prop := Lib.Steps.Run (step cfg) boot

/-! ## The emulator -/

/-- A digest from its hexadecimal digits. -/
def digest (n : Nat) : Bytes 32 := ⟨(List.range 32).map fun i => (n / 256 ^ (31 - i)).toUInt8, by simp⟩

/-- The session key of a session with a zero pairing key and zero nonces. -/
def zeroSessionKey : Bytes 32 := digest 0xffc31a0d64093a6c946f815b8d3d27057d4c62f78cf138c77323600b899c97c2

def requestMac : List UInt8 → Bytes 32
  | op =>
    if op = operationAuth then digest 0xccb1450955ad957e1fae3a48698ed12cfb8ba975cbbc1b27b8f88d958b3f66c7
    else if op = operationEnroll then digest 0xba975fcab182cafa0ce75462f0052cee3f017fa321ba2d13dde5fdb1f944e3f4
    else digest 0xa1850d070aac311379cbd7b0f7ce69c7ac2a438190d12bd94ea33c09956ccbd1

/-- HMAC-SHA256 on the messages of that session with the zero user and zero challenges. -/
def zeroHmac (key : Bytes 32) (message : List UInt8) : Option (Bytes 32) :=
  if key = zeros 32 ∧ message = List.replicate 64 0 then some zeroSessionKey
  else
    [operationAuth, operationEnroll, operationEnrollFinish].findSome? fun op =>
      if key = zeroSessionKey ∧ message = List.replicate 36 0 ++ senderFingerGuard ++ op then
        some (requestMac op) else none

def emulator : Config where
  maxFingerCount := 5
  templateSize := 4
  imageSize := 0
  imageOffset := 0
  locked := true
  hmacSha256 := zeroHmac
  some_finger := by decide
  count_fits := by decide

/-- The bytes 1, 2, 3 and so on. -/
def counting : Buffer := fun i => i.toUInt8 + 1

def commit (aead : Aead) : Label :=
  .template 10 0 0x80000002 (fun i => if i = 0 then 4 else 0) { key := true, aead := aead }

def lastImage : FingerImage where
  acquired := true
  image := fun _ => 0
  enrollRes := 0
  percent := 100
  finish := .done counting
  matchRes := 0
  matchIndex := -1
  updated := 0
  matched := fun _ => counting

def firstChunk (aead : Aead) (now : Nat) : Label :=
  .frame 0x10000000 0 512 now
    { nonce := counting, encryptionSalt := counting, newSalt := counting, key := true, aead := aead, tag := counting }

def matchedImage (idx : Int) : FingerImage := { lastImage with matchRes := 1, matchIndex := idx }

end ChromeEc.FpSensor
