import ChromeEc.FpSensor.Events

/- What a step does to the mode, to the session and to the challenge.

  The commands that are about templates and match secrets leave all of it alone, and fp_task
  only turns flags of the mode off. What is proved: a flag that a step turns on was asked for
  by a mode request (`flag_exec`), and the keys of the session change in two commands only
  (`keys_exec`). -/
namespace ChromeEc.FpSensor

variable {cfg : Config} {s s' : State} {i : Label} {now : Nat}

/-- Mode, session and challenge. -/
structure Control where
  sensorMode : BitVec 32
  session : Bool
  sessionKey : Bytes 32
  challengeSet : Bool
  challenge : Bytes 32
  challengeCtime : Nat

def control (s : State) : Control where
  sensorMode := s.sensorMode
  session := s.encryptionStatus.sessionEstablished
  sessionKey := s.sessionKey
  challengeSet := s.encryptionStatus.challengeSet
  challenge := s.challenge
  challengeCtime := s.challengeCtime

/-! ## Flags of the mode -/

theorem has_twoPow {mode : BitVec 32} {k : Nat} (h : k < 32) : has mode (.twoPow 32 k) = mode.getLsbD k := by
  rw [has, BitVec.and_twoPow]
  cases mode.getLsbD k
  · rfl
  · have hne : BitVec.twoPow 32 k ≠ 0#32 := fun hzero => by
      have hbit := congrArg (BitVec.getLsbD · k) hzero
      simp [h] at hbit
    simpa using hne

theorem has_or {mode a b : BitVec 32} : has mode (a ||| b) = (has mode a || has mode b) := by
  have hzero : mode &&& (a ||| b) = 0#32 ↔ mode &&& a = 0#32 ∧ mode &&& b = 0#32 := by
    rw [BitVec.and_or_distrib_left, BitVec.or_eq_zero_iff]
  rw [Bool.eq_iff_iff]
  simp only [has, bne_iff_ne, Bool.or_eq_true, ne_eq, hzero]
  tauto

theorem has_enabled {mode old : BitVec 32} {k : Nat} (h : k < 32) :
    has (mode &&& (old ^^^ mode)) (.twoPow 32 k) = (has mode (.twoPow 32 k) && !has old (.twoPow 32 k)) := by
  rw [has_twoPow h, has_twoPow h, has_twoPow h, BitVec.getLsbD_and, BitVec.getLsbD_xor]
  cases mode.getLsbD k <;> cases old.getLsbD k <;> rfl

theorem has_and {mode flags : BitVec 32} {k : Nat} (h : k < 32) (hset : has (mode &&& flags) (.twoPow 32 k) = true) :
    has mode (.twoPow 32 k) = true := by
  rw [has_twoPow h] at hset ⊢
  rw [BitVec.getLsbD_and, Bool.and_eq_true] at hset
  exact hset.1

/-- The modes that need authentication, each with its operation. -/
inductive Guarded : BitVec 32 → List UInt8 → Prop where
  | enroll : Guarded fpModeEnrollSession operationEnroll
  | finger : Guarded fpModeMatch operationAuth

/-- No mode that needs authentication is set that was not. -/
def Within (mode old : BitVec 32) : Prop := ∀ flag op, Guarded flag op → has mode flag = true → has old flag = true

theorem Within.refl {mode : BitVec 32} : Within mode mode := fun _ _ _ h => h

theorem Within.trans {a b c : BitVec 32} (h : Within a b) (k : Within b c) : Within a c :=
  fun flag op hflag hset => k flag op hflag (h flag op hflag hset)

theorem within_and {mode flags : BitVec 32} : Within (mode &&& flags) mode := by
  intro flag op hflag hset
  cases hflag with
  | enroll => exact has_and (by decide) hset
  | finger => exact has_and (by decide) hset

/-! ## What leaves all of it alone -/

@[simp] theorem control_putPublic {offset size : Nat} {data : Buffer} :
    control (s.putPublic offset size data) = control s := rfl
@[simp] theorem control_putPlain {offset size : Nat} {data : Buffer} :
    control (s.putPlain offset size data) = control s := rfl
@[simp] theorem control_clearEncBuffer : control s.clearEncBuffer = control s := rfl
@[simp] theorem control_clearDirty {fgr : Nat} : control (clearDirty fgr s) = control s := rfl
@[simp] theorem control_access {idx : Nat} : control (s.access idx) = control s := rfl
@[simp] theorem control_setTemplate {idx : Nat} {templ : Buffer} : control (s.setTemplate idx templ) = control s := rfl
@[simp] theorem control_setSalt {idx : Nat} {salt : Buffer} : control (s.setSalt idx salt) = control s := rfl
@[simp] theorem control_fpClearFingerContext {idx : Nat} : control (fpClearFingerContext idx s) = control s := rfl

@[simp] theorem control_writeMetadata {nonce encryptionSalt : Buffer} :
    control (writeMetadata nonce encryptionSalt s) = control s := by
  simp only [writeMetadata, control_putPublic, control_clearEncBuffer]

@[simp] theorem control_renewSalt {fgr : Nat} {newSalt : Buffer} : control (renewSalt fgr newSalt s) = control s := by
  rw [renewSalt]
  split <;> rfl

@[simp] theorem control_copyPayload {fgr : Nat} : control (copyPayload cfg fgr s) = control s := by
  simp only [copyPayload, control_putPlain, control_access]

theorem encryptTemplate_control {fgr : Nat} {answer : Encryption} :
    control (encryptTemplate cfg fgr now answer s).1 = control s := by
  have hdeadline : control { s with encryptionDeadline := now + 1 * second } = control s := rfl
  simp only [encryptTemplate]
  split
  · rfl
  · split
    · simp only [control_renewSalt, control_writeMetadata, hdeadline]
    · cases answer.aead <;>
        simp only [control_clearDirty, control_putPublic, control_copyPayload, control_renewSalt, control_writeMetadata,
          hdeadline]

theorem fpCommandFrame_control {offset size : UInt32} {responseMax : Nat} {answer : Encryption} :
    control (fpCommandFrame cfg offset size responseMax now answer s).1 = control s := by
  rcases @fpCommandFrame_cases cfg s now offset size responseMax answer with
    ⟨-, hstate⟩ | ⟨-, -, hstate⟩ | ⟨-, -, hstate⟩
  · rw [hstate]
  · rw [hstate]
  · have hencrypt := @encryptTemplate_control cfg s now (offset.toNat / 2 ^ 28 - 1) answer
    rw [hstate]
    generalize encryptTemplate cfg (offset.toNat / 2 ^ 28 - 1) now answer s = r at hencrypt
    obtain ⟨t, rv⟩ := r
    cases rv <;> exact hencrypt

theorem decryptTemplate_control {answer : Decryption} : control (decryptTemplate cfg answer s).1 = control s := by
  rw [decryptTemplate]
  split
  · rfl
  · cases answer.aead <;> simp only [control_fpClearFingerContext, control_putPublic, control_putPlain]

theorem storeTemplate_control : control (storeTemplate cfg s).1 = control s := by
  have hcount : ∀ (t : State) n, control { t with templValid := n } = control t := fun _ _ => rfl
  simp only [storeTemplate]
  split <;> simp only [hcount, control_setTemplate, control_setSalt]

theorem fpCommitTemplate_control {answer : Decryption} : control (fpCommitTemplate cfg answer s).1 = control s := by
  simp only [fpCommitTemplate]
  split
  · rfl
  · have hstate := @decryptTemplate_control cfg (fpClearFingerContext s.templValid s) answer
    generalize decryptTemplate cfg answer (fpClearFingerContext s.templValid s) = r at hstate
    obtain ⟨t, rv⟩ := r
    have ht : control t = control s := hstate
    cases rv with
    | success => exact storeTemplate_control.trans ht
    | _ => exact ht

theorem fpCommandTemplate_control {paramsSize : Nat} {offset size : UInt32} {data : Buffer} {answer : Decryption} :
    control (fpCommandTemplate cfg paramsSize offset size data answer s).1 = control s := by
  rcases @fpCommandTemplate_cases cfg s offset size paramsSize data answer with
    ⟨-, hstate⟩ | ⟨-, -, hstate⟩ | ⟨-, -, hstate⟩
  · rw [hstate]
  · rw [hstate]
    rfl
  · rw [hstate, fpCommitTemplate_control]
    rfl

theorem fpReadMatchSecret_control {number : Option Nat} {derived : Option (Bytes 32)} :
    control (fpReadMatchSecret cfg number derived now s).1 = control s := by
  cases number with
  | none => rfl
  | some fgr =>
    simp only [fpReadMatchSecret]
    split
    · rfl
    · split
      · rfl
      · split
        · rfl
        · split <;> rfl

theorem fpCommandSignMatch_control {peerChallenge : Bytes 32} :
    control (fpCommandSignMatch cfg peerChallenge now s).1 = control s := by
  simp only [fpCommandSignMatch]
  split
  · rfl
  · split
    · rfl
    · split
      · rfl
      · split <;> rfl

theorem fpCommandLoadPairingKey_control {structVersion : UInt16} {decryption : KeyDecryption} :
    control (fpCommandLoadPairingKey structVersion decryption s).1 = control s := by
  simp only [fpCommandLoadPairingKey]
  split
  · rfl
  · split
    · rfl
    · split
      · rfl
      · cases decryption <;> rfl

theorem fpCommandTpmSeed_control {structVersion : UInt16} {seed : Bytes 32} :
    control (fpCommandTpmSeed structVersion seed s).1 = control s := by
  simp only [fpCommandTpmSeed]
  split
  · rfl
  · split <;> rfl

/-! ## fp_task -/

/-- Nothing is turned on: the mode loses flags and the challenge can be lost. -/
structure Relaxed (s t : State) : Prop where
  mode : Within t.sensorMode s.sensorMode
  session : t.encryptionStatus.sessionEstablished = s.encryptionStatus.sessionEstablished
  sessionKey : t.sessionKey = s.sessionKey
  challengeSet : t.encryptionStatus.challengeSet = true → s.encryptionStatus.challengeSet = true
  challenge : t.challenge = s.challenge
  challengeCtime : t.challengeCtime = s.challengeCtime

theorem Relaxed.refl : Relaxed s s := ⟨.refl, rfl, rfl, id, rfl, rfl⟩

theorem Relaxed.trans {t u : State} (h : Relaxed s t) (k : Relaxed t u) : Relaxed s u where
  mode := k.mode.trans h.mode
  session := k.session.trans h.session
  sessionKey := k.sessionKey.trans h.sessionKey
  challengeSet := fun hset => h.challengeSet (k.challengeSet hset)
  challenge := k.challenge.trans h.challenge
  challengeCtime := k.challengeCtime.trans h.challengeCtime

theorem relaxed_of_control {t : State} (h : control t = control s) : Relaxed s t where
  mode := by
    have hmode : t.sensorMode = s.sensorMode := congrArg Control.sensorMode h
    rw [hmode]
    exact .refl
  session := congrArg Control.session h
  sessionKey := congrArg Control.sessionKey h
  challengeSet := fun hset => (congrArg Control.challengeSet h).symm.trans hset
  challenge := congrArg Control.challenge h
  challengeCtime := congrArg Control.challengeCtime h

theorem relaxed_removeChallenge : Relaxed s (removeChallenge s) := ⟨.refl, rfl, rfl, fun h => Bool.noConfusion h, rfl, rfl⟩

theorem relaxed_and {flags enroll : BitVec 32} :
    Relaxed s { s with sensorMode := s.sensorMode &&& flags, enrollSession := enroll } :=
  ⟨within_and, rfl, rfl, id, rfl, rfl⟩

theorem relaxed_detectFinger {finger : FingerState} : Relaxed s (detectFinger finger s) := by
  have hdown : ∀ (c : Prop) [Decidable c] (t : State) (flags : BitVec 32),
      Relaxed t (if c then { t with sensorMode := t.sensorMode &&& ~~~flags } else t) := by
    intro c _ t flags
    split
    · exact relaxed_and
    · exact .refl
  exact (hdown ..).trans (hdown ..)

theorem control_fpEnablePositiveMatchSecret {fgr : Nat} :
    control (fpEnablePositiveMatchSecret fgr now s) = control s := by
  rw [fpEnablePositiveMatchSecret]
  split <;> rfl

theorem control_finishEnrollment {finish : EnrollmentFinish} : control (finishEnrollment finish now s) = control s := by
  cases finish with
  | failed left => rfl
  | done templ =>
    have hvalid : ∀ t, control (validAtOnce t) = control t := by
      intro t
      rw [validAtOnce]
      split <;> rfl
    rw [finishEnrollment, hvalid, control_fpEnablePositiveMatchSecret]
    rfl

theorem relaxed_fpProcessEnroll {image : FingerImage} : Relaxed s (fpProcessEnroll image now s) := by
  rw [fpProcessEnroll]
  split
  · exact .refl
  · split
    · have hfinish : Relaxed s (finishEnrollment image.finish now
          { s with templDirty := s.templDirty ||| BitVec.twoPow 32 s.templValid }) :=
        relaxed_of_control control_finishEnrollment
      exact hfinish.trans relaxed_and
    · exact relaxed_of_control rfl

theorem control_fpProcessMatch {image : FingerImage} : control (fpProcessMatch cfg image now s) = control s := by
  have hmark : ∀ t, control (markUpdated image t) = control t := by
    intro t
    rw [markUpdated]
    split <;> rfl
  simp only [fpProcessMatch]
  split
  · rfl
  · cases acceptedMatch cfg image with
    | none => rfl
    | some fgr =>
      dsimp only
      rw [hmark, control_fpEnablePositiveMatchSecret]
      rfl

theorem relaxed_fpProcessFinger {image : FingerImage} : Relaxed s (fpProcessFinger cfg image now s) := by
  have himage : Relaxed s { s with fpBuffer := image.image } := relaxed_of_control rfl
  rw [fpProcessFinger]
  split
  · exact himage
  · refine himage.trans (.trans (t := if has s.sensorMode fpModeEnrollImage then
      fpProcessEnroll image now { s with fpBuffer := image.image }
      else if has s.sensorMode fpModeMatch then fpProcessMatch cfg image now { s with fpBuffer := image.image }
      else { s with fpBuffer := image.image }) ?_ relaxed_and)
    split
    · exact relaxed_fpProcessEnroll
    · split
      · exact relaxed_of_control control_fpProcessMatch
      · exact .refl

theorem relaxed_fpTaskSensorEvent {finger : FingerState} {image : FingerImage} :
    Relaxed s (fpTaskSensorEvent cfg finger image now s) := by
  simp only [fpTaskSensorEvent]
  split
  · split
    · exact relaxed_detectFinger.trans relaxed_fpProcessFinger
    · exact relaxed_detectFinger
  · exact .refl

theorem relaxed_updateEnrollSession {beginFails : Bool} : Relaxed s (updateEnrollSession beginFails s) := by
  rw [updateEnrollSession]
  split
  · refine ⟨?_, rfl, rfl, id, rfl, rfl⟩
    dsimp only
    split
    · exact within_and
    · exact .refl
  · exact .refl

theorem relaxed_fpResetContext : Relaxed s (fpResetContext s) := ⟨.refl, rfl, rfl, fun h => Bool.noConfusion h, rfl, rfl⟩

theorem relaxed_fpResetAndClearContext : Relaxed s (fpResetAndClearContext cfg s) := by
  have hclear : ∀ n t, control ((List.range n).foldl (fun s idx => fpClearFingerContext idx s) t) = control t := by
    intro n t
    induction n with
    | zero => rfl
    | succ n ih => rw [List.range_succ, List.foldl_append, List.foldl_cons, List.foldl_nil,
        control_fpClearFingerContext, ih]
  rw [fpResetAndClearContext]
  exact relaxed_fpResetContext.trans (relaxed_of_control (hclear ..))

theorem relaxed_afterEnrollSession {beginFails : Bool} {image : Buffer} :
    Relaxed (updateEnrollSession beginFails { s with updateConfig := false })
      (fpTaskUpdateConfig cfg beginFails image s) := by
  simp only [fpTaskUpdateConfig]
  generalize updateEnrollSession beginFails { s with updateConfig := false } = t
  split
  · exact ⟨within_and, rfl, rfl, id, rfl, rfl⟩
  · split
    · exact .refl
    · split
      · exact relaxed_fpResetAndClearContext.trans relaxed_and
      · split
        · exact relaxed_and
        · exact .refl

theorem relaxed_fpTaskUpdateConfig {beginFails : Bool} {image : Buffer} :
    Relaxed s (fpTaskUpdateConfig cfg beginFails image s) := by
  have hevent : Relaxed s { s with updateConfig := false } := relaxed_of_control rfl
  exact (hevent.trans relaxed_updateEnrollSession).trans relaxed_afterEnrollSession

/-! ## Mode requests -/

variable {mode : BitVec 32} {mac : Option (Bytes 32)}

/-- A mode request that passes the checks and is not refused for its MAC. -/
def Accepts (cfg : Config) (mode : BitVec 32) (mac : Option (Bytes 32)) (now : Nat) (s : State) : Prop :=
  validateFpMode cfg mode s = .success ∧ has mode fpModeDontChange = false ∧
    (authenticateFpMode cfg mode mac now s).2 = .success

def TurnsOn (flag mode : BitVec 32) (s : State) : Prop := has mode flag = true ∧ has s.sensorMode flag = false

theorem enabled_iff {k : Nat} (h : k < 32) :
    has (mode &&& (s.sensorMode ^^^ mode)) (.twoPow 32 k) = true ↔ TurnsOn (.twoPow 32 k) mode s := by
  rw [has_enabled h, TurnsOn, Bool.and_eq_true, Bool.not_eq_true']

theorem authenticateFpMode_fst :
    (authenticateFpMode cfg mode mac now s).1 = s ∨ (authenticateFpMode cfg mode mac now s).1 = removeChallenge s := by
  simp only [authenticateFpMode]
  split
  · exact .inl rfl
  · split
    · exact .inl rfl
    · cases mac with
      | none => exact .inl rfl
      | some mac =>
        dsimp only
        split
        · exact .inr validateRequest_fst
        · split
          · exact .inr validateRequest_fst
          · exact .inl rfl

theorem enabled_enroll : has (mode &&& (s.sensorMode ^^^ mode)) fpModeEnrollSession = true ↔
    TurnsOn fpModeEnrollSession mode s := enabled_iff (by decide)

theorem enabled_match : has (mode &&& (s.sensorMode ^^^ mode)) fpModeMatch = true ↔ TurnsOn fpModeMatch mode s :=
  enabled_iff (by decide)

theorem enabled_any : has (mode &&& (s.sensorMode ^^^ mode)) fpModesWithAuthentication = true ↔
    TurnsOn fpModeEnrollSession mode s ∨ TurnsOn fpModeMatch mode s := by
  rw [fpModesWithAuthentication, has_or, Bool.or_eq_true, enabled_enroll, enabled_match]

/-- A request in a session that turns on a mode with authentication has the MAC of one operation. -/
theorem authenticateFpMode_snd (hsession : fingerprintAuthEnabled s = true)
    (h : (authenticateFpMode cfg mode mac now s).2 = .success) :
    (TurnsOn fpModeEnrollSession mode s → ∃ given, mac = some given ∧ ValidRequest cfg operationEnroll given now s) ∧
      (¬TurnsOn fpModeEnrollSession mode s → TurnsOn fpModeMatch mode s →
        ∃ given, mac = some given ∧ ValidRequest cfg operationAuth given now s) := by
  simp only [authenticateFpMode, hsession, Bool.not_true, Bool.false_eq_true, if_false, Bool.not_eq_true'] at h
  split at h
  · rename_i hnone
    have hneither := mt enabled_any.mpr (Bool.eq_false_iff.mp hnone)
    exact ⟨fun hon => absurd (.inl hon) hneither, fun _ hon => absurd (.inr hon) hneither⟩
  · cases mac with
    | none => cases h
    | some given =>
      dsimp only at h
      split at h
      · rename_i hon
        exact ⟨fun _ => ⟨given, rfl, validateRequest_snd.mp h⟩, fun hoff => absurd (enabled_enroll.mp hon) hoff⟩
      · rename_i hoff
        refine ⟨fun hon => absurd (enabled_enroll.mpr hon) hoff, fun _ hon => ⟨given, rfl, ?_⟩⟩
        rw [if_pos (enabled_match.mpr hon)] at h
        exact validateRequest_snd.mp h

/-- Such a request leaves no challenge behind. -/
theorem authenticateFpMode_used (hsession : fingerprintAuthEnabled s = true)
    (hon : TurnsOn fpModeEnrollSession mode s ∨ TurnsOn fpModeMatch mode s)
    (h : (authenticateFpMode cfg mode mac now s).2 = .success) :
    (authenticateFpMode cfg mode mac now s).1 = removeChallenge s := by
  have hany := enabled_any.mpr hon
  simp only [authenticateFpMode, hsession, hany, Bool.not_true, Bool.false_eq_true, if_false] at h ⊢
  cases mac with
  | none => cases h
  | some given =>
    dsimp only
    split
    · exact validateRequest_fst
    · rename_i hoff
      rw [if_pos (enabled_match.mpr (hon.resolve_left (mt enabled_enroll.mpr hoff)))]
      exact validateRequest_fst

theorem relaxed_authenticateFpMode : Relaxed s (authenticateFpMode cfg mode mac now s).1 := by
  rcases @authenticateFpMode_fst cfg s now mode mac with h | h
  · rw [h]
    exact .refl
  · rw [h]
    exact relaxed_removeChallenge

/-- An accepted request sets the mode; any other leaves it. -/
theorem fpSetSensorMode_cases :
    (Accepts cfg mode mac now s ∧ (fpSetSensorMode cfg mode mac now s).1 =
      { (authenticateFpMode cfg mode mac now s).1 with sensorMode := mode, updateConfig := true }) ∨
    (¬Accepts cfg mode mac now s ∧ Relaxed s (fpSetSensorMode cfg mode mac now s).1) := by
  have hrelaxed := @relaxed_authenticateFpMode cfg s now mode mac
  rw [Accepts, fpSetSensorMode]
  split
  · rename_i hinvalid
    exact .inr ⟨fun h => hinvalid h.1, .refl⟩
  · rename_i hvalid
    split
    · rename_i hdont
      exact .inr ⟨fun h => by simp [h.2.1] at hdont, .refl⟩
    · rename_i hdont
      generalize authenticateFpMode cfg mode mac now s = r at hrelaxed
      obtain ⟨t, rv⟩ := r
      cases rv with
      | success => exact .inl ⟨⟨not_not.mp hvalid, by simpa using hdont, rfl⟩, rfl⟩
      | _ => exact .inr ⟨fun h => (by cases h.2.2), hrelaxed⟩

/-! ## Every step -/

theorem relaxed_fpCommandContext {action : UInt8} {userId : Bytes 32} :
    Relaxed s (fpCommandContext cfg action userId now s).1 := by
  simp only [fpCommandContext]
  split
  · split
    · exact .refl
    · -- the reset is the only flag of the new mode
      rcases @fpSetSensorMode_cases cfg s now fpModeResetSensor none with
        ⟨-, hstate⟩ | ⟨-, hrelaxed⟩
      · have hauth := @relaxed_authenticateFpMode cfg s now fpModeResetSensor none
        have hwithin : ∀ mode, Within fpModeResetSensor mode := by
          intro mode flag op hflag hset
          cases hflag with
          | enroll => exact absurd hset (by decide)
          | finger => exact absurd hset (by decide)
        rw [hstate]
        exact hauth.trans ⟨hwithin _, rfl, rfl, id, rfl, rfl⟩
      · exact hrelaxed
  · split
    · split
      · exact .refl
      · exact relaxed_of_control rfl
    · exact .refl

theorem relaxed_fpCommandGenerateNonce {nonce : Bytes 32} : Relaxed s (fpCommandGenerateNonce nonce s).1 := by
  have hnonce : ∀ t, Relaxed t
      { t with sessionNonce := nonce, encryptionStatus := { t.encryptionStatus with sessionNonceSet := true } } :=
    fun _ => relaxed_of_control rfl
  simp only [fpCommandGenerateNonce]
  split
  · exact relaxed_fpResetContext.trans (hnonce _)
  · exact hnonce s

theorem relaxed_fpCommandConfirmTemplate {mac : Bytes 32} : Relaxed s (fpCommandConfirmTemplate cfg mac now s).1 := by
  have hrequest := @validateRequest_fst cfg s operationEnrollFinish mac now
  rw [fpCommandConfirmTemplate]
  split
  · exact .refl
  · generalize validateRequest cfg operationEnrollFinish mac now s = r at hrequest
    obtain ⟨t, rv⟩ := r
    subst hrequest
    cases rv with
    | success => exact relaxed_removeChallenge.trans (relaxed_of_control rfl)
    | _ => exact relaxed_removeChallenge

/-- A step sets the mode, replaces the session key, makes a challenge, or turns nothing on. -/
theorem control_exec :
    (∃ mode mac now, i = .mode mode mac now ∧ Accepts cfg mode mac now s ∧
      ∃ t, Relaxed s t ∧ (exec cfg i s).1 = { t with sensorMode := mode, updateConfig := true }) ∨
    (∃ peerNonce seed key, i = .establishSession peerNonce seed ∧ s.encryptionStatus.sessionNonceSet = true ∧
      generateSessionKey cfg s.sessionNonce peerNonce s.pairingKey = some key ∧
      control (exec cfg i s).1 = { control s with sessionKey := key, session := (control s).session || seed.isSome }) ∨
    (∃ challenge now, i = .generateChallenge challenge now ∧ fingerprintAuthEnabled s = true ∧
      control (exec cfg i s).1 =
        { control s with challenge := challenge, challengeCtime := now, challengeSet := true }) ∨
    Relaxed s (exec cfg i s).1 := by
  cases i with
  | mode mode mac now =>
    rcases @fpSetSensorMode_cases cfg s now mode mac with
      ⟨haccepts, hstate⟩ | ⟨-, hrelaxed⟩
    · exact .inl ⟨mode, mac, now, rfl, haccepts, _, relaxed_authenticateFpMode, hstate⟩
    · exact .inr (.inr (.inr hrelaxed))
  | context action userId now => exact .inr (.inr (.inr relaxed_fpCommandContext))
  | tpmSeed structVersion seed => exact .inr (.inr (.inr (relaxed_of_control fpCommandTpmSeed_control)))
  | readMatchSecret fgr derived now => exact .inr (.inr (.inr (relaxed_of_control fpReadMatchSecret_control)))
  | signMatch peerChallenge now => exact .inr (.inr (.inr (relaxed_of_control fpCommandSignMatch_control)))
  | loadPairingKey structVersion decryption =>
    exact .inr (.inr (.inr (relaxed_of_control fpCommandLoadPairingKey_control)))
  | generateNonce nonce => exact .inr (.inr (.inr relaxed_fpCommandGenerateNonce))
  | establishSession peerNonce tpmSeed =>
    simp only [exec, fpCommandEstablishSession]
    split
    · exact .inr (.inr (.inr .refl))
    · rename_i hnonce
      split
      · exact .inr (.inr (.inr .refl))
      · rename_i key hkey
        refine .inr (.inl ⟨peerNonce, tpmSeed, key, rfl, by simpa using hnonce, hkey, ?_⟩)
        cases tpmSeed with
        | none => simp [control]
        | some seed => simp [control]
  | generateChallenge challenge now =>
    simp only [exec, fpCmdGenerateChallenge]
    split
    · exact .inr (.inr (.inr .refl))
    · rename_i hsession
      exact .inr (.inr (.inl ⟨challenge, now, rfl, by simpa using hsession, rfl⟩))
  | frame offset size responseMax now answer => exact .inr (.inr (.inr (relaxed_of_control fpCommandFrame_control)))
  | template paramsSize offset size data answer =>
    exact .inr (.inr (.inr (relaxed_of_control fpCommandTemplate_control)))
  | confirmTemplate mac now => exact .inr (.inr (.inr relaxed_fpCommandConfirmTemplate))
  | updateConfig beginFails image => exact .inr (.inr (.inr relaxed_fpTaskUpdateConfig))
  | sensorEvent finger answer now => exact .inr (.inr (.inr relaxed_fpTaskSensorEvent))

end ChromeEc.FpSensor
