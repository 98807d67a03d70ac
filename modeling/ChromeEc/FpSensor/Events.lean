import ChromeEc.FpSensor.System

/- What a step means for the templates, for the user and for the match secret.

  A command can be refused at many places and a finger image can be used in many ways, but
  of the slots, the user id and the right to release a match secret only a few things can
  become. Each of them is an event, and `event` says which one a step is. What is proved:
  the view of the state after a step is the view before with the event (`slots_exec`). -/
namespace ChromeEc.FpSensor

open ChromeEc.Lib.Memory

variable {cfg : Config} {s : State} {i : Label}

/-- The part of the state that the events are about. -/
structure Slots where
  templateNewlyEnrolled : Nat
  templValid : Nat
  fpTemplate : Nat → Buffer
  userId : Bytes 32
  userIdSet : Bool
  secret : PositiveMatchSecretState
  session : Bool

def slots (s : State) : Slots where
  templateNewlyEnrolled := s.templateNewlyEnrolled
  templValid := s.templValid
  fpTemplate := s.fpTemplate
  userId := s.userId
  userIdSet := s.encryptionStatus.userIdSet
  secret := s.positiveMatchSecretState
  session := s.encryptionStatus.sessionEstablished

inductive Event where
  | quiet
  | userSet (userId : Bytes 32)
  | disarmed
  /-- The context is reset and the slots below `count` are cleared. -/
  | reset (count : Nat)
  | established
  /-- A template is encrypted for the host. -/
  | exported (fgr : Nat)
  /-- fp_commit_template clears its slot and fails. -/
  | erased
  | committed (templ : Buffer)
  | confirmed
  | enrollFailed (left : Buffer)
  | enrolled (templ : Buffer) (now : Nat)
  /-- The matcher has seen the templates and left `templates`, and the match is accepted for `fgr`. -/
  | matched (templates : Nat → Buffer) (fgr : Option Nat) (now : Nat)

def armed (fgr now : Nat) : PositiveMatchSecretState :=
  { templateMatched := fgr, readable := true, deadline := now + 5 * second }

/-- The slots below `count` hold nothing. -/
def cleared (templates : Nat → Buffer) (count : Nat) : Nat → Buffer :=
  fun i => if i < count then fun _ => 0 else templates i

def Slots.next (v : Slots) : Event → Slots
  | .quiet => v
  | .userSet userId => { v with userId := userId, userIdSet := v.userIdSet || userId.toList.any (· != 0) }
  | .disarmed => { v with secret := noMatch }
  | .reset count =>
    { v with
      templateNewlyEnrolled := fpNoSuchTemplate
      templValid := 0
      fpTemplate := cleared v.fpTemplate count
      userId := zeros 32
      userIdSet := false
      secret := noMatch }
  | .established => { v with session := true }
  | .exported fgr =>
    { v with
      templateNewlyEnrolled := if fgr = v.templateNewlyEnrolled then fpNoSuchTemplate else v.templateNewlyEnrolled }
  | .erased => { v with fpTemplate := Function.update v.fpTemplate v.templValid fun _ => 0 }
  | .committed templ =>
    { v with
      fpTemplate := Function.update v.fpTemplate v.templValid templ
      templValid := increment v.templValid }
  | .confirmed => { v with templValid := increment v.templValid }
  | .enrollFailed left => { v with fpTemplate := Function.update v.fpTemplate v.templValid left }
  | .enrolled templ now =>
    { v with
      fpTemplate := Function.update v.fpTemplate v.templValid templ
      templateNewlyEnrolled := v.templValid
      secret := if v.secret.readable then noMatch else armed v.templValid now
      templValid := if v.session then v.templValid else increment v.templValid }
  | .matched templates fgr now =>
    { v with
      fpTemplate := fun i => if i < v.templValid then templates i else v.fpTemplate i
      secret := fgr.elim noMatch fun fgr => armed fgr now }

/-! ## Which event a step is -/

/-- A template request that passes the checks. -/
def Serves (cfg : Config) (offset size : UInt32) (responseMax : Nat) (s : State) : Prop :=
  size.toNat ≤ responseMax ∧ 1 ≤ offset.toNat / 2 ^ 28 ∧ offset.toNat / 2 ^ 28 - 1 < cfg.maxFingerCount ∧
    offset.toNat / 2 ^ 28 - 1 < s.templValid ∧
      validateFpBufferOffset (encBufferSize cfg) (offset.toNat % 2 ^ 28) size.toNat = .success

instance (offset size : UInt32) (responseMax : Nat) : Decidable (Serves cfg offset size responseMax s) := by
  unfold Serves
  infer_instance

/-- A template request for the first chunk that gets past the limit of one encryption each second. -/
def Encrypts (cfg : Config) (offset size : UInt32) (responseMax now : Nat) (s : State) : Prop :=
  Serves cfg offset size responseMax s ∧ offset.toNat % 2 ^ 28 = 0 ∧ timestampExpired s.encryptionDeadline now = true

instance (offset size : UInt32) (responseMax now : Nat) : Decidable (Encrypts cfg offset size responseMax now s) := by
  unfold Encrypts
  infer_instance

/-- An upload that is written to fp_enc_buffer. -/
def Uploads (cfg : Config) (paramsSize : Nat) (offset size : UInt32) (s : State) : Prop :=
  s.templValid < cfg.maxFingerCount ∧ paramsSize = size.toNat % 2 ^ 31 + 8 ∧
    validateFpBufferOffset (encBufferSize cfg) offset.toNat (size.toNat % 2 ^ 31) = .success

instance (paramsSize : Nat) (offset size : UInt32) : Decidable (Uploads cfg paramsSize offset size s) := by
  unfold Uploads
  infer_instance

/-- What fp_commit_template decrypts from fp_enc_buffer with a correct tag, for a template with a good salt. -/
def decrypted (cfg : Config) (answer : Decryption) (s : State) : Option Buffer :=
  if validateTemplateFormat s && !bytesAreTrivial s.tpmSeed.toList && answer.key then
    match answer.aead with
    | .done out =>
      if bytesAreTrivial (read out cfg.templateSize fpPositiveMatchSaltBytes) then none
      else some (copy (fun _ => 0) 0 cfg.templateSize out)
    | _ => none
  else none

/-- A request under the signature of the current challenge. -/
def ValidRequest (cfg : Config) (operation : List UInt8) (mac : Bytes 32) (now : Nat) (s : State) : Prop :=
  s.encryptionStatus.challengeSet = true ∧ now ≤ s.challengeCtime + 5 * second ∧
    computeMessageSignature cfg s.sessionKey (context s.userId) senderFingerGuard operation s.challenge = some mac

instance (operation : List UInt8) (mac : Bytes 32) (now : Nat) : Decidable (ValidRequest cfg operation mac now s) := by
  unfold ValidRequest
  infer_instance

/-- A finger image that is acquired in a mode with one of the flags. -/
def Processed (finger : FingerState) (answer : FingerImage) (s : State) : Prop :=
  has s.sensorMode fpModeAnyDetectFinger = true ∧ finger = .present ∧
    has (detectFinger finger s).sensorMode fpModeAnyCapture = true ∧ answer.acquired = true

instance (finger : FingerState) (answer : FingerImage) : Decidable (Processed finger answer s) := by
  unfold Processed
  infer_instance

def enrollEvent (answer : FingerImage) (now : Nat) : Event :=
  if answer.enrollRes < 0 then .quiet
  else if answer.percent = 100 then
    match answer.finish with
    | .failed left => .enrollFailed left
    | .done templ => .enrolled templ now
  else .quiet

def matchEvent (cfg : Config) (answer : FingerImage) (now : Nat) (s : State) : Event :=
  .matched answer.matched (if s.templValid = 0 then none else acceptedMatch cfg answer) now

def event (cfg : Config) : Label → State → Event
  | .mode .., _ => .quiet
  | .context action userId _, s => if action = 1 ∧ ¬has s.sensorMode fpModeResetSensor then .userSet userId else .quiet
  | .tpmSeed .., _ => .quiet
  | .readMatchSecret .., _ => .disarmed
  | .signMatch .., s => if fingerprintAuthEnabled s then .disarmed else .quiet
  | .loadPairingKey .., _ => .quiet
  | .generateNonce .., s => if fingerprintAuthEnabled s then .reset 0 else .quiet
  | .establishSession peerNonce tpmSeed, s =>
    if s.encryptionStatus.sessionNonceSet ∧ (generateSessionKey cfg s.sessionNonce peerNonce s.pairingKey).isSome ∧
      tpmSeed.isSome then .established else .quiet
  | .generateChallenge .., _ => .quiet
  | .frame offset size responseMax now _, s =>
    if Encrypts cfg offset size responseMax now s then .exported (offset.toNat / 2 ^ 28 - 1) else .quiet
  | .template paramsSize offset size data answer, s =>
    if Uploads cfg paramsSize offset size s ∧ 2 ^ 31 ≤ size.toNat then
      (decrypted cfg answer (s.putPublic offset.toNat (size.toNat % 2 ^ 31) data)).elim .erased .committed
    else .quiet
  | .confirmTemplate mac now, s =>
    if s.templateNewlyEnrolled = s.templValid ∧ ValidRequest cfg operationEnrollFinish mac now s then .confirmed
    else .quiet
  | .updateConfig .., s =>
    if isFingerNeeded s.sensorMode ∧ ¬has s.sensorMode fpModeAnyWaitIrq ∧ has s.sensorMode fpModeResetSensor then
      .reset cfg.maxFingerCount
    else .quiet
  | .sensorEvent finger answer now, s =>
    if Processed finger answer s then
      if has (detectFinger finger s).sensorMode fpModeEnrollImage then enrollEvent answer now
      else if has (detectFinger finger s).sensorMode fpModeMatch then matchEvent cfg answer now s
      else .quiet
    else .quiet

/-! ## Requests with a MAC -/

@[simp] theorem slots_removeChallenge : slots (removeChallenge s) = slots s := rfl

theorem removeChallenge_eq (h : s.encryptionStatus.challengeSet = false) : removeChallenge s = s := by
  obtain ⟨_, _, _, ⟨_, _, _, _, _⟩⟩ := s
  cases h
  rfl

variable {operation : List UInt8} {mac : Bytes 32} {now : Nat}

/-- A request is looked at once, whatever comes out. -/
theorem validateRequest_fst : (validateRequest cfg operation mac now s).1 = removeChallenge s := by
  rw [validateRequest]
  split
  · rename_i h
    exact (removeChallenge_eq (by simpa using h)).symm
  · rfl

theorem checkRequest_eq_success :
    checkRequest cfg operation mac now s = .success ↔ now ≤ s.challengeCtime + 5 * second ∧
      computeMessageSignature cfg s.sessionKey (context s.userId) senderFingerGuard operation s.challenge = some mac := by
  rw [checkRequest]
  split
  · rename_i hlate
    simp [Nat.not_le_of_lt hlate]
  · rename_i hnow
    split
    · rename_i hnone
      simp [hnone]
    · rename_i computed hsome
      rw [hsome]
      split
      · rename_i hne
        simp [Ne.symm hne]
      · rename_i heq
        simp [not_not.mp heq, Nat.le_of_not_lt hnow]

theorem validateRequest_snd :
    (validateRequest cfg operation mac now s).2 = .success ↔ ValidRequest cfg operation mac now s := by
  rw [validateRequest, ValidRequest]
  cases s.encryptionStatus.challengeSet <;> simp [checkRequest_eq_success]

theorem fpSetSensorMode_slots {mode : BitVec 32} {mac : Option (Bytes 32)} :
    slots (fpSetSensorMode cfg mode mac now s).1 = slots s := by
  have hauth : slots (authenticateFpMode cfg mode mac now s).1 = slots s := by
    rw [authenticateFpMode]
    split
    · rfl
    · dsimp only
      split
      · rfl
      · split
        · rfl
        · split
          · rw [validateRequest_fst, slots_removeChallenge]
          · split
            · rw [validateRequest_fst, slots_removeChallenge]
            · rfl
  rw [fpSetSensorMode]
  split
  · rfl
  · split
    · rfl
    · generalize authenticateFpMode cfg mode mac now s = r at hauth
      obtain ⟨t, rv⟩ := r
      cases rv <;> exact hauth

/-! ## Templates for the host -/

@[simp] theorem slots_putPublic {offset size : Nat} {data : Buffer} : slots (s.putPublic offset size data) = slots s := rfl
@[simp] theorem slots_putPlain {offset size : Nat} {data : Buffer} : slots (s.putPlain offset size data) = slots s := rfl
@[simp] theorem slots_clearDirty {fgr : Nat} : slots (clearDirty fgr s) = slots s := rfl
@[simp] theorem slots_copyPayload {fgr : Nat} : slots (copyPayload cfg fgr s) = slots s := rfl

theorem renewSalt_slots {fgr : Nat} {newSalt : Buffer} :
    slots (renewSalt fgr newSalt s) = (slots s).next (.exported fgr) := by
  have hnewly : (slots s).templateNewlyEnrolled = s.templateNewlyEnrolled := rfl
  rw [renewSalt, Slots.next, hnewly]
  split <;> rfl

theorem writeMetadata_slots (nonce encryptionSalt : Buffer) (deadline : Nat) :
    slots (writeMetadata nonce encryptionSalt { s with encryptionDeadline := deadline }) = slots s := by
  simp only [writeMetadata, slots_putPublic]
  rfl

theorem encryptTemplate_slots {fgr : Nat} {answer : Encryption} :
    slots (encryptTemplate cfg fgr now answer s).1 =
      if timestampExpired s.encryptionDeadline now then (slots s).next (.exported fgr) else slots s := by
  have hsalt : slots (renewSalt fgr answer.newSalt (writeMetadata answer.nonce answer.encryptionSalt
      { s with encryptionDeadline := now + 1 * second })) = (slots s).next (.exported fgr) := by
    rw [renewSalt_slots, writeMetadata_slots]
  rw [encryptTemplate]
  cases timestampExpired s.encryptionDeadline now
  · rfl
  · simp only [Bool.not_true, Bool.false_eq_true, if_false, if_true]
    split
    · exact hsalt
    · cases answer.aead <;> simp only [slots_clearDirty, slots_putPublic, slots_copyPayload, hsalt]

variable {offset size : UInt32} {responseMax : Nat} {answer : Encryption}

/-- Only a template request for the first chunk changes anything. -/
theorem fpCommandFrame_cases :
    (¬Serves cfg offset size responseMax s ∧ (fpCommandFrame cfg offset size responseMax now answer s).1 = s) ∨
      (Serves cfg offset size responseMax s ∧ offset.toNat % 2 ^ 28 ≠ 0 ∧
        fpCommandFrame cfg offset size responseMax now answer s =
          (s, { rv := .success, payload := .bytes (read s.fpEncBuffer (offset.toNat % 2 ^ 28) size.toNat) })) ∨
      (Serves cfg offset size responseMax s ∧ offset.toNat % 2 ^ 28 = 0 ∧
        fpCommandFrame cfg offset size responseMax now answer s =
          match encryptTemplate cfg (offset.toNat / 2 ^ 28 - 1) now answer s with
          | (s, .success) => (s, { rv := .success, payload := .bytes (read s.fpEncBuffer 0 size.toNat) })
          | (s, rv) => (s, { rv := rv })) := by
  simp only [fpCommandFrame, Serves]
  split
  · exact .inl ⟨by omega, rfl⟩
  · split
    · refine .inl ⟨by omega, ?_⟩
      by_cases hlocked : cfg.locked
      · rw [if_pos hlocked]
      · rw [if_neg hlocked]
        split
        · split <;> rfl
        · split <;> rfl
    · split
      · exact .inl ⟨by omega, rfl⟩
      · split
        · exact .inl ⟨by omega, rfl⟩
        · split
          · rename_i hbuffer
            exact .inl ⟨fun hserves => hbuffer hserves.2.2.2.2, rfl⟩
          · rename_i hbuffer
            have hserves := not_not.mp hbuffer
            split
            · rename_i hzero
              rw [hzero] at hserves ⊢
              exact .inr (.inr ⟨⟨by omega, by omega, by omega, by omega, hserves⟩, rfl, rfl⟩)
            · rename_i hnonzero
              exact .inr (.inl ⟨⟨by omega, by omega, by omega, by omega, hserves⟩, hnonzero, rfl⟩)

theorem fpCommandFrame_slots : slots (fpCommandFrame cfg offset size responseMax now answer s).1 =
    (slots s).next (event cfg (.frame offset size responseMax now answer) s) := by
  rw [event]
  rcases @fpCommandFrame_cases cfg s now offset size responseMax answer with
    ⟨hserves, hstate⟩ | ⟨-, hoffset, hstate⟩ | ⟨hserves, hoffset, hstate⟩
  · have hquiet : ¬Encrypts cfg offset size responseMax now s := fun h => hserves h.1
    rw [if_neg hquiet, hstate, Slots.next]
  · have hquiet : ¬Encrypts cfg offset size responseMax now s := fun h => hoffset h.2.1
    rw [if_neg hquiet, hstate, Slots.next]
  · have hencrypt := @encryptTemplate_slots cfg s now (offset.toNat / 2 ^ 28 - 1) answer
    rw [hstate]
    generalize encryptTemplate cfg (offset.toNat / 2 ^ 28 - 1) now answer s = r at hencrypt
    obtain ⟨t, rv⟩ := r
    have hslots : slots t = (slots s).next
        (if Encrypts cfg offset size responseMax now s then .exported (offset.toNat / 2 ^ 28 - 1) else .quiet) := by
      refine hencrypt.trans ?_
      simp only [Encrypts, hserves, hoffset, true_and]
      split <;> rfl
    cases rv <;> exact hslots

/-! ## Templates from the host -/

theorem fpClearFingerContext_slots : slots (fpClearFingerContext s.templValid s) = (slots s).next .erased := rfl

theorem erased_erased {v : Slots} : (v.next .erased).next .erased = v.next .erased := by
  simp only [Slots.next, Function.update_idem]

/-- What is stored is what was decrypted, whatever was in the slot. -/
theorem storeTemplate_slots {out : Buffer} (h : s.fpTemplate s.templValid = fun _ => 0) :
    slots (storeTemplate cfg (s.putPlain fpTemplateOffset (payloadSize cfg) out)).1 =
      if bytesAreTrivial (read out cfg.templateSize fpPositiveMatchSaltBytes) then (slots s).next .erased
      else (slots s).next (.committed (copy (fun _ => 0) 0 cfg.templateSize out)) := by
  have hcell : ∀ q < payloadSize cfg,
      (s.putPlain fpTemplateOffset (payloadSize cfg) out).fpEncBuffer (fpTemplateOffset + q) = out q :=
    fun q hq => copy_inside hq
  have htempl : copy (fun _ => 0) 0 cfg.templateSize
      (fun i => (s.putPlain fpTemplateOffset (payloadSize cfg) out).fpEncBuffer (fpTemplateOffset + i)) =
        copy (fun _ => 0) 0 cfg.templateSize out := by
    funext a
    simp only [copy]
    split
    · exact hcell _ (by simp only [payloadSize]; omega)
    · rfl
  have hsalt : ∀ idx templ, saltInBuffer cfg ((s.putPlain fpTemplateOffset (payloadSize cfg) out).setTemplate idx templ) =
      read out cfg.templateSize fpPositiveMatchSaltBytes := by
    intro idx templ
    apply List.map_congr_left
    intro i hi
    have hbound := List.mem_range.mp hi
    rw [Nat.add_assoc]
    exact hcell _ (by simp only [payloadSize]; omega)
  have hslot : (s.putPlain fpTemplateOffset (payloadSize cfg) out).fpTemplate
      (s.putPlain fpTemplateOffset (payloadSize cfg) out).templValid = fun _ => 0 := h
  simp only [storeTemplate, hsalt, hslot, htempl]
  split
  · simp only [Slots.next, slots, State.setTemplate, State.access, State.putPlain, Function.update_idem]
  · simp only [Slots.next, slots, State.setTemplate, State.setSalt, State.access, State.putPlain]

theorem decryptTemplate_slots {answer : Decryption} (h : s.fpTemplate s.templValid = fun _ => 0)
    (hslots : (slots s).next .erased = slots s) (hformat : validateTemplateFormat s = true) :
    slots (match decryptTemplate cfg answer s with
      | (s, .success) => storeTemplate cfg s
      | (s, rv) => (s, { rv := rv })).1 = (slots s).next ((decrypted cfg answer s).elim .erased .committed) := by
  rw [decryptTemplate, decrypted, hformat]
  cases bytesAreTrivial s.tpmSeed.toList
  · cases answer.key
    · exact hslots.symm
    · simp only [Bool.not_true, Bool.not_false, Bool.or_self, Bool.and_self, Bool.false_eq_true, if_false, if_true]
      cases answer.aead with
      | noContext => exact fpClearFingerContext_slots
      | failed left => exact fpClearFingerContext_slots
      | done out =>
        dsimp only
        rw [storeTemplate_slots h]
        split <;> rfl
  · exact hslots.symm

theorem fpCommitTemplate_slots {answer : Decryption} :
    slots (fpCommitTemplate cfg answer s).1 = (slots s).next ((decrypted cfg answer s).elim .erased .committed) := by
  have hcleared : (fpClearFingerContext s.templValid s).fpTemplate s.templValid = fun _ => 0 := Function.update_self ..
  have hdecrypted : decrypted cfg answer (fpClearFingerContext s.templValid s) = decrypted cfg answer s := rfl
  have hagain : (slots (fpClearFingerContext s.templValid s)).next .erased =
      slots (fpClearFingerContext s.templValid s) := by
    rw [fpClearFingerContext_slots, erased_erased]
  rw [fpCommitTemplate]
  cases hformat : validateTemplateFormat (fpClearFingerContext s.templValid s)
  · have hnone : decrypted cfg answer s = none := by
      rw [← hdecrypted, decrypted, hformat]
      rfl
    rw [hnone]
    rfl
  · refine (decryptTemplate_slots hcleared hagain hformat).trans ?_
    rw [hdecrypted, fpClearFingerContext_slots]
    cases decrypted cfg answer s with
    | none => exact erased_erased
    | some templ => simp only [Slots.next, Option.elim, Function.update_idem]

variable {paramsSize : Nat} {data : Buffer} {decryption : Decryption}

theorem fpCommandTemplate_cases :
    (¬Uploads cfg paramsSize offset size s ∧ (fpCommandTemplate cfg paramsSize offset size data decryption s).1 = s) ∨
      (Uploads cfg paramsSize offset size s ∧ ¬2 ^ 31 ≤ size.toNat ∧
        fpCommandTemplate cfg paramsSize offset size data decryption s =
          (s.putPublic offset.toNat (size.toNat % 2 ^ 31) data, { rv := .success })) ∨
      (Uploads cfg paramsSize offset size s ∧ 2 ^ 31 ≤ size.toNat ∧
        fpCommandTemplate cfg paramsSize offset size data decryption s =
          fpCommitTemplate cfg decryption (s.putPublic offset.toNat (size.toNat % 2 ^ 31) data)) := by
  simp only [fpCommandTemplate, Uploads]
  split
  · exact .inl ⟨by omega, rfl⟩
  · split
    · exact .inl ⟨by omega, rfl⟩
    · split
      · rename_i hbuffer
        exact .inl ⟨fun h => hbuffer h.2.2, rfl⟩
      · rename_i hroom hsize hbuffer
        have huploads := And.intro (Nat.lt_of_not_le hroom) (And.intro (not_not.mp hsize) (not_not.mp hbuffer))
        by_cases hcommit : 2 ^ 31 ≤ size.toNat
        · refine .inr (.inr ⟨huploads, hcommit, ?_⟩)
          rw [if_pos (by simpa using hcommit)]
        · refine .inr (.inl ⟨huploads, hcommit, ?_⟩)
          rw [if_neg (by simpa using hcommit)]

theorem fpCommandTemplate_slots : slots (fpCommandTemplate cfg paramsSize offset size data decryption s).1 =
    (slots s).next (event cfg (.template paramsSize offset size data decryption) s) := by
  rw [event]
  rcases @fpCommandTemplate_cases cfg s offset size paramsSize data decryption with
    ⟨huploads, hstate⟩ | ⟨-, hcommit, hstate⟩ | ⟨huploads, hcommit, hstate⟩
  · rw [if_neg fun h => huploads h.1, hstate, Slots.next]
  · rw [if_neg fun h => hcommit h.2, hstate, Slots.next, slots_putPublic]
  · rw [if_pos ⟨huploads, hcommit⟩, hstate, fpCommitTemplate_slots, slots_putPublic]

theorem fpCommandConfirmTemplate_slots :
    slots (fpCommandConfirmTemplate cfg mac now s).1 = (slots s).next (event cfg (.confirmTemplate mac now) s) := by
  have hstate := @validateRequest_fst cfg s operationEnrollFinish mac now
  have hvalid := @validateRequest_snd cfg s operationEnrollFinish mac now
  rw [fpCommandConfirmTemplate, event]
  by_cases hnewly : s.templateNewlyEnrolled = s.templValid
  · rw [if_neg (not_not.mpr hnewly)]
    generalize validateRequest cfg operationEnrollFinish mac now s = r at hstate hvalid
    obtain ⟨t, rv⟩ := r
    subst hstate
    by_cases hrequest : ValidRequest cfg operationEnrollFinish mac now s
    · have hrv : rv = .success := hvalid.mpr hrequest
      rw [if_pos ⟨hnewly, hrequest⟩, hrv]
      rfl
    · have hrv : rv ≠ .success := fun h => hrequest (hvalid.mp h)
      rw [if_neg fun h => hrequest h.2]
      cases rv <;> first | rfl | exact absurd rfl hrv
  · rw [if_pos hnewly, if_neg fun h => hnewly h.1, Slots.next]

/-! ## fp_task -/

theorem cleared_zero {templates : Nat → Buffer} : cleared templates 0 = templates := by
  funext i
  simp [cleared]

theorem cleared_succ {templates : Nat → Buffer} {n : Nat} :
    Function.update (cleared templates n) n (fun _ => 0) = cleared templates (n + 1) := by
  funext i
  rw [Function.update_apply]
  grind [cleared]

theorem fpClearFingerContexts_slots {n : Nat} :
    slots ((List.range n).foldl (fun s idx => fpClearFingerContext idx s) s) =
      { slots s with fpTemplate := cleared s.fpTemplate n } := by
  induction n with
  | zero =>
    rw [cleared_zero]
    rfl
  | succ n ih =>
    have hstep : ∀ t, slots (fpClearFingerContext n t) =
        { slots t with fpTemplate := Function.update (slots t).fpTemplate n fun _ => 0 } := fun _ => rfl
    rw [List.range_succ, List.foldl_append, List.foldl_cons, List.foldl_nil, hstep, ih]
    simp only [cleared_succ]

theorem updateEnrollSession_slots {beginFails : Bool} : slots (updateEnrollSession beginFails s) = slots s := by
  rw [updateEnrollSession]
  split <;> rfl

theorem fpResetContext_slots : slots (fpResetContext s) = (slots s).next (.reset 0) := by
  rw [Slots.next, cleared_zero]
  rfl

theorem fpResetAndClearContext_slots :
    slots (fpResetAndClearContext cfg s) = (slots s).next (.reset cfg.maxFingerCount) := by
  rw [fpResetAndClearContext, fpClearFingerContexts_slots]
  rfl

theorem fpTaskUpdateConfig_slots {beginFails : Bool} {image : Buffer} :
    slots (fpTaskUpdateConfig cfg beginFails image s) = (slots s).next (event cfg (.updateConfig beginFails image) s) := by
  have henroll : slots (updateEnrollSession beginFails { s with updateConfig := false }) = slots s :=
    updateEnrollSession_slots
  simp only [fpTaskUpdateConfig, event]
  generalize updateEnrollSession beginFails { s with updateConfig := false } = t at henroll
  cases isFingerNeeded s.sensorMode
  · exact henroll
  · cases has s.sensorMode fpModeAnyWaitIrq
    · cases has s.sensorMode fpModeResetSensor
      · cases has s.sensorMode fpModeSensorMaintenance <;> exact henroll
      · simp only [Bool.not_true, Bool.false_eq_true, if_false, if_true, not_false_eq_true, and_self]
        rw [← henroll]
        exact fpResetAndClearContext_slots
    · exact henroll

theorem detectFinger_slots {finger : FingerState} : slots (detectFinger finger s) = slots s := by
  simp only [detectFinger]
  split <;> split <;> rfl

theorem fpEnablePositiveMatchSecret_slots {fgr : Nat} : slots (fpEnablePositiveMatchSecret fgr now s) =
    { slots s with secret := if s.positiveMatchSecretState.readable then noMatch else armed fgr now } := by
  rw [fpEnablePositiveMatchSecret]
  split <;> rfl

theorem validAtOnce_slots : slots (validAtOnce s) =
    { slots s with templValid := if (slots s).session then (slots s).templValid else increment (slots s).templValid } := by
  have hsession : fingerprintAuthEnabled s = (slots s).session := rfl
  rw [validAtOnce, hsession]
  cases (slots s).session <;> rfl

theorem finishEnrollment_slots {templ : Buffer} :
    slots (finishEnrollment (.done templ) now s) = (slots s).next (.enrolled templ now) := by
  rw [finishEnrollment, validAtOnce_slots, fpEnablePositiveMatchSecret_slots]
  rfl

theorem fpProcessEnroll_slots {image : FingerImage} :
    slots (fpProcessEnroll image now s) = (slots s).next (enrollEvent image now) := by
  rw [fpProcessEnroll, enrollEvent]
  split
  · rfl
  · split
    · cases image.finish with
      | failed left => rfl
      | done templ => exact finishEnrollment_slots
    · rfl

theorem fpProcessMatch_slots {image : FingerImage} :
    slots (fpProcessMatch cfg image now s) = (slots s).next (matchEvent cfg image now s) := by
  have hcount : (fpDisablePositiveMatchSecret s).templValid = s.templValid := rfl
  simp only [fpProcessMatch, matchEvent, hcount]
  split
  · rename_i hzero
    have hnone : ∀ i, ¬i < (slots s).templValid := fun i h => Nat.not_lt_zero i (hzero ▸ h)
    simp only [Slots.next, hnone, if_false]
    rfl
  · cases acceptedMatch cfg image with
    | none => rfl
    | some fgr =>
      dsimp only
      rw [markUpdated]
      split <;> rfl

theorem fpProcessFinger_slots {image : FingerImage} : slots (fpProcessFinger cfg image now s) =
    (slots s).next (if image.acquired then
      if has s.sensorMode fpModeEnrollImage then enrollEvent image now
      else if has s.sensorMode fpModeMatch then matchEvent cfg image now s
      else .quiet
    else .quiet) := by
  rw [fpProcessFinger]
  cases image.acquired
  · rfl
  · simp only [Bool.not_true, Bool.false_eq_true, if_false, if_true]
    split
    · exact fpProcessEnroll_slots
    · split
      · exact fpProcessMatch_slots
      · rfl

theorem fpTaskSensorEvent_slots {finger : FingerState} {image : FingerImage} :
    slots (fpTaskSensorEvent cfg finger image now s) = (slots s).next (event cfg (.sensorEvent finger image now) s) := by
  have hdetect := @detectFinger_slots s finger
  have hmatch : matchEvent cfg image now (detectFinger finger s) = matchEvent cfg image now s := by
    rw [matchEvent, matchEvent,
      show (detectFinger finger s).templValid = s.templValid from congrArg Slots.templValid hdetect]
  rw [fpTaskSensorEvent, event, ← hdetect, ← hmatch]
  by_cases hwaits : has s.sensorMode fpModeAnyDetectFinger = true
  · rw [if_pos hwaits]
    dsimp only
    by_cases hfinger : finger = .present ∧ has (detectFinger finger s).sensorMode fpModeAnyCapture = true
    · rw [if_pos hfinger, fpProcessFinger_slots]
      by_cases hacquired : image.acquired = true
      · have hprocessed : Processed finger image s := ⟨hwaits, hfinger.1, hfinger.2, hacquired⟩
        rw [if_pos hacquired, if_pos hprocessed]
      · have hquiet : ¬Processed finger image s := fun h => hacquired h.2.2.2
        rw [if_neg hacquired, if_neg hquiet]
    · rw [if_neg hfinger, if_neg fun h => hfinger ⟨h.2.1, h.2.2.1⟩, Slots.next]
  · rw [if_neg hwaits, if_neg fun h => hwaits h.1, Slots.next, hdetect]

/-! ## Every step -/

theorem fpCommandContext_slots {action : UInt8} {userId : Bytes 32} : slots (fpCommandContext cfg action userId now s).1 =
    (slots s).next (event cfg (.context action userId now) s) := by
  rw [fpCommandContext, event]
  by_cases hasync : action = 0
  · have hone : ¬action = 1 := by simp [hasync]
    have hquiet : ¬(action = 1 ∧ ¬has s.sensorMode fpModeResetSensor = true) := fun h => hone h.1
    rw [if_pos hasync, if_neg hquiet, Slots.next]
    split
    · rfl
    · exact fpSetSensorMode_slots
  · rw [if_neg hasync]
    by_cases hresult : action = 1
    · rw [if_pos hresult]
      by_cases hreset : has s.sensorMode fpModeResetSensor = true
      · rw [if_pos hreset, if_neg fun h => h.2 hreset, Slots.next]
      · rw [if_neg hreset, if_pos ⟨hresult, hreset⟩]
        rfl
    · rw [if_neg hresult, if_neg fun h => hresult h.1, Slots.next]

theorem fpReadMatchSecret_slots {fgr : Option Nat} {derived : Option (Bytes 32)} :
    slots (fpReadMatchSecret cfg fgr derived now s).1 = (slots s).next .disarmed := by
  cases fgr with
  | none => rfl
  | some fgr =>
    simp only [fpReadMatchSecret]
    split
    · rfl
    · split
      · rfl
      · split
        · rfl
        · split <;> rfl

theorem fpCommandSignMatch_slots {peerChallenge : Bytes 32} : slots (fpCommandSignMatch cfg peerChallenge now s).1 =
    (slots s).next (event cfg (.signMatch peerChallenge now) s) := by
  rw [event, fpCommandSignMatch]
  cases fingerprintAuthEnabled s
  · rfl
  · simp only [Bool.not_true, Bool.false_eq_true, if_false, if_true]
    split
    · rfl
    · split
      · rfl
      · split <;> rfl

theorem fpCommandLoadPairingKey_slots {structVersion : UInt16} {decryption : KeyDecryption} :
    slots (fpCommandLoadPairingKey structVersion decryption s).1 = slots s := by
  simp only [fpCommandLoadPairingKey]
  split
  · rfl
  · split
    · rfl
    · split
      · rfl
      · cases decryption <;> rfl

theorem fpCommandEstablishSession_slots {peerNonce : Bytes 32} {tpmSeed : Option (Bytes 32)} :
    slots (fpCommandEstablishSession cfg peerNonce tpmSeed s).1 =
      (slots s).next (event cfg (.establishSession peerNonce tpmSeed) s) := by
  rw [event, fpCommandEstablishSession]
  cases s.encryptionStatus.sessionNonceSet
  · rfl
  · cases generateSessionKey cfg s.sessionNonce peerNonce s.pairingKey with
    | none => simp [Slots.next]
    | some key => cases tpmSeed <;> rfl

theorem slots_exec : slots (exec cfg i s).1 = (slots s).next (event cfg i s) := by
  cases i with
  | mode mode mac now => exact fpSetSensorMode_slots
  | context action userId now => exact fpCommandContext_slots
  | tpmSeed structVersion seed =>
    simp only [exec, fpCommandTpmSeed]
    split
    · rfl
    · split <;> rfl
  | readMatchSecret fgr derived now => exact fpReadMatchSecret_slots
  | signMatch peerChallenge now => exact fpCommandSignMatch_slots
  | loadPairingKey structVersion decryption => exact fpCommandLoadPairingKey_slots
  | generateNonce nonce =>
    rw [event, exec, fpCommandGenerateNonce]
    cases fingerprintAuthEnabled s
    · rfl
    · exact fpResetContext_slots
  | establishSession peerNonce tpmSeed => exact fpCommandEstablishSession_slots
  | generateChallenge challenge now =>
    rw [event, exec, fpCmdGenerateChallenge]
    split <;> rfl
  | frame offset size responseMax now answer => exact fpCommandFrame_slots
  | template paramsSize offset size data answer => exact fpCommandTemplate_slots
  | confirmTemplate mac now => exact fpCommandConfirmTemplate_slots
  | updateConfig beginFails image => exact fpTaskUpdateConfig_slots
  | sensorEvent finger answer now => exact fpTaskSensorEvent_slots

/-! ## What the code has checked when an event happens -/

def Guard (cfg : Config) (s : State) : Event → Prop
  | .reset count => count ≤ cfg.maxFingerCount
  | .exported fgr => fgr < cfg.maxFingerCount ∧ fgr < s.templValid
  | .erased | .committed _ => s.templValid < cfg.maxFingerCount
  | .confirmed => s.templateNewlyEnrolled = s.templValid
  | .matched _ (some fgr) _ => fgr < cfg.maxFingerCount
  | _ => True

theorem acceptedMatch_lt {image : FingerImage} {fgr : Nat} (h : acceptedMatch cfg image = some fgr) :
    fgr < cfg.maxFingerCount := by
  rw [acceptedMatch] at h
  split at h
  · rename_i haccepted
    cases h
    omega
  · cases h

theorem guard_matchEvent {image : FingerImage} : Guard cfg s (matchEvent cfg image now s) := by
  rw [matchEvent]
  split
  · exact trivial
  · cases hmatch : acceptedMatch cfg image with
    | none => exact trivial
    | some fgr => exact acceptedMatch_lt hmatch

theorem guard_enrollEvent {image : FingerImage} : Guard cfg s (enrollEvent image now) := by
  rw [enrollEvent]
  split
  · exact trivial
  · split
    · cases image.finish <;> exact trivial
    · exact trivial

theorem guard_event : Guard cfg s (event cfg i s) := by
  cases i with
  | frame offset size responseMax now answer =>
    rw [event]
    split
    · rename_i hencrypts
      exact ⟨hencrypts.1.2.2.1, hencrypts.1.2.2.2.1⟩
    · exact trivial
  | template paramsSize offset size data answer =>
    rw [event]
    split
    · rename_i huploads
      cases decrypted cfg answer (s.putPublic offset.toNat (size.toNat % 2 ^ 31) data) <;> exact huploads.1.1
    · exact trivial
  | confirmTemplate mac now =>
    rw [event]
    split
    · rename_i hconfirmed
      exact hconfirmed.1
    · exact trivial
  | updateConfig beginFails image =>
    rw [event]
    split
    · exact Nat.le_refl _
    · exact trivial
  | sensorEvent finger answer now =>
    rw [event]
    split
    · split
      · exact guard_enrollEvent
      · split
        · exact guard_matchEvent
        · exact trivial
    · exact trivial
  | generateNonce nonce =>
    rw [event]
    split
    · exact Nat.zero_le _
    · exact trivial
  | context action userId now =>
    rw [event]
    split <;> exact trivial
  | signMatch peerChallenge now =>
    rw [event]
    split <;> exact trivial
  | establishSession peerNonce tpmSeed =>
    rw [event]
    split <;> exact trivial
  | _ => exact trivial

theorem step_eq_some {s' : State} (h : step cfg i s = some s') : i.enabled s = true ∧ s' = (exec cfg i s).1 := by
  rw [step] at h
  split at h
  · rename_i henabled
    exact ⟨henabled, (Option.some.inj h).symm⟩
  · cases h

theorem slots_step {s' : State} (h : step cfg i s = some s') : slots s' = (slots s).next (event cfg i s) := by
  obtain ⟨-, rfl⟩ := step_eq_some h
  exact slots_exec

/-! ## Releases that succeed -/

theorem fpReadMatchSecret_success {derived : Option (Bytes 32)} {number : Option Nat}
    (h : (fpReadMatchSecret cfg number derived now s).2.rv = .success) :
    number = some s.positiveMatchSecretState.templateMatched ∧ s.positiveMatchSecretState.readable = true ∧
      now < s.positiveMatchSecretState.deadline := by
  cases number with
  | none => cases h
  | some fgr =>
    simp only [fpReadMatchSecret] at h
    split at h
    · cases h
    · split at h
      · cases h
      · rename_i hexpired
        split at h
        · cases h
        · rename_i hmatched
          have hnow : now < s.positiveMatchSecretState.deadline := by simpa [timestampExpired] using hexpired
          simp only [not_or, not_not, Bool.not_eq_true', Bool.not_eq_false] at hmatched
          exact ⟨congrArg some hmatched.1, hmatched.2, hnow⟩

theorem fpCommandSignMatch_success {peerChallenge : Bytes 32}
    (h : (fpCommandSignMatch cfg peerChallenge now s).2.rv = .success) :
    fingerprintAuthEnabled s = true ∧ s.positiveMatchSecretState.readable = true ∧
      now < s.positiveMatchSecretState.deadline := by
  simp only [fpCommandSignMatch] at h
  split at h
  · cases h
  · rename_i hsession
    split at h
    · cases h
    · rename_i hmatched
      split at h
      · cases h
      · rename_i hexpired
        have hnow : now < s.positiveMatchSecretState.deadline := by simpa [timestampExpired] using hexpired
        simp only [not_or, Bool.not_eq_true', Bool.not_eq_false] at hmatched
        exact ⟨by simpa using hsession, hmatched.2, hnow⟩

end ChromeEc.FpSensor
