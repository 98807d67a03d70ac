import ChromeEc.FpSensor.Control

/- Templates and salts are secret.

  fp_enc_buffer takes uploads, is decrypted in place, is encrypted in place, and is read in
  chunks. Only the chunk at offset 0 is preceded by an encryption. The plaintext of an upload
  stays in the buffer, and so does that of a template whose encryption does not start.

  What is proved: two runs whose steps differ in nothing but the plaintext of templates and
  salts give the same responses, match secrets apart, if no chunk behind the first has a byte
  that was last written with plaintext (`templates_confidential`). `decrypted_then_read` are
  two runs in which an uploaded template is read back. -/
namespace ChromeEc.FpSensor

open ChromeEc.Lib.Memory

variable {cfg : Config} {s t : State} {i j : Label} {l k : List (State × Label)}

/-! ## What may differ -/

def EnrollmentFinish.succeeds : EnrollmentFinish → Bool
  | .failed _ => false
  | .done _ => true

/-- AES-GCM comes to the same end on other plaintext, and both salts are good or none is. -/
inductive SameAead (cfg : Config) : Aead → Aead → Prop
  | same (aead : Aead) : SameAead cfg aead aead
  | done (out out' : Buffer)
    (h : bytesAreTrivial (read out' cfg.templateSize fpPositiveMatchSaltBytes) =
      bytesAreTrivial (read out cfg.templateSize fpPositiveMatchSaltBytes)) : SameAead cfg (.done out) (.done out')

/-- The same step with other templates and other salts, which AES-GCM encrypts to the same bytes. -/
inductive SameStep (cfg : Config) : Label → Label → Prop
  | same (i : Label) : SameStep cfg i i
  | readMatchSecret (fgr : UInt16) (derived derived' : Option (Bytes 32)) (now : Nat) :
    SameStep cfg (.readMatchSecret fgr derived now) (.readMatchSecret fgr derived' now)
  | frame (offset size : UInt32) (responseMax now : Nat) (answer : Encryption) (newSalt : Buffer) :
    SameStep cfg (.frame offset size responseMax now answer)
      (.frame offset size responseMax now { answer with newSalt := newSalt })
  | template (paramsSize : Nat) (offset size : UInt32) (data : Buffer) (key : Bool) {aead aead' : Aead}
    (h : SameAead cfg aead aead') :
    SameStep cfg (.template paramsSize offset size data { key := key, aead := aead })
      (.template paramsSize offset size data { key := key, aead := aead' })
  | sensorEvent (finger : FingerState) (answer : FingerImage) (finish : EnrollmentFinish) (matched : Nat → Buffer)
    (now : Nat) (h : finish.succeeds = answer.finish.succeeds) :
    SameStep cfg (.sensorEvent finger answer now)
      (.sensorEvent finger { answer with finish := finish, matched := matched } now)

/-- A match secret is made from a salt and is for the host. -/
def Label.releases : Label → Bool
  | .readMatchSecret .. => true
  | _ => false

def SameResponse (cfg : Config) (x y : State × Label) : Prop :=
  x.2.releases = true ∨ (exec cfg y.2 y.1).2 = (exec cfg x.2 x.1).2

/-- A chunk behind the first has no byte that was last written with plaintext. -/
def Masked (cfg : Config) (x : State × Label) : Prop :=
  match x.2 with
  | .frame offset size responseMax _ _ =>
    Serves cfg offset size responseMax x.1 → offset.toNat % 2 ^ 28 ≠ 0 →
      ∀ n < size.toNat, x.1.plain (offset.toNat % 2 ^ 28 + n) = false
  | _ => True

/-! ## States that differ in secrets -/

/-- A buffer that agrees with fp_enc_buffer outside the plaintext, which is behind the metadata. -/
def Agrees (s : State) (buffer : Buffer) : Prop :=
  (∀ a, s.plain a = false → buffer a = s.fpEncBuffer a) ∧ ∀ a < fpTemplateOffset, s.plain a = false

def State.secrets (s : State) (templ salt : Nat → Buffer) (buffer : Buffer) : State :=
  { s with fpTemplate := templ, fpPositiveMatchSalt := salt, fpEncBuffer := buffer }

def Low (s t : State) : Prop := ∃ templ salt buffer, t = s.secrets templ salt buffer ∧ Agrees s buffer

theorem low_boot : Low boot boot := ⟨_, _, _, rfl, fun _ _ => rfl, fun _ _ => rfl⟩

theorem Low.field {α : Type} (h : Low s t) (f : State → α)
    (hf : ∀ s templ salt buffer, f (State.secrets s templ salt buffer) = f s) : f t = f s := by
  obtain ⟨templ, salt, buffer, rfl, -⟩ := h
  exact hf s templ salt buffer

theorem Low.map (h : Low s t) (f : State → State)
    (hf : ∀ s templ salt buffer, f (State.secrets s templ salt buffer) = (f s).secrets templ salt buffer)
    (hsame : ∀ s, (f s).plain = s.plain ∧ (f s).fpEncBuffer = s.fpEncBuffer) : Low (f s) (f t) := by
  obtain ⟨templ, salt, buffer, rfl, hagrees, hmeta⟩ := h
  refine ⟨templ, salt, buffer, hf s templ salt buffer, ?_⟩
  rw [Agrees, (hsame s).1, (hsame s).2]
  exact ⟨hagrees, hmeta⟩

theorem Low.putPublic (h : Low s t) {offset size : Nat} {data : Buffer} :
    Low (s.putPublic offset size data) (t.putPublic offset size data) := by
  obtain ⟨templ, salt, buffer, rfl, hagrees, hmeta⟩ := h
  refine ⟨templ, salt, copy buffer offset size data, rfl, fun a ha => ?_, fun a ha => ?_⟩
  · simp only [State.putPublic, copy] at ha ⊢
    split
    · rfl
    · rename_i hout
      rw [if_neg hout] at ha
      exact hagrees a ha
  · simp only [State.putPublic, copy]
    split
    · rfl
    · exact hmeta a ha

theorem Low.putPlain (h : Low s t) {offset size : Nat} (hoffset : fpTemplateOffset ≤ offset) {data data' : Buffer} :
    Low (s.putPlain offset size data) (t.putPlain offset size data') := by
  obtain ⟨templ, salt, buffer, rfl, hagrees, hmeta⟩ := h
  refine ⟨templ, salt, copy buffer offset size data', rfl, fun a ha => ?_, fun a ha => ?_⟩
  · simp only [State.putPlain, copy] at ha ⊢
    split at ha
    · cases ha
    · rename_i hout
      rw [if_neg hout, if_neg hout]
      exact hagrees a ha
  · have hbefore : copy s.plain offset size (fun _ => true) a = s.plain a := copy_of_lt (by omega)
    exact hbefore.trans (hmeta a ha)

theorem Low.clearEncBuffer (h : Low s t) : Low s.clearEncBuffer t.clearEncBuffer := by
  obtain ⟨templ, salt, buffer, rfl, -⟩ := h
  exact ⟨templ, salt, fun _ => 0, rfl, fun _ _ => rfl, fun _ _ => rfl⟩

theorem Low.access (h : Low s t) {idx : Nat} : Low (s.access idx) (t.access idx) :=
  h.map (·.access idx) (fun _ _ _ _ => rfl) fun _ => ⟨rfl, rfl⟩

theorem Low.setTemplate (h : Low s t) {idx : Nat} {templ templ' : Buffer} :
    Low (s.setTemplate idx templ) (t.setTemplate idx templ') := by
  obtain ⟨templates, salt, buffer, rfl, hagrees⟩ := h
  exact ⟨Function.update templates idx templ', salt, buffer, rfl, hagrees⟩

theorem Low.setSalt (h : Low s t) {idx : Nat} {salt salt' : Buffer} : Low (s.setSalt idx salt) (t.setSalt idx salt') := by
  obtain ⟨templ, salts, buffer, rfl, hagrees⟩ := h
  exact ⟨templ, Function.update salts idx salt', buffer, rfl, hagrees⟩

theorem Low.clearFingerContext (h : Low s t) {idx : Nat} : Low (fpClearFingerContext idx s) (fpClearFingerContext idx t) :=
  h.setTemplate.setSalt

theorem Low.templValid (h : Low s t) : t.templValid = s.templValid := h.field State.templValid fun _ _ _ _ => rfl

theorem Low.read_eq (h : Low s t) {offset size : Nat} (hmasked : ∀ n < size, s.plain (offset + n) = false) :
    read t.fpEncBuffer offset size = read s.fpEncBuffer offset size := by
  obtain ⟨_, _, buffer, rfl, hagrees, -⟩ := h
  apply List.map_congr_left
  intro n hn
  exact hagrees _ (hmasked n (List.mem_range.mp hn))

/-! ## Requests for templates -/

theorem Low.writeMetadata (h : Low s t) {nonce encryptionSalt : Buffer} :
    Low (writeMetadata nonce encryptionSalt s) (writeMetadata nonce encryptionSalt t) :=
  h.clearEncBuffer.putPublic.putPublic.putPublic

theorem Low.renewSalt (h : Low s t) {fgr : Nat} {newSalt newSalt' : Buffer} :
    Low (renewSalt fgr newSalt s) (renewSalt fgr newSalt' t) := by
  have hnewly := h.field State.templateNewlyEnrolled fun _ _ _ _ => rfl
  simp only [FpSensor.renewSalt, hnewly]
  split
  · exact h.setSalt.map ({ · with templateNewlyEnrolled := fpNoSuchTemplate }) (fun _ _ _ _ => rfl) fun _ => ⟨rfl, rfl⟩
  · exact h

theorem Low.copyPayload (h : Low s t) {fgr : Nat} : Low (copyPayload cfg fgr s) (copyPayload cfg fgr t) :=
  (h.access.putPlain (Nat.le_refl _)).putPlain (Nat.le_add_right _ _)

theorem Low.clearDirty (h : Low s t) {fgr : Nat} : Low (clearDirty fgr s) (clearDirty fgr t) :=
  h.map (FpSensor.clearDirty fgr) (fun _ _ _ _ => rfl) fun _ => ⟨rfl, rfl⟩

/-- After an encryption nothing in the buffer is plaintext. -/
theorem plain_of_encrypted {fgr now : Nat} {answer : Encryption}
    (h : (encryptTemplate cfg fgr now answer s).2 = .success) (a : Nat) :
    (encryptTemplate cfg fgr now answer s).1.plain a = false := by
  have hsalt : ∀ u, (renewSalt fgr answer.newSalt u).plain = u.plain := by
    intro u
    rw [renewSalt]
    split <;> rfl
  simp only [encryptTemplate] at h ⊢
  split at h
  · cases h
  · rename_i hdeadline
    rw [if_neg hdeadline]
    split at h
    · cases h
    · rename_i hkey
      rw [if_neg hkey]
      cases haead : answer.aead with
      | noContext =>
        rw [haead] at h
        cases h
      | failed left =>
        rw [haead] at h
        cases h
      | done out =>
        simp only [clearDirty, State.putPublic, copyPayload, State.putPlain, State.access, hsalt, writeMetadata,
          State.clearEncBuffer, payloadSize, copy]
        repeat' split
        all_goals first | rfl | omega

theorem Low.encryptTemplate (h : Low s t) {fgr now : Nat} {answer : Encryption} {newSalt : Buffer} :
    Low (encryptTemplate cfg fgr now answer s).1 (encryptTemplate cfg fgr now { answer with newSalt := newSalt } t).1 ∧
      (encryptTemplate cfg fgr now { answer with newSalt := newSalt } t).2 = (encryptTemplate cfg fgr now answer s).2 := by
  have hdeadline := h.field State.encryptionDeadline fun _ _ _ _ => rfl
  have hstart := h.map ({ · with encryptionDeadline := now + 1 * second }) (fun _ _ _ _ => rfl) fun _ => ⟨rfl, rfl⟩
  have hwritten := @Low.writeMetadata _ _ hstart answer.nonce answer.encryptionSalt
  have hready := @Low.renewSalt _ _ hwritten fgr answer.newSalt newSalt
  have hseed := hready.field State.tpmSeed fun _ _ _ _ => rfl
  simp only [FpSensor.encryptTemplate, hdeadline, hseed]
  split
  · exact ⟨h, rfl⟩
  · split
    · exact ⟨hready, rfl⟩
    · cases answer.aead with
      | noContext => exact ⟨hready.copyPayload, rfl⟩
      | failed left => exact ⟨hready.copyPayload.putPublic, rfl⟩
      | done out => exact ⟨hready.copyPayload.putPublic.putPublic.clearDirty, rfl⟩

variable {offset size : UInt32} {responseMax now : Nat}

def LowPair {α : Type} (r q : State × α) : Prop := Low r.1 q.1 ∧ q.2 = r.2

theorem Low.fpCommandFrame (h : Low s t) {answer : Encryption} {newSalt : Buffer}
    (hmasked : Masked cfg (s, .frame offset size responseMax now answer)) :
    LowPair (fpCommandFrame cfg offset size responseMax now answer s)
      (fpCommandFrame cfg offset size responseMax now { answer with newSalt := newSalt } t) := by
  have hmode := h.field State.sensorMode fun _ _ _ _ => rfl
  have himage := h.field State.fpBuffer fun _ _ _ _ => rfl
  simp only [FpSensor.fpCommandFrame, h.templValid, hmode, himage]
  split
  · exact ⟨h, rfl⟩
  · rename_i hmax
    split
    · split
      · exact ⟨h, rfl⟩
      · split <;> split <;> exact ⟨h, rfl⟩
    · rename_i hidx
      split
      · exact ⟨h, rfl⟩
      · rename_i hfgr
        split
        · exact ⟨h, rfl⟩
        · rename_i hvalid
          split
          · exact ⟨h, rfl⟩
          · rename_i hbounds
            split
            · rename_i hzero
              obtain ⟨hlow, hrv⟩ := @Low.encryptTemplate cfg _ _ h (offset.toNat / 2 ^ 28 - 1) now answer newSalt
              have hplain := @plain_of_encrypted cfg s (offset.toNat / 2 ^ 28 - 1) now answer
              generalize FpSensor.encryptTemplate cfg (offset.toNat / 2 ^ 28 - 1) now answer s = r at hlow hrv hplain
              generalize FpSensor.encryptTemplate cfg (offset.toNat / 2 ^ 28 - 1) now
                { answer with newSalt := newSalt } t = q at hlow hrv
              obtain ⟨u, rv⟩ := r
              obtain ⟨v, rv'⟩ := q
              cases hrv
              cases rv with
              | success =>
                have hread := @Low.read_eq _ _ hlow (offset.toNat % 2 ^ 28) size.toNat fun n _ => hplain rfl _
                exact ⟨hlow, congrArg (fun data => Response.mk .success (.bytes data)) hread⟩
              | _ => exact ⟨hlow, rfl⟩
            · rename_i hbehind
              have hserves : Serves cfg offset size responseMax s :=
                ⟨by omega, by omega, by omega, by omega, not_not.mp hbounds⟩
              exact ⟨h, by rw [h.read_eq (hmasked hserves hbehind)]⟩

/-! ## Uploads -/

theorem Low.setTemplValid (h : Low s t) {n n' : Nat} (hn : n' = n) :
    Low { s with templValid := n } { t with templValid := n' } := by
  obtain ⟨templ, salt, buffer, rfl, hagrees⟩ := h
  exact ⟨templ, salt, buffer, hn ▸ rfl, hagrees⟩

theorem Low.storeTemplate (h : Low s t)
    (hsalt : bytesAreTrivial (saltInBuffer cfg t) = bytesAreTrivial (saltInBuffer cfg s)) :
    LowPair (storeTemplate cfg s) (storeTemplate cfg t) := by
  have hsame : ∀ (u : State) idx templ, saltInBuffer cfg (u.setTemplate idx templ) = saltInBuffer cfg u := fun _ _ _ => rfl
  simp only [FpSensor.storeTemplate, hsame, hsalt, h.templValid]
  split
  · exact ⟨h.setTemplate.setTemplate, rfl⟩
  · exact ⟨h.setTemplate.setSalt.setTemplValid (congrArg increment h.templValid), rfl⟩

theorem saltInBuffer_putPlain {out : Buffer} :
    saltInBuffer cfg (s.putPlain fpTemplateOffset (payloadSize cfg) out) =
      read out cfg.templateSize fpPositiveMatchSaltBytes := by
  apply List.map_congr_left
  intro n hn
  have hbound := List.mem_range.mp hn
  rw [Nat.add_assoc]
  exact copy_inside (by simp only [payloadSize]; omega)

/-- Two decryptions come to the same end, with salts that are both good or both not. -/
theorem Low.decryptTemplate (h : Low s t) {key : Bool} {aead aead' : Aead} (haead : SameAead cfg aead aead') :
    Low (decryptTemplate cfg { key := key, aead := aead } s).1 (decryptTemplate cfg { key := key, aead := aead' } t).1 ∧
      (decryptTemplate cfg { key := key, aead := aead' } t).2 = (decryptTemplate cfg { key := key, aead := aead } s).2 ∧
        ((decryptTemplate cfg { key := key, aead := aead } s).2 = .success →
          bytesAreTrivial (saltInBuffer cfg (decryptTemplate cfg { key := key, aead := aead' } t).1) =
            bytesAreTrivial (saltInBuffer cfg (decryptTemplate cfg { key := key, aead := aead } s).1)) := by
  have hseed := h.field State.tpmSeed fun _ _ _ _ => rfl
  simp only [FpSensor.decryptTemplate, hseed, h.templValid]
  split
  · exact ⟨h, rfl, fun h => by cases h⟩
  · cases haead with
    | done out out' hsalt =>
      refine ⟨h.putPlain (Nat.le_refl _), rfl, fun _ => ?_⟩
      rw [saltInBuffer_putPlain, saltInBuffer_putPlain, hsalt]
    | same aead =>
      cases aead with
      | noContext => exact ⟨h.clearFingerContext, rfl, fun h => by cases h⟩
      | failed left =>
        have hcount : (t.putPublic fpTemplateOffset (payloadSize cfg) left).templValid =
            (s.putPublic fpTemplateOffset (payloadSize cfg) left).templValid := h.templValid
        dsimp only
        rw [hcount]
        exact ⟨h.putPublic.clearFingerContext, rfl, fun h => by cases h⟩
      | done out =>
        refine ⟨h.putPlain (Nat.le_refl _), rfl, fun _ => ?_⟩
        rw [saltInBuffer_putPlain, saltInBuffer_putPlain]

theorem Low.fpCommitTemplate (h : Low s t) {key : Bool} {aead aead' : Aead} (haead : SameAead cfg aead aead') :
    LowPair (fpCommitTemplate cfg { key := key, aead := aead } s)
      (fpCommitTemplate cfg { key := key, aead := aead' } t) := by
  have hclear := @Low.clearFingerContext _ _ h s.templValid
  have hformat : validateTemplateFormat (fpClearFingerContext s.templValid t) =
      validateTemplateFormat (fpClearFingerContext s.templValid s) := by
    obtain ⟨_, _, buffer, rfl, hagrees, hmeta⟩ := h
    have hversion : ∀ a < fpTemplateOffset, buffer a = s.fpEncBuffer a := fun a ha => hagrees a (hmeta a ha)
    have hlow := hversion 0 (by decide)
    have hhigh := hversion 1 (by decide)
    simp only [validateTemplateFormat, structVersion, fpClearFingerContext, State.setTemplate, State.setSalt,
      State.access, State.secrets, hlow, hhigh]
  simp only [FpSensor.fpCommitTemplate, h.templValid, hformat]
  split
  · exact ⟨hclear, rfl⟩
  · obtain ⟨hlow, hrv, hsalt⟩ := @Low.decryptTemplate _ _ _ hclear key _ _ haead
    generalize FpSensor.decryptTemplate cfg { key := key, aead := aead } (fpClearFingerContext s.templValid s) = r
      at hlow hrv hsalt
    generalize FpSensor.decryptTemplate cfg { key := key, aead := aead' } (fpClearFingerContext s.templValid t) = q
      at hlow hrv hsalt
    obtain ⟨u, rv⟩ := r
    obtain ⟨v, rv'⟩ := q
    cases hrv
    cases rv with
    | success => exact hlow.storeTemplate (hsalt rfl)
    | _ => exact ⟨hlow, rfl⟩

theorem Low.fpCommandTemplate (h : Low s t) {paramsSize : Nat} {data : Buffer} {key : Bool} {aead aead' : Aead}
    (haead : SameAead cfg aead aead') :
    LowPair (fpCommandTemplate cfg paramsSize offset size data { key := key, aead := aead } s)
      (fpCommandTemplate cfg paramsSize offset size data { key := key, aead := aead' } t) := by
  simp only [FpSensor.fpCommandTemplate, h.templValid]
  split
  · exact ⟨h, rfl⟩
  · split
    · exact ⟨h, rfl⟩
    · split
      · exact ⟨h, rfl⟩
      · split
        · exact h.putPublic.fpCommitTemplate haead
        · exact ⟨h.putPublic, rfl⟩

/-! ## Modes, users and sessions -/

theorem Low.validateRequest (h : Low s t) {operation : List UInt8} {mac : Bytes 32} :
    LowPair (validateRequest cfg operation mac now s) (validateRequest cfg operation mac now t) := by
  have hstatus := h.field State.encryptionStatus fun _ _ _ _ => rfl
  have hcheck := h.field (checkRequest cfg operation mac now) fun _ _ _ _ => rfl
  simp only [FpSensor.validateRequest, hstatus, hcheck]
  split
  · exact ⟨h, rfl⟩
  · exact ⟨h.map removeChallenge (fun _ _ _ _ => rfl) fun _ => ⟨rfl, rfl⟩, rfl⟩

variable {mode : BitVec 32} {mac : Option (Bytes 32)}

theorem Low.authenticateFpMode (h : Low s t) :
    LowPair (authenticateFpMode cfg mode mac now s) (authenticateFpMode cfg mode mac now t) := by
  have hsession := h.field fingerprintAuthEnabled fun _ _ _ _ => rfl
  have hmode := h.field State.sensorMode fun _ _ _ _ => rfl
  simp only [FpSensor.authenticateFpMode, hsession, hmode]
  split
  · exact ⟨h, rfl⟩
  · split
    · exact ⟨h, rfl⟩
    · cases mac with
      | none => exact ⟨h, rfl⟩
      | some mac =>
        dsimp only
        split
        · exact h.validateRequest
        · split
          · exact h.validateRequest
          · exact ⟨h, rfl⟩

theorem Low.fpSetSensorMode (h : Low s t) :
    LowPair (fpSetSensorMode cfg mode mac now s) (fpSetSensorMode cfg mode mac now t) := by
  have hvalid := h.field (validateFpMode cfg mode) fun _ _ _ _ => rfl
  have hmode := h.field State.sensorMode fun _ _ _ _ => rfl
  have hauth := @Low.authenticateFpMode cfg _ _ now mode mac h
  simp only [FpSensor.fpSetSensorMode, hvalid, hmode]
  split
  · exact ⟨h, rfl⟩
  · split
    · exact ⟨h, rfl⟩
    · generalize FpSensor.authenticateFpMode cfg mode mac now s = r at hauth
      generalize FpSensor.authenticateFpMode cfg mode mac now t = q at hauth
      obtain ⟨u, rv⟩ := r
      obtain ⟨v, rv'⟩ := q
      obtain ⟨hlow, hrv⟩ := hauth
      cases hrv
      cases rv with
      | success =>
        exact ⟨hlow.map ({ · with sensorMode := mode, updateConfig := true }) (fun _ _ _ _ => rfl)
          fun _ => ⟨rfl, rfl⟩, rfl⟩
      | _ => exact ⟨hlow, rfl⟩

theorem Low.fpCommandContext (h : Low s t) {action : UInt8} {userId : Bytes 32} :
    LowPair (fpCommandContext cfg action userId now s) (fpCommandContext cfg action userId now t) := by
  have hmode := h.field State.sensorMode fun _ _ _ _ => rfl
  obtain ⟨hreset, hresponse⟩ := @Low.fpSetSensorMode cfg _ _ now fpModeResetSensor none h
  simp only [FpSensor.fpCommandContext, hmode, hresponse]
  split
  · split
    · exact ⟨h, rfl⟩
    · exact ⟨hreset, rfl⟩
  · split
    · split
      · exact ⟨h, rfl⟩
      · exact ⟨h.map (fun u => { u with
          sensorMode := s.sensorMode
          userId := userId
          encryptionStatus := { u.encryptionStatus with
            userIdSet := u.encryptionStatus.userIdSet || userId.toList.any (· != 0) } })
          (fun _ _ _ _ => rfl) fun _ => ⟨rfl, rfl⟩, rfl⟩
    · exact ⟨h, rfl⟩

theorem Low.fpResetContext (h : Low s t) : Low (fpResetContext s) (fpResetContext t) := by
  obtain ⟨templ, salt, buffer, rfl, -⟩ := h
  exact ⟨templ, salt, fun _ => 0, rfl, fun _ _ => rfl, fun _ _ => rfl⟩

theorem Low.fpDisablePositiveMatchSecret (h : Low s t) :
    Low (fpDisablePositiveMatchSecret s) (fpDisablePositiveMatchSecret t) :=
  h.map FpSensor.fpDisablePositiveMatchSecret (fun _ _ _ _ => rfl) fun _ => ⟨rfl, rfl⟩

/-- A match secret is asked for. The runs stay together, though the secrets differ. -/
theorem Low.fpReadMatchSecret (h : Low s t) {fgr : Option Nat} {derived derived' : Option (Bytes 32)} :
    Low (fpReadMatchSecret cfg fgr derived now s).1 (fpReadMatchSecret cfg fgr derived' now t).1 := by
  have hdisabled := h.fpDisablePositiveMatchSecret
  have hsecret := h.field State.positiveMatchSecretState fun _ _ _ _ => rfl
  cases fgr with
  | none => exact hdisabled
  | some fgr =>
    simp only [FpSensor.fpReadMatchSecret, hsecret]
    split
    · exact hdisabled
    · split
      · exact hdisabled
      · split
        · exact hdisabled
        · split <;> split <;> exact hdisabled.access

theorem Low.fpCommandSignMatch (h : Low s t) {peerChallenge : Bytes 32} :
    LowPair (fpCommandSignMatch cfg peerChallenge now s) (fpCommandSignMatch cfg peerChallenge now t) := by
  have hdisabled := h.fpDisablePositiveMatchSecret
  have hsession := h.field fingerprintAuthEnabled fun _ _ _ _ => rfl
  have hsecret := h.field State.positiveMatchSecretState fun _ _ _ _ => rfl
  have hkey := hdisabled.field State.sessionKey fun _ _ _ _ => rfl
  have huser := hdisabled.field State.userId fun _ _ _ _ => rfl
  simp only [FpSensor.fpCommandSignMatch, hsession, hsecret, hkey, huser]
  split
  · exact ⟨h, rfl⟩
  · split
    · exact ⟨hdisabled, rfl⟩
    · split
      · exact ⟨hdisabled, rfl⟩
      · split <;> exact ⟨hdisabled, rfl⟩

theorem Low.fpCommandTpmSeed (h : Low s t) {structVersion : UInt16} {seed : Bytes 32} :
    LowPair (fpCommandTpmSeed structVersion seed s) (fpCommandTpmSeed structVersion seed t) := by
  have hstatus := h.field State.encryptionStatus fun _ _ _ _ => rfl
  simp only [FpSensor.fpCommandTpmSeed, hstatus]
  split
  · exact ⟨h, rfl⟩
  · split
    · exact ⟨h, rfl⟩
    · exact ⟨h.map ({ · with tpmSeed := seed, encryptionStatus := { s.encryptionStatus with seedSet := true } })
        (fun _ _ _ _ => rfl) fun _ => ⟨rfl, rfl⟩, rfl⟩

theorem Low.fpCommandLoadPairingKey (h : Low s t) {structVersion : UInt16} {decryption : KeyDecryption} :
    LowPair (fpCommandLoadPairingKey structVersion decryption s) (fpCommandLoadPairingKey structVersion decryption t) := by
  have hcleared := h.field checkContextCleared fun _ _ _ _ => rfl
  have hsession := h.field fingerprintAuthEnabled fun _ _ _ _ => rfl
  simp only [FpSensor.fpCommandLoadPairingKey, hcleared, hsession]
  split
  · exact ⟨h, rfl⟩
  · split
    · exact ⟨h, rfl⟩
    · split
      · exact ⟨h, rfl⟩
      · cases decryption with
        | noContext => exact ⟨h, rfl⟩
        | failed left => exact ⟨h.map ({ · with pairingKey := left }) (fun _ _ _ _ => rfl) fun _ => ⟨rfl, rfl⟩, rfl⟩
        | done key => exact ⟨h.map ({ · with pairingKey := key }) (fun _ _ _ _ => rfl) fun _ => ⟨rfl, rfl⟩, rfl⟩

theorem Low.fpCommandGenerateNonce (h : Low s t) {nonce : Bytes 32} :
    LowPair (fpCommandGenerateNonce nonce s) (fpCommandGenerateNonce nonce t) := by
  have hsession := h.field fingerprintAuthEnabled fun _ _ _ _ => rfl
  have hnonce : ∀ {u v : State}, Low u v →
      Low { u with sessionNonce := nonce, encryptionStatus := { u.encryptionStatus with sessionNonceSet := true } }
        { v with sessionNonce := nonce, encryptionStatus := { v.encryptionStatus with sessionNonceSet := true } } :=
    fun h => h.map (fun u => { u with
      sessionNonce := nonce
      encryptionStatus := { u.encryptionStatus with sessionNonceSet := true } }) (fun _ _ _ _ => rfl) fun _ => ⟨rfl, rfl⟩
  simp only [FpSensor.fpCommandGenerateNonce, hsession]
  split
  · exact ⟨hnonce h.fpResetContext, rfl⟩
  · exact ⟨hnonce h, rfl⟩

theorem Low.fpCommandEstablishSession (h : Low s t) {peerNonce : Bytes 32} {seed : Option (Bytes 32)} :
    LowPair (fpCommandEstablishSession cfg peerNonce seed s) (fpCommandEstablishSession cfg peerNonce seed t) := by
  have hstatus := h.field State.encryptionStatus fun _ _ _ _ => rfl
  have hkey := h.field (fun u => generateSessionKey cfg u.sessionNonce peerNonce u.pairingKey) fun _ _ _ _ => rfl
  simp only [FpSensor.fpCommandEstablishSession, hstatus] at hkey ⊢
  rw [hkey]
  split
  · exact ⟨h, rfl⟩
  · cases generateSessionKey cfg s.sessionNonce peerNonce s.pairingKey with
    | none => exact ⟨h, rfl⟩
    | some key =>
      cases seed with
      | none => exact ⟨h.map ({ · with sessionKey := key, encryptionStatus := s.encryptionStatus })
          (fun _ _ _ _ => rfl) fun _ => ⟨rfl, rfl⟩, rfl⟩
      | some seed =>
        exact ⟨h.map ({ · with
          sessionKey := key
          tpmSeed := seed
          encryptionStatus :=
            { s.encryptionStatus with seedSet := true, sessionNonceSet := false, sessionEstablished := true } })
          (fun _ _ _ _ => rfl) fun _ => ⟨rfl, rfl⟩, rfl⟩

theorem Low.fpCmdGenerateChallenge (h : Low s t) {challenge : Bytes 32} :
    LowPair (fpCmdGenerateChallenge challenge now s) (fpCmdGenerateChallenge challenge now t) := by
  have hsession := h.field fingerprintAuthEnabled fun _ _ _ _ => rfl
  simp only [FpSensor.fpCmdGenerateChallenge, hsession]
  split
  · exact ⟨h, rfl⟩
  · exact ⟨h.map (fun u => { u with
      challenge := challenge
      challengeCtime := now
      encryptionStatus := { u.encryptionStatus with challengeSet := true } }) (fun _ _ _ _ => rfl)
        fun _ => ⟨rfl, rfl⟩, rfl⟩

theorem Low.fpCommandConfirmTemplate (h : Low s t) {mac : Bytes 32} :
    LowPair (fpCommandConfirmTemplate cfg mac now s) (fpCommandConfirmTemplate cfg mac now t) := by
  have hnewly := h.field State.templateNewlyEnrolled fun _ _ _ _ => rfl
  have hrequest := @Low.validateRequest cfg _ _ now h operationEnrollFinish mac
  simp only [FpSensor.fpCommandConfirmTemplate, hnewly, h.templValid]
  split
  · exact ⟨h, rfl⟩
  · generalize FpSensor.validateRequest cfg operationEnrollFinish mac now s = r at hrequest
    generalize FpSensor.validateRequest cfg operationEnrollFinish mac now t = q at hrequest
    obtain ⟨u, rv⟩ := r
    obtain ⟨v, rv'⟩ := q
    obtain ⟨hlow, hrv⟩ := hrequest
    cases hrv
    cases rv with
    | success => exact ⟨hlow.setTemplValid (congrArg increment hlow.templValid), rfl⟩
    | _ => exact ⟨hlow, rfl⟩

/-! ## fp_task -/

theorem Low.maskMode (h : Low s t) {flags : BitVec 32} :
    Low { s with sensorMode := s.sensorMode &&& flags } { t with sensorMode := t.sensorMode &&& flags } :=
  h.map (fun u => { u with sensorMode := u.sensorMode &&& flags }) (fun _ _ _ _ => rfl) fun _ => ⟨rfl, rfl⟩

theorem Low.fpEnablePositiveMatchSecret (h : Low s t) {fgr : Nat} :
    Low (fpEnablePositiveMatchSecret fgr now s) (fpEnablePositiveMatchSecret fgr now t) := by
  have hsecret := h.field State.positiveMatchSecretState fun _ _ _ _ => rfl
  simp only [FpSensor.fpEnablePositiveMatchSecret, hsecret]
  split
  · exact h.fpDisablePositiveMatchSecret
  · exact h.map ({ · with positiveMatchSecretState :=
      { templateMatched := fgr, readable := true, deadline := now + 5 * second } })
      (fun _ _ _ _ => rfl) fun _ => ⟨rfl, rfl⟩

theorem Low.newTemplate (h : Low s t) {templ templ' : Buffer} : Low (newTemplate templ s) (newTemplate templ' t) := by
  rw [FpSensor.newTemplate, FpSensor.newTemplate, h.templValid]
  exact h.setTemplate.map ({ · with templateNewlyEnrolled := s.templValid }) (fun _ _ _ _ => rfl) fun _ => ⟨rfl, rfl⟩

theorem Low.validAtOnce (h : Low s t) : Low (validAtOnce s) (validAtOnce t) := by
  have hsession := h.field fingerprintAuthEnabled fun _ _ _ _ => rfl
  simp only [FpSensor.validAtOnce, hsession]
  split
  · exact h
  · exact h.setTemplValid (congrArg increment h.templValid)

theorem Low.finishEnrollment (h : Low s t) {finish finish' : EnrollmentFinish}
    (hfinish : finish'.succeeds = finish.succeeds) :
    Low (finishEnrollment finish now s) (finishEnrollment finish' now t) := by
  cases finish with
  | failed left =>
    cases finish' with
    | failed left' =>
      rw [FpSensor.finishEnrollment.eq_1, FpSensor.finishEnrollment.eq_1, h.templValid]
      exact h.setTemplate
    | done templ' => cases hfinish
  | done templ =>
    cases finish' with
    | failed left' => cases hfinish
    | done templ' =>
      rw [FpSensor.finishEnrollment.eq_2, FpSensor.finishEnrollment.eq_2, h.templValid]
      exact h.newTemplate.fpEnablePositiveMatchSecret.validAtOnce

variable {image : FingerImage} {finish : EnrollmentFinish} {matched : Nat → Buffer}

theorem Low.fpProcessEnroll (h : Low s t) (hfinish : finish.succeeds = image.finish.succeeds) :
    Low (fpProcessEnroll image now s) (fpProcessEnroll { image with finish := finish, matched := matched } now t) := by
  have hdirty := h.map (fun u => { u with templDirty := u.templDirty ||| BitVec.twoPow 32 u.templValid })
    (fun _ _ _ _ => rfl) fun _ => ⟨rfl, rfl⟩
  simp only [FpSensor.fpProcessEnroll]
  split
  · exact h
  · split
    · exact (hdirty.finishEnrollment hfinish).map (fun u => { u with
        sensorMode := u.sensorMode &&& ~~~fpModeEnrollSession
        enrollSession := u.enrollSession &&& ~~~fpModeEnrollSession }) (fun _ _ _ _ => rfl) fun _ => ⟨rfl, rfl⟩
    · exact hdirty

theorem Low.fpFingerMatch (h : Low s t) :
    Low (fpFingerMatch image s) (fpFingerMatch { image with finish := finish, matched := matched } t) := by
  obtain ⟨templ, salt, buffer, rfl, hagrees⟩ := h
  exact ⟨fun i => if i < s.templValid then matched i else templ i, salt, buffer, rfl, hagrees⟩

theorem Low.markUpdated (h : Low s t) :
    Low (markUpdated image s) (markUpdated { image with finish := finish, matched := matched } t) := by
  simp only [FpSensor.markUpdated]
  split
  · exact h.map (fun u => { u with templDirty := u.templDirty ||| image.updated }) (fun _ _ _ _ => rfl) fun _ => ⟨rfl, rfl⟩
  · exact h

theorem Low.fpProcessMatch (h : Low s t) :
    Low (fpProcessMatch cfg image now s)
      (fpProcessMatch cfg { image with finish := finish, matched := matched } now t) := by
  have hdisabled := h.fpDisablePositiveMatchSecret
  have haccepted : acceptedMatch cfg { image with finish := finish, matched := matched } = acceptedMatch cfg image := rfl
  simp only [FpSensor.fpProcessMatch, haccepted, hdisabled.templValid]
  split
  · exact hdisabled
  · cases acceptedMatch cfg image with
    | none => exact hdisabled.fpFingerMatch
    | some fgr => exact hdisabled.fpFingerMatch.fpEnablePositiveMatchSecret.markUpdated

theorem Low.fpProcessFinger (h : Low s t) (hfinish : finish.succeeds = image.finish.succeeds) :
    Low (fpProcessFinger cfg image now s)
      (fpProcessFinger cfg { image with finish := finish, matched := matched } now t) := by
  have himage := h.map ({ · with fpBuffer := image.image }) (fun _ _ _ _ => rfl) fun _ => ⟨rfl, rfl⟩
  have hmode := h.field State.sensorMode fun _ _ _ _ => rfl
  simp only [FpSensor.fpProcessFinger]
  split
  · exact himage
  · refine Low.maskMode ?_
    rw [hmode] at himage ⊢
    split
    · exact himage.fpProcessEnroll hfinish
    · split
      · exact himage.fpProcessMatch
      · exact himage

theorem Low.detectFinger (h : Low s t) {finger : FingerState} : Low (detectFinger finger s) (detectFinger finger t) := by
  have hcleared : ∀ {u v : State} (st : FingerState) (flag : BitVec 32), Low u v →
      Low (if finger = st ∧ has u.sensorMode flag then { u with sensorMode := u.sensorMode &&& ~~~flag } else u)
        (if finger = st ∧ has v.sensorMode flag then { v with sensorMode := v.sensorMode &&& ~~~flag } else v) := by
    intro u v st flag h
    rw [h.field State.sensorMode fun _ _ _ _ => rfl]
    split
    · exact h.map (fun w => { w with sensorMode := u.sensorMode &&& ~~~flag }) (fun _ _ _ _ => rfl) fun _ => ⟨rfl, rfl⟩
    · exact h
  exact hcleared .none fpModeFingerUp (hcleared .present fpModeFingerDown h)

theorem Low.fpTaskSensorEvent (h : Low s t) (hfinish : finish.succeeds = image.finish.succeeds) {finger : FingerState} :
    Low (fpTaskSensorEvent cfg finger image now s)
      (fpTaskSensorEvent cfg finger { image with finish := finish, matched := matched } now t) := by
  have hdetect := @Low.detectFinger _ _ h finger
  have hmode := h.field State.sensorMode fun _ _ _ _ => rfl
  have hafter := hdetect.field State.sensorMode fun _ _ _ _ => rfl
  simp only [FpSensor.fpTaskSensorEvent, hmode, hafter]
  split
  · split
    · exact hdetect.fpProcessFinger hfinish
    · exact hdetect
  · exact h

theorem Low.updateEnrollSession (h : Low s t) {beginFails : Bool} :
    Low (updateEnrollSession beginFails s) (updateEnrollSession beginFails t) := by
  have hmode := h.field State.sensorMode fun _ _ _ _ => rfl
  have hsession := h.field State.enrollSession fun _ _ _ _ => rfl
  simp only [FpSensor.updateEnrollSession, hmode, hsession]
  split
  · exact h.map (fun u => { u with
      sensorMode := if has s.sensorMode fpModeEnrollSession ∧ beginFails then s.sensorMode &&& ~~~fpModeEnrollSession
        else s.sensorMode
      enrollSession := (if has s.sensorMode fpModeEnrollSession ∧ beginFails then
        s.sensorMode &&& ~~~fpModeEnrollSession else s.sensorMode) &&& fpModeEnrollSession })
      (fun _ _ _ _ => rfl) fun _ => ⟨rfl, rfl⟩
  · exact h

theorem Low.fpResetAndClearContext (h : Low s t) : Low (fpResetAndClearContext cfg s) (fpResetAndClearContext cfg t) := by
  have hclear : ∀ (n : Nat) {u v : State}, Low u v →
      Low ((List.range n).foldl (fun s idx => fpClearFingerContext idx s) u)
        ((List.range n).foldl (fun s idx => fpClearFingerContext idx s) v) := by
    intro n u v h
    induction n with
    | zero => exact h
    | succ n ih =>
      rw [List.range_succ, List.foldl_append, List.foldl_append]
      exact ih.clearFingerContext
  exact hclear cfg.maxFingerCount
    (h.fpResetContext.map ({ · with fpBuffer := fun _ => 0 }) (fun _ _ _ _ => rfl) fun _ => ⟨rfl, rfl⟩)

theorem Low.fpTaskUpdateConfig (h : Low s t) {beginFails : Bool} {image : Buffer} :
    Low (fpTaskUpdateConfig cfg beginFails image s) (fpTaskUpdateConfig cfg beginFails image t) := by
  have hmode := h.field State.sensorMode fun _ _ _ _ => rfl
  have hconfigured := h.map ({ · with updateConfig := false }) (fun _ _ _ _ => rfl) fun _ => ⟨rfl, rfl⟩
  have hsession := @Low.updateEnrollSession _ _ hconfigured beginFails
  simp only [FpSensor.fpTaskUpdateConfig, hmode]
  rw [hmode] at hsession
  split
  · exact hsession.map (fun u => { u with fpBuffer := image, sensorMode := u.sensorMode &&& ~~~fpModeCapture })
      (fun _ _ _ _ => rfl) fun _ => ⟨rfl, rfl⟩
  · split
    · exact hsession
    · split
      · exact hsession.fpResetAndClearContext.maskMode
      · split
        · exact hsession.maskMode
        · exact hsession

/-! ## Runs -/

/-- A step keeps two runs together and gives both the same response, unless that is a match secret. -/
theorem Low.exec (h : Low s t) (hsame : SameStep cfg i j) (hmasked : Masked cfg (s, i)) :
    Low (exec cfg i s).1 (exec cfg j t).1 ∧ SameResponse cfg (s, i) (t, j) := by
  have hpair : ∀ {r q : State × Response}, LowPair r q → Low r.1 q.1 ∧ (i.releases = true ∨ q.2 = r.2) :=
    fun h => ⟨h.1, .inr h.2⟩
  cases hsame with
  | readMatchSecret fgr derived derived' now => exact ⟨h.fpReadMatchSecret, .inl rfl⟩
  | frame offset size responseMax now answer newSalt => exact hpair (h.fpCommandFrame hmasked)
  | template paramsSize offset size data key haead => exact hpair (h.fpCommandTemplate haead)
  | sensorEvent finger answer finish matched now hfinish => exact ⟨h.fpTaskSensorEvent hfinish, .inr rfl⟩
  | same =>
    cases i with
    | mode mode mac now => exact hpair h.fpSetSensorMode
    | context action userId now => exact hpair h.fpCommandContext
    | tpmSeed structVersion seed => exact hpair h.fpCommandTpmSeed
    | readMatchSecret fgr derived now => exact ⟨h.fpReadMatchSecret, .inl rfl⟩
    | signMatch peerChallenge now => exact hpair h.fpCommandSignMatch
    | loadPairingKey structVersion decryption => exact hpair h.fpCommandLoadPairingKey
    | generateNonce nonce => exact hpair h.fpCommandGenerateNonce
    | establishSession peerNonce seed => exact hpair h.fpCommandEstablishSession
    | generateChallenge challenge now => exact hpair h.fpCmdGenerateChallenge
    | frame offset size responseMax now answer => exact hpair (h.fpCommandFrame hmasked)
    | template paramsSize offset size data answer => exact hpair (h.fpCommandTemplate (.same answer.aead))
    | confirmTemplate mac now => exact hpair h.fpCommandConfirmTemplate
    | updateConfig beginFails image => exact ⟨h.fpTaskUpdateConfig, .inr rfl⟩
    | sensorEvent finger answer now => exact ⟨@Low.fpTaskSensorEvent _ _ _ _ _ answer.finish _ h rfl _, .inr rfl⟩

theorem forall₂_snoc {α β : Type} {R : α → β → Prop} {xs : List α} {ys : List β} {x : α} {y : β} :
    List.Forall₂ R (xs ++ [x]) (ys ++ [y]) ↔ List.Forall₂ R xs ys ∧ R x y := by
  rw [← List.forall₂_reverse_iff]
  simp [and_comm]

/-- Two runs with the same steps, templates and salts apart, give the same responses, match
    secrets apart. -/
theorem templates_confidential (h : Run cfg l s) (h' : Run cfg k t)
    (hsame : List.Forall₂ (fun x y => SameStep cfg x.2 y.2) l k) (hmasked : ∀ x ∈ l, Masked cfg x) :
    List.Forall₂ (SameResponse cfg) l k := by
  suffices hboth : Low s t ∧ List.Forall₂ (SameResponse cfg) l k from hboth.2
  induction h generalizing k t with
  | start =>
    cases h' with
    | start => exact ⟨low_boot, .nil⟩
    | step run' hstep' => simpa using hsame.length_eq
  | @step l u u' i run hstep ih =>
    cases h' with
    | start => simpa using hsame.length_eq
    | @step k v v' j run' hstep' =>
      obtain ⟨hbefore, hlast⟩ := forall₂_snoc.mp hsame
      obtain ⟨hlow, hresponses⟩ := ih run' hbefore fun x hx => hmasked x (List.mem_append_left _ hx)
      obtain ⟨-, rfl⟩ := step_eq_some hstep
      obtain ⟨-, rfl⟩ := step_eq_some hstep'
      obtain ⟨hnext, hresponse⟩ := hlow.exec hlast (hmasked _ (List.mem_append_right _ (List.mem_singleton_self _)))
      exact ⟨hnext, forall₂_snoc.mpr ⟨hresponses, hresponse⟩⟩

/-! ## An upload that is read back -/

instance (x : State × Label) : Decidable (Masked cfg x) := by
  unfold Masked
  generalize x.2 = i
  rcases i <;> infer_instance

def upload (out : Buffer) : List Label := [.tpmSeed 4 (digest 1), commit (.done out)]

/-- The template's bytes, in the middle of the buffer. -/
def secondChunk : Label :=
  .frame 0x10000030 4 512 0
    { nonce := counting, encryptionSalt := counting, newSalt := counting, key := true,
      aead := .noContext, tag := counting }

def countingDown : Buffer := fun i => 255 - i.toUInt8

/-- An uploaded template is read from the start, and then in the middle. -/
def readBack (out : Buffer) : List Label := upload out ++ [firstChunk (.done counting) 1, secondChunk]

theorem sameSteps_of_labels {xs ys : List Label} (hx : l.map Prod.snd = xs) (hy : k.map Prod.snd = ys)
    (h : List.Forall₂ (SameStep cfg) xs ys) : List.Forall₂ (fun x y => SameStep cfg x.2 y.2) l k := by
  rw [← hx, ← hy, List.forall₂_map_left_iff, List.forall₂_map_right_iff] at h
  exact h

theorem sameSteps_upload (rest : List Label) :
    List.Forall₂ (SameStep emulator) (upload counting ++ rest) (upload countingDown ++ rest) :=
  .cons (.same _) (.cons (.template _ _ _ _ _ (.done _ _ (by decide))) (List.forall₂_same.mpr fun i _ => .same i))

theorem templates_confidential_readBack : ∃ l s k t, Run emulator l s ∧ Run emulator k t ∧ s.templValid = 1 ∧
    s.fpTemplate 0 0 ≠ t.fpTemplate 0 0 ∧ List.Forall₂ (SameResponse emulator) l k := by
  have hrun : (Lib.Steps.trace (step emulator) (readBack counting) ([], boot)).any fun q =>
      (Lib.Steps.trace (step emulator) (readBack countingDown) ([], boot)).any fun r =>
        decide (q.2.templValid = 1 ∧ q.2.fpTemplate 0 0 ≠ r.2.fpTemplate 0 0 ∧ ∀ x ∈ q.1, Masked emulator x) := by
    decide +kernel
  obtain ⟨q, hq, hrest⟩ := (Option.any_eq_true _ _).mp hrun
  obtain ⟨r, hr, hdone⟩ := (Option.any_eq_true _ _).mp hrest
  obtain ⟨hcount, hdiffers, hmasked⟩ := of_decide_eq_true hdone
  have run : Run emulator q.1 q.2 := .of_trace .start hq
  have run' : Run emulator r.1 r.2 := .of_trace .start hr
  have hsame := sameSteps_of_labels (Lib.Steps.trace_labels hq) (Lib.Steps.trace_labels hr) (sameSteps_upload _)
  exact ⟨q.1, q.2, r.1, r.2, run, run', hcount, hdiffers, templates_confidential run run' hsame hmasked⟩

/-- An uploaded template is read in the middle at once. -/
theorem decrypted_then_read : ∃ l s k t, Run emulator l s ∧ Run emulator k t ∧
    List.Forall₂ (fun x y => SameStep emulator x.2 y.2) l k ∧ ¬List.Forall₂ (SameResponse emulator) l k := by
  have hrun : (Lib.Steps.trace (step emulator) (upload counting ++ [secondChunk]) ([], boot)).any fun q =>
      (Lib.Steps.trace (step emulator) (upload countingDown ++ [secondChunk]) ([], boot)).any fun r =>
        decide (¬∀ p ∈ q.1.zip r.1, p.1.2.releases = true ∨
          (exec emulator p.2.2 p.2.1).2 = (exec emulator p.1.2 p.1.1).2) := by
    decide +kernel
  obtain ⟨q, hq, hrest⟩ := (Option.any_eq_true _ _).mp hrun
  obtain ⟨r, hr, hdone⟩ := (Option.any_eq_true _ _).mp hrest
  have hsame := sameSteps_of_labels (Lib.Steps.trace_labels hq) (Lib.Steps.trace_labels hr) (sameSteps_upload _)
  refine ⟨q.1, q.2, r.1, r.2, .of_trace .start hq, .of_trace .start hr, hsame, fun h => of_decide_eq_true hdone ?_⟩
  exact fun p hp => (List.forall₂_iff_zip.mp h).2 hp

end ChromeEc.FpSensor
