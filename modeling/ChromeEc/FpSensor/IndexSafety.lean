import ChromeEc.FpSensor.Events

/- Which slots of fp_template and fp_positive_match_salt are accessed.

  The number of templates is checked when an enrolment mode is set, when an upload starts
  and when a template is read. It is not checked when the last image of an enrolment fills
  the slot at templ_valid, and the answer of the matcher is compared with the size of the
  array, not with templ_valid.

  What is proved: in every run in which an enrolment ends while there is a free slot and the
  matcher names a template it was given, the number of templates and every access keep to
  the arrays, and a match secret is readable only for a template that exists
  (`index_safe`). `upload_takes_last_slot` is a run in which an upload fills the array
  during an enrolment. -/
namespace ChromeEc.FpSensor

variable {cfg : Config} {s s' : State} {i : Label} {l : List (State × Label)} {now x : Nat}

/-! ## The slots that are reached -/

/-- The slots that a step can access. -/
def Reaches (cfg : Config) (s : State) (x : Nat) : Event → Prop
  | .disarmed => x < cfg.maxFingerCount
  | .reset count => x < count
  | .exported fgr => x = fgr
  | .erased | .committed _ | .enrollFailed _ | .enrolled .. => x = s.templValid
  | .matched .. => x < s.templValid
  | _ => False

theorem accessed_validateRequest {operation : List UInt8} {mac : Bytes 32} :
    (validateRequest cfg operation mac now s).1.accessed = s.accessed := by
  rw [validateRequest_fst]
  rfl

theorem accessed_fpSetSensorMode {mode : BitVec 32} {mac : Option (Bytes 32)} :
    (fpSetSensorMode cfg mode mac now s).1.accessed = s.accessed := by
  have hauth : (authenticateFpMode cfg mode mac now s).1.accessed = s.accessed := by
    simp only [authenticateFpMode]
    split
    · rfl
    · split
      · rfl
      · cases mac with
        | none => rfl
        | some mac =>
          dsimp only
          split
          · exact accessed_validateRequest
          · split
            · exact accessed_validateRequest
            · rfl
  rw [fpSetSensorMode]
  split
  · rfl
  · split
    · rfl
    · generalize authenticateFpMode cfg mode mac now s = r at hauth
      obtain ⟨t, rv⟩ := r
      cases rv <;> exact hauth

theorem accessed_clear {n : Nat} (h : x ∈ ((List.range n).foldl (fun s idx => fpClearFingerContext idx s) s).accessed) :
    x ∈ s.accessed ∨ x < n := by
  induction n with
  | zero => exact .inl h
  | succ n ih =>
    rw [List.range_succ, List.foldl_append] at h
    simp only [List.foldl_cons, List.foldl_nil, fpClearFingerContext, State.setSalt, State.setTemplate, State.access,
      List.mem_cons] at h
    rcases h with rfl | rfl | h
    · exact .inr (Nat.lt_succ_self _)
    · exact .inr (Nat.lt_succ_self _)
    · exact (ih h).imp id Nat.lt_succ_of_lt

@[simp] theorem accessed_putPublic {offset size : Nat} {data : Buffer} :
    (s.putPublic offset size data).accessed = s.accessed := rfl
@[simp] theorem accessed_putPlain {offset size : Nat} {data : Buffer} :
    (s.putPlain offset size data).accessed = s.accessed := rfl
@[simp] theorem accessed_clearDirty {fgr : Nat} : (clearDirty fgr s).accessed = s.accessed := rfl
@[simp] theorem accessed_copyPayload {fgr : Nat} : (copyPayload cfg fgr s).accessed = fgr :: s.accessed := rfl
@[simp] theorem accessed_setTemplate {idx : Nat} {templ : Buffer} :
    (s.setTemplate idx templ).accessed = idx :: s.accessed := rfl
@[simp] theorem accessed_setSalt {idx : Nat} {salt : Buffer} : (s.setSalt idx salt).accessed = idx :: s.accessed := rfl
@[simp] theorem accessed_fpClearFingerContext {idx : Nat} :
    (fpClearFingerContext idx s).accessed = idx :: idx :: s.accessed := rfl

theorem accessed_renewSalt {fgr : Nat} {newSalt : Buffer} (h : x ∈ (renewSalt fgr newSalt s).accessed) :
    x = fgr ∨ x ∈ s.accessed := by
  rw [renewSalt] at h
  split at h
  · exact List.mem_cons.mp h
  · exact .inr h

theorem accessed_encryptTemplate {fgr : Nat} {answer : Encryption}
    (h : x ∈ (encryptTemplate cfg fgr now answer s).1.accessed) :
    x ∈ s.accessed ∨ timestampExpired s.encryptionDeadline now = true ∧ x = fgr := by
  have hsalt : x ∈ (renewSalt fgr answer.newSalt (writeMetadata answer.nonce answer.encryptionSalt
      { s with encryptionDeadline := now + 1 * second })).accessed → x = fgr ∨ x ∈ s.accessed := accessed_renewSalt
  simp only [encryptTemplate] at h
  generalize renewSalt fgr answer.newSalt (writeMetadata answer.nonce answer.encryptionSalt
    { s with encryptionDeadline := now + 1 * second }) = t at h hsalt
  generalize timestampExpired s.encryptionDeadline now = expired at h ⊢
  cases expired
  · exact .inl h
  · have hx : x = fgr ∨ x ∈ t.accessed := by
      simp only [Bool.not_true, Bool.false_eq_true, if_false] at h
      split at h
      · exact .inr h
      · cases haead : answer.aead <;> simpa [haead] using h
    rcases hx with rfl | hx
    · exact .inr ⟨rfl, rfl⟩
    · exact (hsalt hx).symm.imp id fun h => ⟨rfl, h⟩

theorem accessed_fpCommandFrame {offset size : UInt32} {responseMax : Nat} {answer : Encryption}
    (h : x ∈ (fpCommandFrame cfg offset size responseMax now answer s).1.accessed) :
    x ∈ s.accessed ∨ Reaches cfg s x (event cfg (.frame offset size responseMax now answer) s) := by
  rcases @fpCommandFrame_cases cfg s now offset size responseMax answer with
    ⟨-, hstate⟩ | ⟨-, -, hstate⟩ | ⟨hserves, hoffset, hstate⟩
  · exact .inl (hstate ▸ h)
  · exact .inl (by rwa [hstate] at h)
  · have hencrypt := @accessed_encryptTemplate cfg s now x (offset.toNat / 2 ^ 28 - 1) answer
    rw [hstate] at h
    generalize encryptTemplate cfg (offset.toNat / 2 ^ 28 - 1) now answer s = r at h hencrypt
    obtain ⟨t, rv⟩ := r
    have hx : x ∈ t.accessed := by cases rv <;> exact h
    refine (hencrypt hx).imp id fun hreached => ?_
    rw [event, if_pos ⟨hserves, hoffset, hreached.1⟩]
    exact hreached.2

theorem accessed_storeTemplate (h : x ∈ (storeTemplate cfg s).1.accessed) : x = s.templValid ∨ x ∈ s.accessed := by
  simp only [storeTemplate] at h
  split at h
  · simpa using h
  · simpa using h

theorem accessed_decryptTemplate {answer : Decryption} (h : x ∈ (decryptTemplate cfg answer s).1.accessed) :
    x = s.templValid ∨ x ∈ s.accessed := by
  rw [decryptTemplate] at h
  split at h
  · exact .inr h
  · cases haead : answer.aead with
    | noContext => simpa [haead] using h
    | failed left =>
      rw [haead] at h
      exact (by simpa using h : x = (s.putPublic fpTemplateOffset (payloadSize cfg) left).templValid ∨ x ∈ s.accessed)
    | done out => exact .inr (by simpa [haead] using h)

theorem templValid_fpClearFingerContext (idx : Nat) (s : State) :
    (fpClearFingerContext idx s).templValid = s.templValid := rfl

theorem templValid_decryptTemplate {answer : Decryption} : (decryptTemplate cfg answer s).1.templValid = s.templValid := by
  rw [decryptTemplate]
  split
  · rfl
  · cases answer.aead with
    | noContext => exact templValid_fpClearFingerContext _ s
    | failed left => exact templValid_fpClearFingerContext _ (s.putPublic fpTemplateOffset (payloadSize cfg) left)
    | done out => rfl

theorem accessed_fpCommitTemplate {answer : Decryption} (h : x ∈ (fpCommitTemplate cfg answer s).1.accessed) :
    x = s.templValid ∨ x ∈ s.accessed := by
  have hcleared : x ∈ (fpClearFingerContext s.templValid s).accessed → x = s.templValid ∨ x ∈ s.accessed := by
    simp
  have hcount : (fpClearFingerContext s.templValid s).templValid = s.templValid := rfl
  simp only [fpCommitTemplate] at h
  generalize fpClearFingerContext s.templValid s = t at h hcleared hcount
  split at h
  · exact hcleared h
  · have hdecrypt := @accessed_decryptTemplate cfg t x answer
    have hsame := @templValid_decryptTemplate cfg t answer
    generalize decryptTemplate cfg answer t = r at h hdecrypt hsame
    obtain ⟨u, rv⟩ := r
    rw [hcount] at hdecrypt hsame
    have hstored : x = s.templValid ∨ x ∈ u.accessed := by
      cases rv with
      | success => exact hsame ▸ accessed_storeTemplate h
      | _ => exact .inr h
    rcases hstored with hx | hx
    · exact .inl hx
    · exact (hdecrypt hx).elim .inl hcleared

theorem accessed_fpCommandTemplate {paramsSize : Nat} {offset size : UInt32} {data : Buffer} {answer : Decryption}
    (h : x ∈ (fpCommandTemplate cfg paramsSize offset size data answer s).1.accessed) :
    x ∈ s.accessed ∨ Reaches cfg s x (event cfg (.template paramsSize offset size data answer) s) := by
  rcases @fpCommandTemplate_cases cfg s offset size paramsSize data answer with
    ⟨-, hstate⟩ | ⟨-, -, hstate⟩ | ⟨huploads, hcommit, hstate⟩
  · exact .inl (hstate ▸ h)
  · exact .inl (by rwa [hstate] at h)
  · rw [hstate] at h
    refine (accessed_fpCommitTemplate h).symm.imp id fun hx => ?_
    rw [event, if_pos ⟨huploads, hcommit⟩]
    cases decrypted cfg answer (s.putPublic offset.toNat (size.toNat % 2 ^ 31) data) <;> exact hx

theorem accessed_fpReadMatchSecret {fgr : Option Nat} {derived : Option (Bytes 32)}
    (h : x ∈ (fpReadMatchSecret cfg fgr derived now s).1.accessed) : x ∈ s.accessed ∨ x < cfg.maxFingerCount := by
  cases fgr with
  | none => exact .inl h
  | some fgr =>
    simp only [fpReadMatchSecret] at h
    split at h
    · exact .inl h
    · rename_i hbound
      split at h
      · exact .inl h
      · split at h
        · exact .inl h
        · have hx : x ∈ fgr :: s.accessed := by split at h <;> exact h
          rcases List.mem_cons.mp hx with rfl | hx
          · exact .inr (by omega)
          · exact .inl hx

theorem accessed_fpProcessEnroll {image : FingerImage} (h : x ∈ (fpProcessEnroll image now s).accessed) :
    x ∈ s.accessed ∨ Reaches cfg s x (enrollEvent image now) := by
  rw [fpProcessEnroll] at h
  rw [enrollEvent]
  split at h
  · exact .inl h
  · rename_i hres
    rw [if_neg hres]
    split at h
    · rename_i hpercent
      rw [if_pos hpercent]
      cases hfinish : image.finish with
      | failed left =>
        rw [hfinish] at h
        exact (List.mem_cons.mp h).symm
      | done templ =>
        have hx : x ∈ s.templValid :: s.accessed := by
          simp only [hfinish, finishEnrollment, validAtOnce, fpEnablePositiveMatchSecret] at h
          split at h <;> split at h <;> exact h
        exact (List.mem_cons.mp hx).symm
    · exact .inl h

theorem accessed_fpEnablePositiveMatchSecret {fgr : Nat} :
    (fpEnablePositiveMatchSecret fgr now s).accessed = s.accessed := by
  rw [fpEnablePositiveMatchSecret]
  split <;> rfl

theorem accessed_fpProcessMatch {image : FingerImage} (h : x ∈ (fpProcessMatch cfg image now s).accessed) :
    x ∈ s.accessed ∨ Reaches cfg s x (matchEvent cfg image now s) := by
  simp only [fpProcessMatch] at h
  split at h
  · exact .inl h
  · have hx : x ∈ (fpFingerMatch image (fpDisablePositiveMatchSecret s)).accessed := by
      split at h
      · exact h
      · rename_i fgr hmatch
        rw [← @accessed_fpEnablePositiveMatchSecret _ now fgr]
        rw [markUpdated] at h
        split at h <;> exact h
    rcases List.mem_append.mp hx with hx | hx
    · exact .inr (List.mem_range.mp hx)
    · exact .inl hx

theorem accessed_detectFinger {finger : FingerState} : (detectFinger finger s).accessed = s.accessed := by
  simp only [detectFinger]
  split <;> split <;> rfl

theorem accessed_fpProcessFinger {image : FingerImage} (hacquired : image.acquired = true)
    (h : x ∈ (fpProcessFinger cfg image now s).accessed) : x ∈ s.accessed ∨
      Reaches cfg s x (if has s.sensorMode fpModeEnrollImage then enrollEvent image now
        else if has s.sensorMode fpModeMatch then matchEvent cfg image now s else .quiet) := by
  simp only [fpProcessFinger, hacquired, Bool.not_true, Bool.false_eq_true, if_false] at h
  split
  · rename_i henroll
    rw [if_pos henroll] at h
    exact accessed_fpProcessEnroll (s := { s with fpBuffer := image.image }) h
  · rename_i henroll
    rw [if_neg henroll] at h
    split
    · rename_i hmatch
      rw [if_pos hmatch] at h
      exact accessed_fpProcessMatch (s := { s with fpBuffer := image.image }) h
    · rename_i hmatch
      rw [if_neg hmatch] at h
      exact .inl h

theorem reaches_congr {t : State} {e : Event} (h : t.templValid = s.templValid) :
    Reaches cfg t x e ↔ Reaches cfg s x e := by
  cases e <;> simp only [Reaches, h]

theorem accessed_fpTaskSensorEvent {finger : FingerState} {image : FingerImage}
    (h : x ∈ (fpTaskSensorEvent cfg finger image now s).accessed) :
    x ∈ s.accessed ∨ Reaches cfg s x (event cfg (.sensorEvent finger image now) s) := by
  have hdetect := @accessed_detectFinger s finger
  have hcount : (detectFinger finger s).templValid = s.templValid := congrArg Slots.templValid detectFinger_slots
  have hevent : matchEvent cfg image now (detectFinger finger s) = matchEvent cfg image now s := by
    rw [matchEvent, matchEvent, hcount]
  simp only [fpTaskSensorEvent] at h
  split at h
  · rename_i hwaits
    split at h
    · rename_i hfinger
      cases hacquired : image.acquired
      · refine .inl (hdetect ▸ ?_)
        rw [fpProcessFinger, hacquired] at h
        exact h
      · have hprocessed : Processed finger image s := ⟨hwaits, hfinger.1, hfinger.2, hacquired⟩
        rw [event, if_pos hprocessed, ← hdetect, ← hevent, ← reaches_congr hcount]
        exact accessed_fpProcessFinger hacquired h
    · exact .inl (hdetect ▸ h)
  · exact .inl h

theorem accessed_fpTaskUpdateConfig {beginFails : Bool} {image : Buffer}
    (h : x ∈ (fpTaskUpdateConfig cfg beginFails image s).accessed) :
    x ∈ s.accessed ∨ Reaches cfg s x (event cfg (.updateConfig beginFails image) s) := by
  have henroll : (updateEnrollSession beginFails { s with updateConfig := false }).accessed = s.accessed := by
    rw [updateEnrollSession]
    split <;> rfl
  simp only [fpTaskUpdateConfig] at h
  generalize updateEnrollSession beginFails { s with updateConfig := false } = t at h henroll
  rw [← henroll, event]
  split at h
  · exact .inl h
  · rename_i hneeded
    split at h
    · exact .inl h
    · rename_i hwait
      split at h
      · rename_i hreset
        rw [if_pos ⟨by simpa using hneeded, hwait, hreset⟩]
        exact accessed_clear (s := { fpResetContext t with fpBuffer := fun _ => 0 }) h
      · split at h <;> exact .inl h

theorem accessed_fpCommandConfirmTemplate {mac : Bytes 32} :
    (fpCommandConfirmTemplate cfg mac now s).1.accessed = s.accessed := by
  have hrequest := @accessed_validateRequest cfg s now operationEnrollFinish mac
  rw [fpCommandConfirmTemplate]
  split
  · rfl
  · generalize validateRequest cfg operationEnrollFinish mac now s = r at hrequest
    obtain ⟨t, rv⟩ := r
    cases rv <;> exact hrequest

theorem accessed_fpCommandContext {action : UInt8} {userId : Bytes 32} :
    (fpCommandContext cfg action userId now s).1.accessed = s.accessed := by
  simp only [fpCommandContext]
  split
  · split
    · rfl
    · exact accessed_fpSetSensorMode
  · split
    · split <;> rfl
    · rfl

theorem accessed_fpCommandTpmSeed {structVersion : UInt16} {seed : Bytes 32} :
    (fpCommandTpmSeed structVersion seed s).1.accessed = s.accessed := by
  simp only [fpCommandTpmSeed]
  split
  · rfl
  · split <;> rfl

theorem accessed_fpCommandSignMatch {peerChallenge : Bytes 32} :
    (fpCommandSignMatch cfg peerChallenge now s).1.accessed = s.accessed := by
  simp only [fpCommandSignMatch]
  split
  · rfl
  · split
    · rfl
    · split
      · rfl
      · split <;> rfl

theorem accessed_fpCommandLoadPairingKey {structVersion : UInt16} {decryption : KeyDecryption} :
    (fpCommandLoadPairingKey structVersion decryption s).1.accessed = s.accessed := by
  simp only [fpCommandLoadPairingKey]
  split
  · rfl
  · split
    · rfl
    · split
      · rfl
      · cases decryption <;> rfl

theorem accessed_fpCommandGenerateNonce {nonce : Bytes 32} :
    (fpCommandGenerateNonce nonce s).1.accessed = s.accessed := by
  simp only [fpCommandGenerateNonce]
  split <;> rfl

theorem accessed_fpCommandEstablishSession {peerNonce : Bytes 32} {seed : Option (Bytes 32)} :
    (fpCommandEstablishSession cfg peerNonce seed s).1.accessed = s.accessed := by
  simp only [fpCommandEstablishSession]
  split
  · rfl
  · split
    · rfl
    · cases seed <;> rfl

theorem accessed_fpCmdGenerateChallenge {challenge : Bytes 32} :
    (fpCmdGenerateChallenge challenge now s).1.accessed = s.accessed := by
  simp only [fpCmdGenerateChallenge]
  split <;> rfl

theorem accessed_exec (h : x ∈ (exec cfg i s).1.accessed) : x ∈ s.accessed ∨ Reaches cfg s x (event cfg i s) := by
  cases i with
  | mode mode mac now => exact .inl (accessed_fpSetSensorMode ▸ h)
  | context action userId now => exact .inl (accessed_fpCommandContext ▸ h)
  | tpmSeed structVersion seed => exact .inl (accessed_fpCommandTpmSeed ▸ h)
  | readMatchSecret fgr derived now => exact accessed_fpReadMatchSecret h
  | signMatch peerChallenge now => exact .inl (accessed_fpCommandSignMatch ▸ h)
  | loadPairingKey structVersion decryption => exact .inl (accessed_fpCommandLoadPairingKey ▸ h)
  | generateNonce nonce => exact .inl (accessed_fpCommandGenerateNonce ▸ h)
  | establishSession peerNonce tpmSeed => exact .inl (accessed_fpCommandEstablishSession ▸ h)
  | generateChallenge challenge now => exact .inl (accessed_fpCmdGenerateChallenge ▸ h)
  | frame offset size responseMax now answer => exact accessed_fpCommandFrame h
  | template paramsSize offset size data answer => exact accessed_fpCommandTemplate h
  | confirmTemplate mac now => exact .inl (accessed_fpCommandConfirmTemplate ▸ h)
  | updateConfig beginFails image => exact accessed_fpTaskUpdateConfig h
  | sensorEvent finger answer now => exact accessed_fpTaskSensorEvent h

/-! ## Runs -/

/-- An enrolment ends with a free slot, and a match is accepted for a template the matcher was given. -/
def InBounds (cfg : Config) (x : State × Label) : Prop :=
  match event cfg x.2 x.1 with
  | .enrollFailed _ | .enrolled .. => x.1.templValid < cfg.maxFingerCount
  | .matched _ (some fgr) _ => fgr < x.1.templValid
  | _ => True

instance (x : State × Label) : Decidable (InBounds cfg x) := by
  unfold InBounds
  generalize event cfg x.2 x.1 = ev
  rcases ev
  case matched templates fgr now => rcases fgr <;> infer_instance
  all_goals infer_instance

/-- A template exists: it is valid, or it waits to be confirmed. -/
def Exists (v : Slots) (idx : Nat) : Prop := idx < v.templValid ∨ idx = v.templateNewlyEnrolled

structure Bounded (cfg : Config) (v : Slots) : Prop where
  count : v.templValid ≤ cfg.maxFingerCount
  newly : v.templateNewlyEnrolled = fpNoSuchTemplate ∨ v.templateNewlyEnrolled < cfg.maxFingerCount
  readable : v.secret.readable = true → Exists v v.secret.templateMatched

theorem ne_noSuchTemplate {n : Nat} (h : n ≤ cfg.maxFingerCount) : n ≠ fpNoSuchTemplate := by
  have hcount := cfg.count_fits
  rw [fpNoSuchTemplate]
  omega

theorem increment_of_lt {n : Nat} (h : n < cfg.maxFingerCount) : increment n = n + 1 := by
  have hcount := cfg.count_fits
  rw [increment]
  omega

theorem exists_increment {v : Slots} {idx : Nat} (hroom : v.templValid < cfg.maxFingerCount) (h : Exists v idx) :
    Exists { v with templValid := increment v.templValid } idx := by
  rw [Exists, increment_of_lt hroom]
  exact h.imp Nat.lt_succ_of_lt id

theorem Bounded.next (h : Bounded cfg (slots s)) (hok : InBounds cfg (s, i)) :
    Bounded cfg ((slots s).next (event cfg i s)) := by
  obtain ⟨hcount, hnewly, hreadable⟩ := h
  have hguard := @guard_event cfg s i
  have hroom : s.templValid < cfg.maxFingerCount → increment s.templValid ≤ cfg.maxFingerCount := fun h => by
    rw [increment_of_lt h]
    exact h
  rw [InBounds] at hok
  generalize event cfg i s = e at hguard hok
  cases e with
  | quiet => exact ⟨hcount, hnewly, hreadable⟩
  | userSet userId => exact ⟨hcount, hnewly, hreadable⟩
  | disarmed => exact ⟨hcount, hnewly, fun h => Bool.noConfusion h⟩
  | reset count => exact ⟨Nat.zero_le _, .inl rfl, fun h => Bool.noConfusion h⟩
  | established => exact ⟨hcount, hnewly, hreadable⟩
  | exported fgr =>
    -- the template that is forgotten as a new one is valid
    refine ⟨hcount, ?_, fun h => ?_⟩
    · simp only [Slots.next]
      split
      · exact .inl rfl
      · exact hnewly
    · rcases hreadable h with hvalid | hmatched
      · exact .inl hvalid
      · by_cases hfgr : fgr = (slots s).templateNewlyEnrolled
        · exact .inl (by rw [Slots.next, hmatched, ← hfgr]; exact hguard.2)
        · exact .inr (by rw [Slots.next, if_neg hfgr]; exact hmatched)
  | erased => exact ⟨hcount, hnewly, hreadable⟩
  | committed templ => exact ⟨hroom hguard, hnewly, fun h => exists_increment hguard (hreadable h)⟩
  | confirmed =>
    have hlt : s.templValid < cfg.maxFingerCount := by
      have hnewly' : s.templateNewlyEnrolled = fpNoSuchTemplate ∨ s.templateNewlyEnrolled < cfg.maxFingerCount := hnewly
      rw [show s.templateNewlyEnrolled = s.templValid from hguard] at hnewly'
      exact hnewly'.resolve_left (ne_noSuchTemplate hcount)
    exact ⟨hroom hlt, hnewly, fun h => exists_increment hlt (hreadable h)⟩
  | enrollFailed left => exact ⟨hcount, hnewly, hreadable⟩
  | enrolled templ now =>
    refine ⟨?_, .inr hok, fun h => ?_⟩
    · simp only [Slots.next]
      split
      · exact hcount
      · exact hroom hok
    · refine .inr ?_
      simp only [Slots.next] at h ⊢
      split
      · rename_i hread
        rw [if_pos hread] at h
        cases h
      · rfl
  | matched templates fgr now =>
    refine ⟨hcount, hnewly, fun h => ?_⟩
    cases fgr with
    | none => cases h
    | some fgr => exact .inl hok

theorem Bounded.accessed (h : Bounded cfg (slots s)) (hok : InBounds cfg (s, i))
    (hreaches : Reaches cfg s x (event cfg i s)) : x < cfg.maxFingerCount := by
  have hguard := @guard_event cfg s i
  have hcount : s.templValid ≤ cfg.maxFingerCount := h.count
  rw [InBounds] at hok
  generalize event cfg i s = e at hguard hok hreaches
  cases e with
  | disarmed => exact hreaches
  | reset count => exact Nat.lt_of_lt_of_le hreaches hguard
  | exported fgr => exact hreaches ▸ hguard.1
  | erased => exact hreaches ▸ hguard
  | committed templ => exact hreaches ▸ hguard
  | enrollFailed left => exact hreaches ▸ hok
  | enrolled templ now => exact hreaches ▸ hok
  | matched templates fgr now => exact Nat.lt_of_lt_of_le hreaches hcount
  | _ => exact hreaches.elim

theorem bounded_boot : Bounded cfg (slots boot) := ⟨Nat.zero_le _, .inl rfl, fun h => Bool.noConfusion h⟩

/-- As long as an enrolment ends with a free slot and the matcher names a template it was
    given, the number of templates and every access keep to the arrays, and a secret is
    readable for a template that exists. -/
theorem index_safe (h : Run cfg l s) (hok : ∀ x ∈ l, InBounds cfg x) :
    s.templValid ≤ cfg.maxFingerCount ∧ (∀ idx ∈ s.accessed, idx < cfg.maxFingerCount) ∧
      (s.positiveMatchSecretState.readable = true →
        s.positiveMatchSecretState.templateMatched < s.templValid ∨
          s.positiveMatchSecretState.templateMatched = s.templateNewlyEnrolled) := by
  have hinv : Bounded cfg (slots s) ∧ ∀ idx ∈ s.accessed, idx < cfg.maxFingerCount := by
    refine h.invariant (P := fun s => Bounded cfg (slots s) ∧ ∀ idx ∈ s.accessed, idx < cfg.maxFingerCount)
      ⟨bounded_boot, fun idx hidx => absurd hidx List.not_mem_nil⟩ ?_ hok
    rintro s i s' ⟨hbounded, haccessed⟩ hin hstep
    refine ⟨slots_step hstep ▸ hbounded.next hin, fun idx hidx => ?_⟩
    obtain ⟨-, rfl⟩ := step_eq_some hstep
    exact (accessed_exec hidx).elim (haccessed idx) (hbounded.accessed hin)
  exact ⟨hinv.1.count, hinv.2, hinv.1.readable⟩

/-! ## An upload during an enrolment -/

def enrolment : List Label :=
  [.mode (fpModeEnrollSession ||| fpModeEnrollImage) none 0, .updateConfig false fun _ => 0,
    .sensorEvent .present lastImage 0]

def enrolAndMatch : List Label :=
  enrolment ++ [.mode fpModeMatch none 0, .updateConfig false fun _ => 0, .sensorEvent .present (matchedImage 0) 0]

theorem index_safe_enrolAndMatch : ∃ l s, Run emulator l s ∧ s.positiveMatchSecretState.readable = true ∧
    s.templValid ≤ emulator.maxFingerCount ∧ (∀ idx ∈ s.accessed, idx < emulator.maxFingerCount) ∧
      (s.positiveMatchSecretState.readable = true →
        s.positiveMatchSecretState.templateMatched < s.templValid ∨
          s.positiveMatchSecretState.templateMatched = s.templateNewlyEnrolled) := by
  have hrun : (Lib.Steps.trace (step emulator) enrolAndMatch ([], boot)).any fun q =>
      decide (q.2.positiveMatchSecretState.readable = true ∧ ∀ x ∈ q.1, InBounds emulator x) := by decide +kernel
  obtain ⟨l, s, run, -, hreadable, hin⟩ := Lib.Steps.exists_run hrun
  exact ⟨l, s, run, hreadable, index_safe run hin⟩

/-- The fifth template is uploaded after the mode was set. -/
def lateUpload : List Label :=
  [.tpmSeed 4 (digest 1), commit (.done counting), commit (.done counting), commit (.done counting),
    commit (.done counting), .mode (fpModeEnrollSession ||| fpModeEnrollImage) none 0, .updateConfig false fun _ => 0,
    commit (.done counting), .sensorEvent .present lastImage 0]

theorem upload_takes_last_slot : ∃ l s, Run emulator l s ∧ ¬∀ idx ∈ s.accessed, idx < emulator.maxFingerCount := by
  have hrun : (Lib.Steps.trace (step emulator) lateUpload ([], boot)).any fun q =>
      decide (¬∀ idx ∈ q.2.accessed, idx < emulator.maxFingerCount) := by decide +kernel
  obtain ⟨l, s, run, -, hdone⟩ := Lib.Steps.exists_run hrun
  exact ⟨l, s, run, hdone⟩

end ChromeEc.FpSensor
