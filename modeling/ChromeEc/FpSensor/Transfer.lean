import ChromeEc.FpSensor.IndexSafety

/- A template is read by the host, and uploaded again.

  fp_command_frame lays out metadata, template and salt in fp_enc_buffer and encrypts the
  last two in place, fp_commit_template decrypts them in place and takes them apart. Both
  sides of the transfer are cut into chunks as the host likes. The key derivation and
  AES-GCM are parameters: the key is a function of the salt, the user id and the TPM seed,
  and what was encrypted can be decrypted.

  What is proved: after the first chunk was read fp_enc_buffer holds the template and the
  salt (`contains_encryptTemplate`), a buffer with the same bytes holds them for the same
  user and seed (`Contains.congr`), and a commit stores what the buffer holds
  (`Contains.fpCommitTemplate`) or clears the slot (`fpCommitTemplate_rejected`). So every
  transfer into a table with a free slot restores the template and the salt
  (`template_transfer`). `full_table_refuses` is a transfer into a full one. -/
namespace ChromeEc.FpSensor

open ChromeEc.Lib.Memory

variable {cfg : Config} {s t : State} {fgr now : Nat}

/-! ## struct enc_buffer -/

def encNonce (s : State) : List UInt8 := read s.fpEncBuffer nonceOffset 12
def encSalt (s : State) : List UInt8 := read s.fpEncBuffer encryptionSaltOffset 16
def encTag (s : State) : List UInt8 := read s.fpEncBuffer tagOffset 16

/-- The template and the positive match salt, in the clear or encrypted. -/
def encPayload (cfg : Config) (s : State) : List UInt8 := read s.fpEncBuffer fpTemplateOffset (payloadSize cfg)

/-- The template of a finger and its salt, as they are encrypted. -/
def slotPayload (cfg : Config) (idx : Nat) (s : State) : List UInt8 :=
  read (s.fpTemplate idx) 0 cfg.templateSize ++ read (s.fpPositiveMatchSalt idx) 0 fpPositiveMatchSaltBytes

/-! ## The key derivation and AES-GCM -/

structure Crypto where
  /-- What derive_encryption_key gives for an encryption salt, a user id and a TPM seed that is set. -/
  deriveEncryptionKey : List UInt8 → Bytes 32 → Bytes 32 → Option (Bytes 16)
  /-- The ciphertext and the tag for a key, a nonce and a plaintext. -/
  aes128GcmEncrypt : Bytes 16 → List UInt8 → List UInt8 → Option (List UInt8 × List UInt8)
  /-- The plaintext for a key, a nonce, a ciphertext and a tag, if the tag is the right one. -/
  aes128GcmDecrypt : Bytes 16 → List UInt8 → List UInt8 → List UInt8 → Option (List UInt8)
  decrypt_encrypt : ∀ key nonce plaintext ciphertext tag, aes128GcmEncrypt key nonce plaintext = some (ciphertext, tag) →
    aes128GcmDecrypt key nonce ciphertext tag = some plaintext

variable {crypto : Crypto}

/-- The key for what is in fp_enc_buffer. -/
def Crypto.key (crypto : Crypto) (s : State) : Option (Bytes 16) :=
  crypto.deriveEncryptionKey (encSalt s) s.userId s.tpmSeed

def encryptionInput (cfg : Config) (fgr now : Nat) (answer : Encryption) (s : State) : State :=
  let s := { s with encryptionDeadline := now + 1 * second }
  copyPayload cfg fgr (renewSalt fgr answer.newSalt (writeMetadata answer.nonce answer.encryptionSalt s))

/-- The answer to an encryption is that of the key derivation and of AES-GCM. -/
def Crypto.Encrypts (crypto : Crypto) (cfg : Config) (fgr now : Nat) (answer : Encryption) (s : State) : Prop :=
  let s := encryptionInput cfg fgr now answer s
  match crypto.key s with
  | none => answer.key = false
  | some key =>
    answer.key = true ∧
      match crypto.aes128GcmEncrypt key (encNonce s) (encPayload cfg s) with
      | none => ∀ out, answer.aead ≠ .done out
      | some (ciphertext, tag) =>
        ∃ out, answer.aead = .done out ∧ read out 0 (payloadSize cfg) = ciphertext ∧ read answer.tag 0 16 = tag

/-- The answer to a decryption is that of the key derivation and of AES-GCM. -/
def Crypto.Decrypts (crypto : Crypto) (cfg : Config) (answer : Decryption) (s : State) : Prop :=
  match crypto.key s with
  | none => answer.key = false
  | some key =>
    answer.key = true ∧
      match crypto.aes128GcmDecrypt key (encNonce s) (encPayload cfg s) (encTag s) with
      | none => ∀ out, answer.aead ≠ .done out
      | some plaintext => ∃ out, answer.aead = .done out ∧ read out 0 (payloadSize cfg) = plaintext

/-- What fp_enc_buffer opens to, for the user and the seed. -/
def Crypto.opened (crypto : Crypto) (cfg : Config) (s : State) : Option (List UInt8) :=
  if bytesAreTrivial s.tpmSeed.toList then none
  else (crypto.key s).bind fun key => crypto.aes128GcmDecrypt key (encNonce s) (encPayload cfg s) (encTag s)

/-- fp_enc_buffer is a blob that opens to `plaintext`. -/
structure Contains (crypto : Crypto) (cfg : Config) (s : State) (plaintext : List UInt8) : Prop where
  version : validateTemplateFormat s = true
  opened : crypto.opened cfg s = some plaintext

theorem validateTemplateFormat_congr (h : ∀ a < 2, t.fpEncBuffer a = s.fpEncBuffer a) :
    validateTemplateFormat t = validateTemplateFormat s := by
  rw [validateTemplateFormat, validateTemplateFormat, structVersion, structVersion, h 0 (by decide), h 1 (by decide)]

/-- It does so wherever the same bytes are, for the same user and the same seed. -/
theorem Contains.congr {plaintext : List UInt8} (h : Contains crypto cfg s plaintext)
    (hbuffer : ∀ a < encBufferSize cfg, t.fpEncBuffer a = s.fpEncBuffer a) (huser : t.userId = s.userId)
    (hseed : t.tpmSeed = s.tpmSeed) : Contains crypto cfg t plaintext := by
  have hpart : ∀ p n, p + n ≤ encBufferSize cfg → read t.fpEncBuffer p n = read s.fpEncBuffer p n :=
    fun p n hin => read_congr fun a _ hhi => hbuffer a (by omega)
  have hmetadata : 48 ≤ encBufferSize cfg := Nat.le_add_right _ _
  have hnonce : encNonce t = encNonce s := hpart 4 12 (by omega)
  have hsalt : encSalt t = encSalt s := hpart 16 16 (by omega)
  have htag : encTag t = encTag s := hpart 32 16 (by omega)
  have hpayload : encPayload cfg t = encPayload cfg s := hpart fpTemplateOffset (payloadSize cfg) le_rfl
  constructor
  · rw [validateTemplateFormat_congr fun a ha => hbuffer a (by omega)]
    exact h.version
  · rw [← h.opened, Crypto.opened, Crypto.opened, Crypto.key, Crypto.key, hnonce, hsalt, htag, hpayload, huser, hseed]

/-! ## The first chunk is read -/

variable {answer : Encryption}

theorem encPayload_copyPayload : encPayload cfg (copyPayload cfg fgr s) = slotPayload cfg fgr s := by
  change read (copy (copy s.fpEncBuffer fpTemplateOffset cfg.templateSize (s.fpTemplate fgr))
    (fpTemplateOffset + cfg.templateSize) fpPositiveMatchSaltBytes (s.fpPositiveMatchSalt fgr)) fpTemplateOffset
      (cfg.templateSize + fpPositiveMatchSaltBytes) = slotPayload cfg fgr s
  rw [slotPayload, read_add, read_copy_self, read_copy_of_disjoint (.inl le_rfl), read_copy_self]

theorem validateTemplateFormat_encryptionInput :
    validateTemplateFormat (encryptionInput cfg fgr now answer s) = true := by
  have hsalt : ∀ u, (renewSalt fgr answer.newSalt u).fpEncBuffer = u.fpEncBuffer := by
    intro u
    rw [renewSalt]
    split <;> rfl
  have hmetadata : validateTemplateFormat (writeMetadata answer.nonce answer.encryptionSalt s) = true := rfl
  rw [← hmetadata]
  apply validateTemplateFormat_congr
  intro a ha
  have hin : a < fpTemplateOffset := lt_trans ha (by decide)
  change copy (copy (renewSalt fgr answer.newSalt _).fpEncBuffer fpTemplateOffset _ _) (fpTemplateOffset + _) _ _ a = _
  rw [copy_of_lt (by omega), copy_of_lt hin, hsalt]
  rfl

def encryptionOutput (cfg : Config) (out tag : Buffer) (s : State) : State :=
  (s.putPublic fpTemplateOffset (payloadSize cfg) out).putPublic tagOffset 16 tag

theorem encryptTemplate_success (h : (encryptTemplate cfg fgr now answer s).2 = .success) :
    bytesAreTrivial (encryptionInput cfg fgr now answer s).tpmSeed.toList = false ∧ answer.key = true ∧
      ∃ out, answer.aead = .done out ∧ (encryptTemplate cfg fgr now answer s).1 =
        clearDirty fgr (encryptionOutput cfg out answer.tag (encryptionInput cfg fgr now answer s)) := by
  simp only [encryptTemplate] at h ⊢
  split at h
  · cases h
  · rename_i hdeadline
    rw [if_neg hdeadline]
    split at h
    · cases h
    · rename_i hkey
      rw [if_neg hkey]
      simp only [Bool.or_eq_true, Bool.not_eq_true', not_or, Bool.not_eq_true, Bool.not_eq_false] at hkey
      refine ⟨hkey.1, hkey.2, ?_⟩
      cases haead : answer.aead with
      | noContext =>
        rw [haead] at h
        cases h
      | failed left =>
        rw [haead] at h
        cases h
      | done out => exact ⟨out, rfl, rfl⟩

theorem contains_encryptionOutput {key : Bytes 16} {out tag : Buffer} (hversion : validateTemplateFormat s = true)
    (hseed : bytesAreTrivial s.tpmSeed.toList = false) (hkey : crypto.key s = some key)
    (hencrypt : crypto.aes128GcmEncrypt key (encNonce s) (encPayload cfg s) =
      some (read out 0 (payloadSize cfg), read tag 0 16)) :
    Contains crypto cfg (encryptionOutput cfg out tag s) (encPayload cfg s) := by
  have hbelow : ∀ a < tagOffset, (encryptionOutput cfg out tag s).fpEncBuffer a = s.fpEncBuffer a := by
    intro a ha
    have htempl : a < fpTemplateOffset := lt_trans ha (by decide)
    exact (copy_of_lt ha).trans (copy_of_lt htempl)
  have hnonce : encNonce (encryptionOutput cfg out tag s) = encNonce s :=
    read_congr fun a _ hhi => hbelow a (lt_trans hhi (by decide))
  have hsalt : encSalt (encryptionOutput cfg out tag s) = encSalt s :=
    read_congr fun a _ hhi => hbelow a hhi
  have htag : encTag (encryptionOutput cfg out tag s) = read tag 0 16 := read_copy_self
  have hpayload : encPayload cfg (encryptionOutput cfg out tag s) = read out 0 (payloadSize cfg) :=
    (read_copy_of_disjoint (.inr le_rfl)).trans read_copy_self
  have hsame : crypto.key (encryptionOutput cfg out tag s) = some key := by
    rw [← hkey, Crypto.key, Crypto.key, hsalt]
    rfl
  constructor
  · rw [validateTemplateFormat_congr fun a ha => hbelow a (lt_trans ha (by decide))]
    exact hversion
  · have hopen := crypto.decrypt_encrypt _ _ _ _ _ hencrypt
    have hopenSeed : bytesAreTrivial (encryptionOutput cfg out tag s).tpmSeed.toList = false := hseed
    rw [Crypto.opened, hopenSeed, hsame, hnonce, hpayload, htag]
    exact hopen

theorem Contains.clearDirty {plaintext : List UInt8} (h : Contains crypto cfg s plaintext) :
    Contains crypto cfg (clearDirty fgr s) plaintext :=
  h.congr (fun _ _ => rfl) rfl rfl

theorem slotPayload_clearDirty {out tag : Buffer} :
    slotPayload cfg fgr (clearDirty fgr (encryptionOutput cfg out tag s)) = slotPayload cfg fgr s :=
  rfl

theorem Crypto.Encrypts.done {out : Buffer} (h : crypto.Encrypts cfg fgr now answer s) (hkey : answer.key = true)
    (haead : answer.aead = .done out) : ∃ key, crypto.key (encryptionInput cfg fgr now answer s) = some key ∧
      crypto.aes128GcmEncrypt key (encNonce (encryptionInput cfg fgr now answer s))
        (encPayload cfg (encryptionInput cfg fgr now answer s)) =
          some (read out 0 (payloadSize cfg), read answer.tag 0 16) := by
  simp only [Crypto.Encrypts, hkey, haead] at h
  split at h
  · cases h
  · rename_i key hsome
    refine ⟨key, hsome, ?_⟩
    obtain ⟨-, hresult⟩ := h
    split at hresult
    · exact absurd rfl (hresult out)
    · rename_i ciphertext tag hsealed
      obtain ⟨out', hout, rfl, rfl⟩ := hresult
      cases hout
      exact hsealed

/-- After the first chunk was read fp_enc_buffer holds the template and the salt. -/
theorem contains_encryptTemplate (hencrypts : crypto.Encrypts cfg fgr now answer s)
    (h : (encryptTemplate cfg fgr now answer s).2 = .success) :
    Contains crypto cfg (encryptTemplate cfg fgr now answer s).1
      (slotPayload cfg fgr (encryptTemplate cfg fgr now answer s).1) := by
  obtain ⟨hseed, hanswer, out, haead, hstate⟩ := encryptTemplate_success h
  obtain ⟨key, hkey, hencrypt⟩ := hencrypts.done hanswer haead
  have hcontains := contains_encryptionOutput validateTemplateFormat_encryptionInput hseed hkey hencrypt
  have hpayload : encPayload cfg (encryptionInput cfg fgr now answer s) =
      slotPayload cfg fgr (encryptionInput cfg fgr now answer s) := encPayload_copyPayload
  rw [hstate, slotPayload_clearDirty, ← hpayload]
  exact hcontains.clearDirty

/-! ## The last chunk is committed -/

variable {decryption : Decryption} {plaintext : List UInt8}

theorem saltInBuffer_eq : saltInBuffer cfg s = (encPayload cfg s).drop cfg.templateSize := by
  rw [encPayload, payloadSize, read_add, List.drop_left' length_read]
  rfl

/-- The slot at templ_valid is filled with what is in the buffer. -/
theorem storeTemplate_stores (hsalt : bytesAreTrivial (saltInBuffer cfg s) = false) :
    (storeTemplate cfg s).2 = { rv := .success } ∧
      slotPayload cfg s.templValid (storeTemplate cfg s).1 = encPayload cfg s ∧
      (storeTemplate cfg s).1.templValid = increment s.templValid := by
  have hsame : ∀ templ, saltInBuffer cfg (s.setTemplate s.templValid templ) = saltInBuffer cfg s := fun _ => rfl
  rw [storeTemplate]
  simp only [hsame, hsalt, Bool.false_eq_true, if_false]
  refine ⟨trivial, ?_, rfl⟩
  rw [slotPayload, encPayload, payloadSize, read_add]
  congr 1
  · simp only [State.setSalt, State.setTemplate, State.access, Function.update_self]
    rw [read_copy_self, read_shift]
    rfl
  · simp only [State.setSalt, State.setTemplate, State.access, Function.update_self]
    rw [read_copy_self, read_shift]
    rfl

/-- templ_valid is as it was and its slot is empty. -/
structure Erased (s t : State) : Prop where
  templValid : t.templValid = s.templValid
  templ : t.fpTemplate s.templValid = fun _ => 0
  salt : t.fpPositiveMatchSalt s.templValid = fun _ => 0

theorem erased_fpClearFingerContext : Erased s (fpClearFingerContext s.templValid s) :=
  ⟨rfl, Function.update_self .., Function.update_self ..⟩

theorem storeTemplate_erases (herased : Erased s t) (hsalt : bytesAreTrivial (saltInBuffer cfg t) = true) :
    (storeTemplate cfg t).2 = { rv := .resInvalidParam } ∧ Erased s (storeTemplate cfg t).1 := by
  have hsame : ∀ templ, saltInBuffer cfg (t.setTemplate t.templValid templ) = saltInBuffer cfg t := fun _ => rfl
  rw [storeTemplate]
  simp only [hsame, hsalt, if_true]
  refine ⟨trivial, herased.templValid, ?_, herased.salt⟩
  rw [← herased.templValid]
  exact Function.update_self ..

theorem Crypto.Decrypts.done (h : crypto.Decrypts cfg decryption s) (hopened : crypto.opened cfg s = some plaintext) :
    bytesAreTrivial s.tpmSeed.toList = false ∧ decryption.key = true ∧
      ∃ out, decryption.aead = .done out ∧ read out 0 (payloadSize cfg) = plaintext := by
  rw [Crypto.opened] at hopened
  rw [Crypto.Decrypts] at h
  split at hopened
  · cases hopened
  · rename_i hseed
    obtain ⟨key, hkey, hplaintext⟩ := Option.bind_eq_some_iff.mp hopened
    rw [hkey] at h
    simp only [hplaintext] at h
    exact ⟨Bool.eq_false_iff.mpr hseed, h⟩

theorem Crypto.Decrypts.fails (h : crypto.Decrypts cfg decryption s) (hopened : crypto.opened cfg s = none) :
    bytesAreTrivial s.tpmSeed.toList = true ∨ decryption.key = false ∨ ∀ out, decryption.aead ≠ .done out := by
  rw [Crypto.opened] at hopened
  rw [Crypto.Decrypts] at h
  split at hopened
  · rename_i hseed
    exact .inl hseed
  · cases hkey : crypto.key s with
    | none =>
      rw [hkey] at h
      exact .inr (.inl h)
    | some key =>
      rw [hkey] at h hopened
      obtain ⟨-, hresult⟩ := h
      rw [Option.bind_some] at hopened
      rw [hopened] at hresult
      exact .inr (.inr hresult)

/-- With the right version the buffer is decrypted, and only then is anything stored. -/
theorem fpCommitTemplate_decrypted {rv : Rv} (hversion : validateTemplateFormat s = true)
    (h : decryptTemplate cfg decryption (fpClearFingerContext s.templValid s) = (t, rv)) :
    fpCommitTemplate cfg decryption s = if rv = .success then storeTemplate cfg t else (t, { rv := rv }) := by
  have hsame : validateTemplateFormat (fpClearFingerContext s.templValid s) = true := hversion
  simp only [fpCommitTemplate, hsame, Bool.not_true, Bool.false_eq_true, if_false]
  rw [h]
  cases rv <;> rfl

theorem decryptTemplate_done {out : Buffer} (hseed : bytesAreTrivial s.tpmSeed.toList = false)
    (hkey : decryption.key = true) (haead : decryption.aead = .done out) :
    decryptTemplate cfg decryption s = (s.putPlain fpTemplateOffset (payloadSize cfg) out, .success) := by
  simp only [decryptTemplate, hseed, hkey, haead, Bool.not_true, Bool.or_self, Bool.false_eq_true, if_false]

/-- The slot is empty, also where the decryption has left something in the buffer. -/
theorem decryptTemplate_fails (h : bytesAreTrivial t.tpmSeed.toList = true ∨ decryption.key = false ∨
    ∀ out, decryption.aead ≠ .done out) (herased : Erased s t) :
    ∃ u, decryptTemplate cfg decryption t = (u, .resUnavailable) ∧ Erased s u := by
  have hagain : ∀ u : State, u.templValid = t.templValid → Erased s (fpClearFingerContext u.templValid u) := by
    intro u hu
    rw [hu, herased.templValid]
    exact ⟨hu.trans herased.templValid, Function.update_self .., Function.update_self ..⟩
  rw [decryptTemplate]
  split
  · exact ⟨t, rfl, herased⟩
  · rename_i hkey
    cases haead : decryption.aead with
    | noContext => exact ⟨_, rfl, hagain t rfl⟩
    | failed left => exact ⟨_, rfl, hagain (t.putPublic fpTemplateOffset (payloadSize cfg) left) rfl⟩
    | done out =>
      simp only [Bool.or_eq_true, Bool.not_eq_true', not_or, Bool.not_eq_true, Bool.not_eq_false] at hkey
      simp [hkey, haead] at h

/-- A blob that opens is decrypted, and then its salt is looked at. -/
theorem fpCommitTemplate_opened (hversion : validateTemplateFormat s = true)
    (hopened : crypto.opened cfg s = some plaintext) (h : crypto.Decrypts cfg decryption s) :
    ∃ t, fpCommitTemplate cfg decryption s = storeTemplate cfg t ∧ Erased s t ∧ encPayload cfg t = plaintext := by
  obtain ⟨hseed, hkey, out, haead, rfl⟩ := h.done hopened
  have hdone := @decryptTemplate_done cfg (fpClearFingerContext s.templValid s) decryption out hseed hkey haead
  have herased := @erased_fpClearFingerContext s
  exact ⟨_, fpCommitTemplate_decrypted hversion hdone, ⟨herased.templValid, herased.templ, herased.salt⟩, read_copy_self⟩

theorem Contains.fpCommitTemplate (h : Contains crypto cfg s plaintext) (hdecrypts : crypto.Decrypts cfg decryption s)
    (hsalt : bytesAreTrivial (plaintext.drop cfg.templateSize) = false) :
    (fpCommitTemplate cfg decryption s).2 = { rv := .success } ∧
      slotPayload cfg s.templValid (FpSensor.fpCommitTemplate cfg decryption s).1 = plaintext ∧
        (FpSensor.fpCommitTemplate cfg decryption s).1.templValid = increment s.templValid := by
  obtain ⟨t, hcommit, herased, rfl⟩ := fpCommitTemplate_opened h.version h.opened hdecrypts
  rw [hcommit, ← herased.templValid]
  exact storeTemplate_stores (saltInBuffer_eq ▸ hsalt)

/-- What a commit refuses. -/
inductive Rejected (crypto : Crypto) (cfg : Config) (s : State) : Prop
  | version (h : structVersion s ≠ fpTemplateFormatVersion.toNat)
  | closed (h : crypto.opened cfg s = none)
  | trivialSalt (plaintext : List UInt8) (h : crypto.opened cfg s = some plaintext)
    (hsalt : bytesAreTrivial (plaintext.drop cfg.templateSize) = true)

theorem fpCommitTemplate_rejected (h : Rejected crypto cfg s) (hdecrypts : crypto.Decrypts cfg decryption s) :
    (fpCommitTemplate cfg decryption s).2.rv ≠ .success ∧ Erased s (fpCommitTemplate cfg decryption s).1 := by
  cases hversion : validateTemplateFormat s with
  | false =>
    have hsame : validateTemplateFormat (fpClearFingerContext s.templValid s) = false := hversion
    simp only [fpCommitTemplate, hsame, Bool.not_false, if_true]
    exact ⟨(fun h => by cases h), erased_fpClearFingerContext⟩
  | true =>
    cases h with
    | version h => exact absurd (eq_of_beq hversion) h
    | closed h =>
      obtain ⟨t, hdecrypt, herased⟩ := @decryptTemplate_fails cfg s (fpClearFingerContext s.templValid s) decryption
        (hdecrypts.fails h) erased_fpClearFingerContext
      rw [fpCommitTemplate_decrypted hversion hdecrypt]
      exact ⟨(fun h => by cases h), herased⟩
    | trivialSalt plaintext h hsalt =>
      obtain ⟨t, hcommit, herased, rfl⟩ := fpCommitTemplate_opened hversion h hdecrypts
      rw [← saltInBuffer_eq] at hsalt
      obtain ⟨hresponse, herased'⟩ := storeTemplate_erases herased hsalt
      rw [hcommit, hresponse]
      exact ⟨(fun h => by cases h), herased'⟩

/-! ## Chunks -/

/-- A part of a blob, with the place where it starts. -/
abbrev Chunk := Nat × List UInt8

/-- A step that leaves fp_enc_buffer as it is. -/
def LeavesBuffer (cfg : Config) (x : State × Label) : Prop := (exec cfg x.2 x.1).1.fpEncBuffer = x.1.fpEncBuffer

/-- A step that gives the host a chunk of the template of `fgr`. -/
def Gives (cfg : Config) (fgr : Nat) (c : Chunk) (x : State × Label) : Prop :=
  ∃ offset size responseMax now answer, x.2 = .frame offset size responseMax now answer ∧
    offset.toNat = (fgr + 1) * 2 ^ 28 + c.1 ∧ c.1 < 2 ^ 28 ∧
      (exec cfg x.2 x.1).2 = { rv := .success, payload := .bytes c.2 }

/-- A well-formed upload of a chunk without FP_TEMPLATE_COMMIT. -/
def Sends (c : Chunk) (i : Label) : Prop :=
  ∃ offset size data answer, i = .template (size.toNat + 8) offset size data answer ∧ size.toNat < 2 ^ 31 ∧
    c = (offset.toNat, read data 0 size.toNat)

variable {offset size : UInt32} {responseMax : Nat} {c : Chunk} {x : State × Label} {i : Label} {blob : Buffer}

theorem validateFpBufferOffset_eq_success {bufferSize offset size : Nat} :
    validateFpBufferOffset bufferSize offset size = .success ↔ size + offset < 2 ^ 32 ∧ size + offset ≤ bufferSize := by
  rw [validateFpBufferOffset]
  split
  · simp only [reduceCtorEq, false_iff]
    omega
  · split
    · simp only [reduceCtorEq, false_iff]
      omega
    · simp only [true_iff]
      omega

theorem fpCommandFrame_success (hidx : offset.toNat / 2 ^ 28 = fgr + 1)
    (h : (fpCommandFrame cfg offset size responseMax now answer s).2.rv = .success) :
    offset.toNat % 2 ^ 28 + size.toNat < 2 ^ 32 ∧
      (fpCommandFrame cfg offset size responseMax now answer s).2.payload =
        .bytes (read (fpCommandFrame cfg offset size responseMax now answer s).1.fpEncBuffer (offset.toNat % 2 ^ 28)
          size.toNat) ∧
      (offset.toNat % 2 ^ 28 = 0 →
        encryptTemplate cfg fgr now answer s =
          ((fpCommandFrame cfg offset size responseMax now answer s).1, .success)) := by
  simp only [fpCommandFrame, hidx, Nat.add_sub_cancel, Nat.add_one_ne_zero, if_false] at h ⊢
  split at h
  · cases h
  · rename_i hmax
    rw [if_neg hmax]
    split at h
    · cases h
    · rename_i hcount
      rw [if_neg hcount]
      split at h
      · cases h
      · rename_i hvalid
        rw [if_neg hvalid]
        split at h
        · cases h
        · rename_i hfits
          rw [if_neg hfits]
          have hsum := (validateFpBufferOffset_eq_success.mp (not_not.mp hfits)).1
          refine ⟨by omega, ?_⟩
          -- only the first chunk encrypts
          by_cases hzero : offset.toNat % 2 ^ 28 = 0
          · rw [if_pos hzero] at h ⊢
            generalize encryptTemplate cfg fgr now answer s = r at h ⊢
            obtain ⟨t, rv⟩ := r
            cases rv with
            | success => exact ⟨rfl, fun _ => rfl⟩
            | _ => cases h
          · rw [if_neg hzero]
            exact ⟨rfl, fun h => absurd h hzero⟩

theorem fpCommandFrame_later (h : offset.toNat % 2 ^ 28 ≠ 0) :
    (fpCommandFrame cfg offset size responseMax now answer s).1 = s := by
  rcases @fpCommandFrame_cases cfg s now offset size responseMax answer with ⟨-, hstate⟩ | ⟨-, -, hstate⟩ | ⟨-, hzero, -⟩
  · exact hstate
  · rw [hstate]
  · exact absurd hzero h

theorem Gives.holds (h : Gives cfg fgr c x) :
    Holds (exec cfg x.2 x.1).1.fpEncBuffer c.1 c.2 ∧ c.1 + c.2.length < 2 ^ 32 := by
  obtain ⟨offset, size, responseMax, now, answer, hlabel, hoffset, hbound, hresponse⟩ := h
  have hidx : offset.toNat / 2 ^ 28 = fgr + 1 := by omega
  have hplace : offset.toNat % 2 ^ 28 = c.1 := by omega
  rw [hlabel, exec] at hresponse ⊢
  have hrv : (fpCommandFrame cfg offset size responseMax now answer x.1).2.rv = .success := by rw [hresponse]
  obtain ⟨hsum, hpayload, -⟩ := fpCommandFrame_success hidx hrv
  rw [hresponse, hplace] at hpayload
  have hbytes := Payload.bytes.inj hpayload
  have hlength : c.2.length = size.toNat := by rw [hbytes, length_read]
  rw [hplace] at hsum
  rw [← hlength] at hbytes hsum
  exact ⟨read_eq_iff.mp hbytes.symm, hsum⟩

theorem uploads_of_fits {paramsSize : Nat} (hroom : s.templValid < cfg.maxFingerCount)
    (hparams : paramsSize = size.toNat % 2 ^ 31 + 8) (hfits : offset.toNat + size.toNat % 2 ^ 31 ≤ encBufferSize cfg)
    (hsize : encBufferSize cfg < 2 ^ 32) : Uploads cfg paramsSize offset size s := by
  refine ⟨hroom, hparams, validateFpBufferOffset_eq_success.mpr ?_⟩
  omega

/-- A chunk that fits is accepted while there is room for a template. -/
theorem Sends.accepted (h : Sends c i) (hroom : s.templValid < cfg.maxFingerCount)
    (hfits : c.1 + c.2.length ≤ encBufferSize cfg) (hsize : encBufferSize cfg < 2 ^ 32) :
    ∃ data, exec cfg i s = (s.putPublic c.1 c.2.length data, { rv := .success }) ∧ read data 0 c.2.length = c.2 := by
  obtain ⟨offset, size, data, answer, rfl, hcommit, rfl⟩ := h
  rw [length_read] at hfits ⊢
  have hmod : size.toNat % 2 ^ 31 = size.toNat := Nat.mod_eq_of_lt hcommit
  have huploads : Uploads cfg (size.toNat + 8) offset size s :=
    uploads_of_fits hroom (by rw [hmod]) (by rw [hmod]; exact hfits) hsize
  refine ⟨data, ?_, rfl⟩
  rw [exec]
  rcases @fpCommandTemplate_cases cfg s offset size (size.toNat + 8) data answer with
    ⟨hnot, -⟩ | ⟨-, -, hstate⟩ | ⟨-, hlarge, -⟩
  · exact absurd huploads hnot
  · rw [hstate, hmod]
  · exact absurd hcommit (Nat.not_lt_of_le hlarge)

theorem Sends.agrees (h : Sends c i) (hroom : s.templValid < cfg.maxFingerCount)
    (hfits : c.1 + c.2.length ≤ encBufferSize cfg) (hsize : encBufferSize cfg < 2 ^ 32) (hblob : Holds blob c.1 c.2)
    {a : Nat} (ha : (c.1 ≤ a ∧ a < c.1 + c.2.length) ∨ s.fpEncBuffer a = blob a) :
    (exec cfg i s).1.fpEncBuffer a = blob a := by
  obtain ⟨data, hstate, hdata⟩ := h.accepted hroom hfits hsize
  rw [hstate]
  rw [← hdata] at hblob
  change copy s.fpEncBuffer c.1 c.2.length data a = blob a
  rw [hblob.copy_eq]
  split
  · rfl
  · rename_i hout
    exact ha.resolve_left hout

/-! ## Whole transfers -/

/-- The host reads a template: the first chunk, and further chunks while fp_enc_buffer stays as it is. -/
structure Export (crypto : Crypto) (cfg : Config) where
  fgr : Nat
  /-- The state when the first chunk is asked for. -/
  before : State
  offset : UInt32
  size : UInt32
  responseMax : Nat
  now : Nat
  answer : Encryption
  first : offset.toNat = (fgr + 1) * 2 ^ 28
  encrypts : crypto.Encrypts cfg fgr now answer before
  succeeds : (fpCommandFrame cfg offset size responseMax now answer before).2.rv = .success
  steps : List (State × Label)
  after : State
  run : Lib.Steps.Run (step cfg) (fpCommandFrame cfg offset size responseMax now answer before).1 steps after
  leaves : ∀ x ∈ steps, LeavesBuffer cfg x
  blob : Buffer
  chunks : List Chunk
  given : ∀ c ∈ chunks, ∃ x ∈ (before, .frame offset size responseMax now answer) :: steps, Gives cfg fgr c x
  splits : Splits blob (encBufferSize cfg) chunks

def Export.exported (e : Export crypto cfg) : State :=
  (fpCommandFrame cfg e.offset e.size e.responseMax e.now e.answer e.before).1

/-- A blob is uploaded: chunks between steps that leave fp_enc_buffer as it is, and one with FP_TEMPLATE_COMMIT. -/
structure Import (crypto : Crypto) (cfg : Config) (blob : Buffer) where
  start : State
  steps : List (State × Label)
  /-- The state when the last chunk comes. -/
  before : State
  run : Lib.Steps.Run (step cfg) start steps before
  chunks : List Chunk
  sent : ∀ c ∈ chunks, ∃ x ∈ steps, Sends c x.2
  others : ∀ x ∈ steps, (∃ c ∈ chunks, Sends c x.2) ∨ LeavesBuffer cfg x
  offset : UInt32
  size : UInt32
  data : Buffer
  answer : Decryption
  commits : 2 ^ 31 ≤ size.toNat
  decrypts : crypto.Decrypts cfg answer (before.putPublic offset.toNat (size.toNat % 2 ^ 31) data)
  splits : Splits blob (encBufferSize cfg) ((offset.toNat, read data 0 (size.toNat % 2 ^ 31)) :: chunks)

/-- The state after the last chunk, and the response to it. -/
def Import.committed (i : Import crypto cfg blob) : State × Response :=
  fpCommandTemplate cfg (i.size.toNat % 2 ^ 31 + 8) i.offset i.size i.data i.answer i.before

/-- There is a free slot whenever a chunk comes. -/
structure Import.Room (i : Import crypto cfg blob) : Prop where
  chunks : ∀ x ∈ i.steps, ∀ c ∈ i.chunks, Sends c x.2 → x.1.templValid < cfg.maxFingerCount
  last : i.before.templValid < cfg.maxFingerCount

/-- Every chunk is accepted, and the template and the salt are stored as they were exported. -/
structure Restores (e : Export crypto cfg) (i : Import crypto cfg e.blob) : Prop where
  accepts : ∀ x ∈ i.steps, ∀ c ∈ i.chunks, Sends c x.2 → (exec cfg x.2 x.1).2 = { rv := .success }
  succeeds : i.committed.2 = { rv := .success }
  templ : read (i.committed.1.fpTemplate i.before.templValid) 0 cfg.templateSize =
    read (e.exported.fpTemplate e.fgr) 0 cfg.templateSize
  salt : read (i.committed.1.fpPositiveMatchSalt i.before.templValid) 0 fpPositiveMatchSaltBytes =
    read (e.exported.fpPositiveMatchSalt e.fgr) 0 fpPositiveMatchSaltBytes
  templValid : i.committed.1.templValid = i.before.templValid + 1

theorem uploaded {start : State} {steps : List (State × Label)} {chunks : List Chunk}
    (run : Lib.Steps.Run (step cfg) start steps s)
    (hothers : ∀ x ∈ steps, (∃ c ∈ chunks, Sends c x.2) ∨ LeavesBuffer cfg x)
    (hroom : ∀ x ∈ steps, ∀ c ∈ chunks, Sends c x.2 → x.1.templValid < cfg.maxFingerCount)
    (hfits : ∀ c ∈ chunks, c.1 + c.2.length ≤ encBufferSize cfg) (hsize : encBufferSize cfg < 2 ^ 32)
    (hblob : ∀ c ∈ chunks, Holds blob c.1 c.2) {a : Nat} (hc : c ∈ chunks) (hsent : ∃ x ∈ steps, Sends c x.2)
    (ha : c.1 ≤ a ∧ a < c.1 + c.2.length) : s.fpEncBuffer a = blob a := by
  induction run with
  | start =>
    obtain ⟨x, hx, -⟩ := hsent
    cases hx
  | @step l s s' i run hstep ih =>
    have hbefore := ih (fun x hx => hothers x (List.mem_append_left _ hx))
      (fun x hx => hroom x (List.mem_append_left _ hx))
    have hlast : (s, i) ∈ l ++ [(s, i)] := List.mem_append_right _ (List.mem_singleton_self _)
    obtain ⟨-, rfl⟩ := step_eq_some hstep
    obtain ⟨x, hx, hsends⟩ := hsent
    rcases List.mem_append.mp hx with hin | hin
    -- the byte is there already, and the last step brings the same byte or none
    · rcases hothers _ hlast with ⟨c', hc', hsends'⟩ | hleaves
      · exact hsends'.agrees (hroom _ hlast c' hc' hsends') (hfits c' hc') hsize (hblob c' hc')
          (.inr (hbefore ⟨x, hin, hsends⟩))
      · rw [LeavesBuffer] at hleaves
        rw [hleaves]
        exact hbefore ⟨x, hin, hsends⟩
    -- the last step brings it
    · obtain rfl := List.mem_singleton.mp hin
      exact hsends.agrees (hroom _ hlast c hc hsends) (hfits c hc) hsize (hblob c hc) (.inl ha)

theorem buffer_kept {start : State} {steps : List (State × Label)} (run : Lib.Steps.Run (step cfg) start steps s)
    (hleaves : ∀ x ∈ steps, LeavesBuffer cfg x) :
    s.fpEncBuffer = start.fpEncBuffer ∧ ∀ x ∈ steps, x.1.fpEncBuffer = start.fpEncBuffer := by
  induction run with
  | start => exact ⟨rfl, fun x hx => absurd hx List.not_mem_nil⟩
  | @step l s s' i run hstep ih =>
    obtain ⟨hstate, hsteps⟩ := ih fun x hx => hleaves x (List.mem_append_left _ hx)
    have hlast : LeavesBuffer cfg (s, i) := hleaves _ (List.mem_append_right _ (List.mem_singleton_self _))
    obtain ⟨-, rfl⟩ := step_eq_some hstep
    exact ⟨hlast.trans hstate, List.forall_mem_append.mpr ⟨hsteps, List.forall_mem_singleton.mpr hstate⟩⟩

theorem Export.blob_eq (e : Export crypto cfg) : ∀ a < encBufferSize cfg, e.exported.fpEncBuffer a = e.blob a := by
  apply e.splits.agrees
  intro c hc
  obtain ⟨x, hx, hgives⟩ := e.given c hc
  have hholds := hgives.holds.1
  rcases List.mem_cons.mp hx with rfl | hin
  · exact hholds
  · have hleaves : (exec cfg x.2 x.1).1.fpEncBuffer = x.1.fpEncBuffer := e.leaves x hin
    rw [hleaves, (buffer_kept e.run e.leaves).2 x hin] at hholds
    exact hholds

theorem Export.size_lt (e : Export crypto cfg) : encBufferSize cfg < 2 ^ 32 := by
  have hpos : 48 ≤ encBufferSize cfg := Nat.le_add_right _ _
  obtain ⟨c, hc, -, hlast⟩ := e.splits.covers (encBufferSize cfg - 1) (by omega)
  obtain ⟨x, -, hgives⟩ := e.given c hc
  have hbound := hgives.holds.2
  omega

theorem Export.contains (e : Export crypto cfg) :
    Contains crypto cfg e.exported (slotPayload cfg e.fgr e.exported) := by
  have hidx : e.offset.toNat / 2 ^ 28 = e.fgr + 1 := by
    have hfirst := e.first
    omega
  have hzero : e.offset.toNat % 2 ^ 28 = 0 := by
    have hfirst := e.first
    omega
  have hencrypt := (fpCommandFrame_success hidx e.succeeds).2.2 hzero
  have hcontains := contains_encryptTemplate e.encrypts (by rw [hencrypt])
  rw [hencrypt] at hcontains
  exact hcontains

/-- With the last chunk copied the whole blob is in fp_enc_buffer. -/
theorem Import.uploaded (i : Import crypto cfg blob) (hroom : i.Room) (hsize : encBufferSize cfg < 2 ^ 32) :
    ∀ a < encBufferSize cfg,
      (i.before.putPublic i.offset.toNat (i.size.toNat % 2 ^ 31) i.data).fpEncBuffer a = blob a := by
  intro a ha
  have hlast := i.splits.holds _ List.mem_cons_self
  change copy i.before.fpEncBuffer i.offset.toNat (i.size.toNat % 2 ^ 31) i.data a = blob a
  rw [hlast.copy_eq]
  split
  · rfl
  · rename_i hout
    obtain ⟨c, hc, hcovers⟩ := i.splits.covers a ha
    rcases List.mem_cons.mp hc with rfl | hin
    · rw [length_read] at hcovers
      exact absurd hcovers hout
    · exact FpSensor.uploaded i.run i.others hroom.chunks (fun c hc => i.splits.inside c (List.mem_cons_of_mem _ hc)) hsize
        (fun c hc => i.splits.holds c (List.mem_cons_of_mem _ hc)) hin (i.sent c hin) hcovers

theorem Import.committed_eq (i : Import crypto cfg blob) (hroom : i.Room) (hsize : encBufferSize cfg < 2 ^ 32) :
    i.committed =
      fpCommitTemplate cfg i.answer (i.before.putPublic i.offset.toNat (i.size.toNat % 2 ^ 31) i.data) := by
  have hfits := i.splits.inside _ List.mem_cons_self
  rw [length_read] at hfits
  have huploads : Uploads cfg (i.size.toNat % 2 ^ 31 + 8) i.offset i.size i.before :=
    uploads_of_fits hroom.last rfl hfits hsize
  rcases @fpCommandTemplate_cases cfg i.before i.offset i.size (i.size.toNat % 2 ^ 31 + 8) i.data i.answer with
    ⟨hnot, -⟩ | ⟨-, hsmall, -⟩ | ⟨-, -, hstate⟩
  · exact absurd huploads hnot
  · exact absurd i.commits hsmall
  · exact hstate

/-- A template that was exported and a salt that is not trivial come back from the blob. -/
theorem Export.restores (e : Export crypto cfg) (i : Import crypto cfg e.blob) (hroom : i.Room)
    (huser : i.before.userId = e.exported.userId) (hseed : i.before.tpmSeed = e.exported.tpmSeed)
    (hsalt : bytesAreTrivial (read (e.exported.fpPositiveMatchSalt e.fgr) 0 fpPositiveMatchSaltBytes) = false) :
    Restores e i := by
  have hbuffer : ∀ a < encBufferSize cfg,
      (i.before.putPublic i.offset.toNat (i.size.toNat % 2 ^ 31) i.data).fpEncBuffer a = e.exported.fpEncBuffer a :=
    fun a ha => (i.uploaded hroom e.size_lt a ha).trans (e.blob_eq a ha).symm
  have hcontains := e.contains.congr hbuffer huser hseed
  have hgood : bytesAreTrivial ((slotPayload cfg e.fgr e.exported).drop cfg.templateSize) = false := by
    rw [slotPayload, List.drop_left' length_read]
    exact hsalt
  obtain ⟨hresponse, hslot, hcount⟩ := hcontains.fpCommitTemplate i.decrypts hgood
  rw [← i.committed_eq hroom e.size_lt] at hresponse hslot hcount
  obtain ⟨htempl, hpositive⟩ := List.append_inj hslot (by simp only [length_read])
  refine ⟨fun x hx c hc hsends => ?_, hresponse, htempl, hpositive, hcount.trans (increment_of_lt hroom.last)⟩
  have hfits := i.splits.inside c (List.mem_cons_of_mem _ hc)
  obtain ⟨data, hstate, -⟩ := hsends.accepted (hroom.chunks x hx c hc hsends) hfits e.size_lt
  rw [hstate]

/-- An accepted commit of something else leaves the slot at templ_valid empty. -/
theorem fpCommandTemplate_rejected {paramsSize : Nat} {data : Buffer} (huploads : Uploads cfg paramsSize offset size s)
    (hcommit : 2 ^ 31 ≤ size.toNat)
    (hdecrypts : crypto.Decrypts cfg decryption (s.putPublic offset.toNat (size.toNat % 2 ^ 31) data))
    (h : Rejected crypto cfg (s.putPublic offset.toNat (size.toNat % 2 ^ 31) data)) :
    (fpCommandTemplate cfg paramsSize offset size data decryption s).2.rv ≠ .success ∧
      Erased s (fpCommandTemplate cfg paramsSize offset size data decryption s).1 := by
  obtain ⟨hrv, herased⟩ := fpCommitTemplate_rejected h hdecrypts
  rcases @fpCommandTemplate_cases cfg s offset size paramsSize data decryption with
    ⟨hnot, -⟩ | ⟨-, hsmall, -⟩ | ⟨-, -, hstate⟩
  · exact absurd huploads hnot
  · exact absurd hcommit hsmall
  · rw [hstate]
    exact ⟨hrv, herased.templValid, herased.templ, herased.salt⟩

/-- As long as there is a free slot for every chunk, a template and a salt that is not trivial come back from every
transfer under the same user and seed, however it is cut into chunks. A commit of a blob with another version, of one that
does not open, or of one with a trivial salt leaves the slot at templ_valid empty. -/
theorem template_transfer (crypto : Crypto) (cfg : Config) :
    (∀ (e : Export crypto cfg) (i : Import crypto cfg e.blob), i.Room → i.before.userId = e.exported.userId →
      i.before.tpmSeed = e.exported.tpmSeed →
        bytesAreTrivial (read (e.exported.fpPositiveMatchSalt e.fgr) 0 fpPositiveMatchSaltBytes) = false →
          Restores e i) ∧
    ∀ (s : State) (paramsSize : Nat) (offset size : UInt32) (data : Buffer) (decryption : Decryption),
      Uploads cfg paramsSize offset size s → 2 ^ 31 ≤ size.toNat →
        crypto.Decrypts cfg decryption (s.putPublic offset.toNat (size.toNat % 2 ^ 31) data) →
          Rejected crypto cfg (s.putPublic offset.toNat (size.toNat % 2 ^ 31) data) →
            (fpCommandTemplate cfg paramsSize offset size data decryption s).2.rv ≠ .success ∧
              Erased s (fpCommandTemplate cfg paramsSize offset size data decryption s).1 :=
  ⟨fun e i hroom huser hseed hsalt => e.restores i hroom huser hseed hsalt,
    fun _ _ _ _ _ _ huploads hcommit hdecrypts h => fpCommandTemplate_rejected huploads hcommit hdecrypts h⟩

/-! ## The emulator -/

def bytesOf (count n : Nat) : List UInt8 := (List.range count).map fun i => (n / 256 ^ (count - 1 - i)).toUInt8

def bufferOf (bytes : List UInt8) : Buffer := fun i => bytes.getD i 0

theorem holds_bufferOf {bytes : List UInt8} : Holds (bufferOf bytes) 0 bytes := by
  intro i hi
  rw [Nat.zero_add]
  simp [bufferOf, hi]

/-- Four bytes of a template, and its salt. -/
def emulatorPlaintext : List UInt8 := read counting 0 4 ++ read counting 0 16

/-- HKDF-SHA256 of the emulator's rollback secret and the TPM seed 1, for the zero user. -/
def emulatorKey : Bytes 16 := ⟨bytesOf 16 0xfc2422229f3d26d7ccf3adb30807783c, by simp [bytesOf]⟩

def emulatorCiphertext : List UInt8 := bytesOf 20 0xbd6ee6fa21a009aaebb7079646ce877f96033b05
def emulatorTag : List UInt8 := bytesOf 16 0x8c5ed57904d9089554db7d6393427a28

/-- The key derivation and AES-GCM for that template. -/
def emulatorCrypto : Crypto where
  deriveEncryptionKey salt userId tpmSeed :=
    if salt = read counting 0 16 ∧ userId = zeros 32 ∧ tpmSeed = digest 1 then some emulatorKey else none
  aes128GcmEncrypt key nonce plaintext :=
    if key = emulatorKey ∧ nonce = read counting 0 12 ∧ plaintext = emulatorPlaintext then
      some (emulatorCiphertext, emulatorTag)
    else none
  aes128GcmDecrypt key nonce ciphertext tag :=
    if key = emulatorKey ∧ nonce = read counting 0 12 ∧ ciphertext = emulatorCiphertext ∧ tag = emulatorTag then
      some emulatorPlaintext
    else none
  decrypt_encrypt := by
    intro key nonce plaintext ciphertext tag h
    split at h
    · rename_i hinput
      obtain ⟨rfl, rfl, rfl⟩ := hinput
      cases h
      rw [if_pos ⟨rfl, rfl, rfl, rfl⟩]
    · cases h

def emulatorBlob : List UInt8 :=
  [4, 0, 0, 0] ++ read counting 0 12 ++ read counting 0 16 ++ emulatorTag ++ emulatorCiphertext

/-- The state after some steps from a boot. -/
def reached (labels : List Label) : State := (Lib.Steps.trace (step emulator) labels ([], boot)).elim boot Prod.snd

theorem run_reached {labels : List Label} : ∃ l, Run emulator l (reached labels) := by
  rw [reached]
  cases htrace : Lib.Steps.trace (step emulator) labels ([], boot) with
  | none => exact ⟨[], .start⟩
  | some r => exact ⟨r.1, .of_trace .start htrace⟩

/-- The seed is set and `count` fingers are enrolled. -/
def enrolled (count : Nat) : State := reached (.tpmSeed 4 (digest 1) :: (List.replicate count enrolment).flatten)

theorem Crypto.Encrypts.intro (key : Bytes 16) (out : Buffer)
    (hkey : crypto.key (encryptionInput cfg fgr now answer s) = some key) (hanswer : answer.key = true)
    (haead : answer.aead = .done out)
    (hencrypt : crypto.aes128GcmEncrypt key (encNonce (encryptionInput cfg fgr now answer s))
      (encPayload cfg (encryptionInput cfg fgr now answer s)) =
        some (read out 0 (payloadSize cfg), read answer.tag 0 16)) :
    crypto.Encrypts cfg fgr now answer s := by
  simp only [Crypto.Encrypts, hkey, hencrypt]
  exact ⟨hanswer, out, haead, rfl, trivial⟩

theorem Crypto.Decrypts.intro (key : Bytes 16) (out : Buffer) (hkey : crypto.key s = some key)
    (hanswer : decryption.key = true) (haead : decryption.aead = .done out)
    (hdecrypt : crypto.aes128GcmDecrypt key (encNonce s) (encPayload cfg s) (encTag s) =
      some (read out 0 (payloadSize cfg))) : crypto.Decrypts cfg decryption s := by
  simp only [Crypto.Decrypts, hkey, hdecrypt]
  exact ⟨hanswer, out, haead, rfl⟩

def emulatorEncryption : Encryption where
  nonce := counting
  encryptionSalt := counting
  newSalt := counting
  key := true
  aead := .done (bufferOf emulatorCiphertext)
  tag := bufferOf emulatorTag

/-- The template is read, or uploaded, in two parts. -/
def emulatorParts : List (List UInt8) := [emulatorBlob.take 40, emulatorBlob.drop 40]

theorem splits_emulatorParts : Splits (bufferOf emulatorBlob) (encBufferSize emulator) (places 0 emulatorParts) := by
  have hblob : emulatorParts.flatten = emulatorBlob := by decide +kernel
  have hsize : emulatorBlob.length = encBufferSize emulator := by decide +kernel
  have hsplits := Splits.of_parts (hblob ▸ holds_bufferOf : Holds (bufferOf emulatorBlob) 0 emulatorParts.flatten)
  rw [hblob, hsize] at hsplits
  exact hsplits

theorem places_emulatorParts : places 0 emulatorParts = [(0, emulatorBlob.take 40), (40, emulatorBlob.drop 40)] := by
  decide +kernel

def secondRead : State × Label :=
  ((fpCommandFrame emulator 0x50000000 40 512 1 emulatorEncryption (enrolled 5)).1,
    .frame 0x50000028 28 512 1 emulatorEncryption)

/-- Five fingers are enrolled, and the last template is read. -/
def emulatorExport : Export emulatorCrypto emulator where
  fgr := 4
  before := enrolled 5
  offset := 0x50000000
  size := 40
  responseMax := 512
  now := 1
  answer := emulatorEncryption
  first := by decide
  encrypts := .intro emulatorKey (bufferOf emulatorCiphertext) (by decide +kernel) rfl rfl (by decide +kernel)
  succeeds := by decide +kernel
  steps := [secondRead]
  after := (exec emulator secondRead.2 secondRead.1).1
  run := .step .start (if_pos rfl)
  leaves := by
    intro x hx
    obtain rfl := List.mem_singleton.mp hx
    exact congrArg State.fpEncBuffer (fpCommandFrame_later (by decide))
  blob := bufferOf emulatorBlob
  chunks := places 0 emulatorParts
  given := by
    rw [places_emulatorParts]
    intro c hc
    rcases List.mem_cons.mp hc with rfl | hin
    · exact ⟨_, List.mem_cons_self, 0x50000000, 40, 512, 1, emulatorEncryption,
        rfl, by decide, by decide, by decide +kernel⟩
    · obtain rfl := List.mem_singleton.mp hin
      exact ⟨secondRead, List.mem_cons_of_mem _ List.mem_cons_self, 0x50000028, 28, 512, 1, emulatorEncryption, rfl,
        by decide, by decide, by decide +kernel⟩
  splits := splits_emulatorParts

def emulatorDecryption : Decryption where
  key := true
  aead := .done (bufferOf emulatorPlaintext)

def secondUpload : Label :=
  .template ((28 : UInt32).toNat + 8) 40 28 (bufferOf (emulatorBlob.drop 40)) { key := false, aead := .noContext }

/-- The second part is uploaded, and then the first with a commit. -/
def emulatorImport (s : State) (h : emulatorCrypto.Decrypts emulator emulatorDecryption
    ((exec emulator secondUpload s).1.putPublic 0 40 (bufferOf (emulatorBlob.take 40)))) :
    Import emulatorCrypto emulator (bufferOf emulatorBlob) where
  start := s
  steps := [(s, secondUpload)]
  before := (exec emulator secondUpload s).1
  run := .step .start (if_pos rfl)
  chunks := [(40, emulatorBlob.drop 40)]
  sent := by
    intro c hc
    obtain rfl := List.mem_singleton.mp hc
    exact ⟨_, List.mem_singleton_self _, 40, 28, _, _, rfl, by decide, by decide +kernel⟩
  others := by
    intro x hx
    obtain rfl := List.mem_singleton.mp hx
    exact .inl ⟨_, List.mem_singleton_self _, 40, 28, _, _, rfl, by decide, by decide +kernel⟩
  offset := 0
  size := 0x80000028
  data := bufferOf (emulatorBlob.take 40)
  answer := emulatorDecryption
  commits := by decide
  decrypts := h
  splits := by
    have hlast : read (bufferOf (emulatorBlob.take 40)) 0 40 = emulatorBlob.take 40 := by decide +kernel
    have hsplits := splits_emulatorParts
    rw [places_emulatorParts, ← hlast] at hsplits
    exact hsplits

/-- After a boot, with the seed set. -/
def seeded : State := reached [.tpmSeed 4 (digest 1)]

theorem decrypts_seeded : emulatorCrypto.Decrypts emulator emulatorDecryption
    ((exec emulator secondUpload seeded).1.putPublic 0 40 (bufferOf (emulatorBlob.take 40))) :=
  .intro emulatorKey (bufferOf emulatorPlaintext) (by decide +kernel) rfl rfl (by decide +kernel)

theorem decrypts_exported : emulatorCrypto.Decrypts emulator emulatorDecryption
    ((exec emulator secondUpload emulatorExport.exported).1.putPublic 0 40 (bufferOf (emulatorBlob.take 40))) :=
  .intro emulatorKey (bufferOf emulatorPlaintext) (by decide +kernel) rfl rfl (by decide +kernel)

def otherVersion : Buffer := bufferOf (5 :: emulatorBlob.drop 1)

theorem template_transfer_emulator : Restores emulatorExport (emulatorImport seeded decrypts_seeded) ∧
    (fpCommandTemplate emulator 76 0 0x80000044 otherVersion emulatorDecryption seeded).2.rv ≠ .success ∧
      Erased seeded (fpCommandTemplate emulator 76 0 0x80000044 otherVersion emulatorDecryption seeded).1 := by
  have hroom : (emulatorImport seeded decrypts_seeded).Room := by
    refine ⟨fun x hx _ _ _ => ?_, by decide +kernel⟩
    obtain rfl := List.mem_singleton.mp hx
    decide +kernel
  have hdecrypts : emulatorCrypto.Decrypts emulator emulatorDecryption (seeded.putPublic 0 68 otherVersion) :=
    .intro emulatorKey (bufferOf emulatorPlaintext) (by decide +kernel) rfl rfl (by decide +kernel)
  have hversion : Rejected emulatorCrypto emulator (seeded.putPublic 0 68 otherVersion) := .version (by decide +kernel)
  exact ⟨(template_transfer emulatorCrypto emulator).1 emulatorExport _ hroom (by decide +kernel) (by decide +kernel)
      (by decide +kernel),
    (template_transfer emulatorCrypto emulator).2 seeded 76 0 0x80000044 otherVersion emulatorDecryption
      (by decide +kernel) (by decide) hdecrypts hversion⟩

/-- A template is exported, and uploaded again while there are five others. -/
theorem full_table_refuses : ∃ (e : Export emulatorCrypto emulator) (i : Import emulatorCrypto emulator e.blob),
    (∃ l, Run emulator l e.before) ∧ (∃ l, Run emulator l i.start) ∧ i.before.userId = e.exported.userId ∧
      i.before.tpmSeed = e.exported.tpmSeed ∧
        bytesAreTrivial (read (e.exported.fpPositiveMatchSalt e.fgr) 0 fpPositiveMatchSaltBytes) = false ∧
          ¬Restores e i := by
  have hbefore : ∃ l, Run emulator l (enrolled 5) := run_reached
  obtain ⟨l, run⟩ := hbefore
  have hexported : Run emulator (l ++ [(emulatorExport.before, .frame 0x50000000 40 512 1 emulatorEncryption)])
      emulatorExport.exported := .step run (if_pos rfl)
  refine ⟨emulatorExport, emulatorImport emulatorExport.exported decrypts_exported, ⟨_, run⟩, ⟨_, hexported⟩,
    by decide +kernel, by decide +kernel, by decide +kernel, fun h => ?_⟩
  have hrefused : (emulatorImport emulatorExport.exported decrypts_exported).committed.2.rv = .resOverflow := by
    decide +kernel
  have hsucceeds := congrArg Response.rv h.succeeds
  exact absurd (hrefused.symm.trans hsucceeds) (by decide)

end ChromeEc.FpSensor
