import ChromeEc.Rollback.Safety
import ChromeEc.VbootHash.Sha256
import ChromeEc.Rollback.Model
import ChromeEc.VbootHash.Model

/- The check of the RW image's signature, `common/rwsig.c` with `CONFIG_RWSIG_TYPE_RWSIG` and mapped storage.

  Addresses and the fields of the headers have 32 bits and wrap. The rollback blocks are those of
  `common/rollback.c`; RSA and SHA-256 are parameters. What the chip and the rest of the system answer
  is an input of the call (`Env`), so is the version in the image's data. An outcome lists the calls
  of `rsa_verify` that were made.

  Correspondence (C ↔ Lean):
    `check_padding` ↔ `checkPadding`
    `rwsig_check_signature` ↔ `rwsigCheckSignature` (`updateRollback`: from the accepted signature
      to `out`; `out`: from the label on)
  Prints and the event in the PD log are left out.

  What an accepted RW image has.

  The check of the signature's offset compares it with the size of a pointer, and the sum with the
  size of the signature may wrap. `Misplaced` are the offsets that it lets through although the
  signature is not behind the header and inside the area. With any other offset an accepted image has
  what it should have, and on every failure the buffer is given back and jumps are disabled when the
  system is locked (`rwsig_sound_iff`).

  The function is seen in two parts: an image that does not reach the update of the rollback version
  is refused (`refused_of_not_accepts`), and for one that does the outcome is that of the update
  (`eq_updateRollback`). -/
namespace ChromeEc.Rwsig

/-- A 32-bit address, or field of a header. -/
abbrev U32 := BitVec 32

/-- `sizeof(vb21_sig)`: the size of the pointer. -/
def POINTER_SIZE : Nat := 4

/-- `sizeof(struct vb21_signature)`. -/
def SIGNATURE_SIZE : Nat := 56

def VB21_MAGIC_PACKED_KEY : U32 := 0x50326256
def VB21_MAGIC_SIGNATURE : U32 := 0x53326256

/-- The board's configuration. `blocks` is that of the rollback blocks, where there are some
(`CONFIG_ROLLBACK`). -/
structure Config where
  mappedStorageBase : U32
  ecWritableStorageOff : U32
  rwSigOff : U32
  roPubkeyOff : U32
  programMemoryBase : U32
  rwMemOff : U32
  rwSize : Nat
  rwSigSize : Nat
  rsaNumBytes : Nat
  rollback : Bool
  flashProtectRw : Bool
  blocks : Rollback.Config
  sig_le : rwSigSize ≤ rwSize
  rw_lt : rwSize < 2 ^ 32
  rsa_lt : rsaNumBytes < 2 ^ 32

structure Env where
  mem : U32 → UInt8
  /-- `system_get_rollback_version(EC_IMAGE_RW)`. -/
  rwRollbackVersion : BitVec 32
  /-- Which reads of `rollback_get_minimum_version` work. -/
  works : Fin 3 → Bool
  /-- The buffer that `shared_mem_acquire` grants, if it does. -/
  workbuf : Option U32
  /-- `system_is_locked`. -/
  locked : Bool
  /-- `EC_FLASH_PROTECT_RW_NOW` is set. -/
  protectRwNow : Bool
  /-- What `rollback_update_version` meets. -/
  update : Rollback.Env

/-- The rollback blocks, the buffers of shared memory that are in use, and `disable_jump`. -/
structure State where
  rollback : Rollback.Flash
  held : List U32
  disableJump : Bool

/-- A call of `rsa_verify`: the pointers it was given, the hash, and what it returned. -/
structure Verification where
  key : U32
  sig : U32
  hash : List UInt8
  result : Int

/-- What is returned (nothing when the power goes), the state, and the calls of `rsa_verify`. -/
structure Outcome where
  good : Option Int
  state : State
  verified : List Verification

/-! ## Memory -/

def bytes (mem : U32 → UInt8) (p : U32) (n : Nat) : List UInt8 :=
  (List.range n).map fun i => mem (p + BitVec.ofNat 32 i)

def le16 (mem : U32 → UInt8) (p : U32) : BitVec 16 := (mem (p + 1)).toBitVec ++ (mem p).toBitVec

def le32 (mem : U32 → UInt8) (p : U32) : U32 := le16 mem (p + 2) ++ le16 mem p

def ERASED : U32 := 0xffffffff

def checkPadding (mem : U32 → UInt8) (data : U32) (start len : Nat) : Int :=
  if start % 4 ≠ 0 ∨ len % 4 ≠ 0 then 0
  else if (List.range' (start / 4) (len / 4 - start / 4)).any fun i =>
    le32 mem (data + BitVec.ofNat 32 (4 * i)) ≠ ERASED then 0
  else 1

/-! ## The check -/

section
variable (c : Config)

def Config.rwdata : U32 := c.mappedStorageBase + c.ecWritableStorageOff
def Config.rwRst : U32 := c.programMemoryBase + c.rwMemOff + 4
def Config.vb21Key : U32 := c.mappedStorageBase + c.roPubkeyOff
def Config.vb21Sig : U32 := c.mappedStorageBase + c.rwSigOff

/-- `CONFIG_RW_SIZE - CONFIG_RW_SIG_SIZE`. -/
def Config.imageSize : Nat := c.rwSize - c.rwSigSize

/-- `sizeof(struct rsa_public_key)`. -/
def Config.keySize : Nat := 8 + 2 * c.rsaNumBytes

/-- `vb21_key->key_offset`, behind `struct vb21_struct_common`, and the fields after it. -/
def keyOffset (e : Env) : U32 := le32 e.mem (c.vb21Key + 20)
def keyKeySize (e : Env) : U32 := le32 e.mem (c.vb21Key + 24)
def keySigAlg (e : Env) : BitVec 16 := le16 e.mem (c.vb21Key + 28)
def keyHashAlg (e : Env) : BitVec 16 := le16 e.mem (c.vb21Key + 30)

/-- `vb21_sig->sig_offset`, and the fields after it. -/
def sigOffset (e : Env) : U32 := le32 e.mem (c.vb21Sig + 20)
def sigSize (e : Env) : U32 := le32 e.mem (c.vb21Sig + 24)
def dataSize (e : Env) : U32 := le32 e.mem (c.vb21Sig + 28)
def sigSigAlg (e : Env) : BitVec 16 := le16 e.mem (c.vb21Sig + 32)
def sigHashAlg (e : Env) : BitVec 16 := le16 e.mem (c.vb21Sig + 34)

def minRollbackVersion (e : Env) (s : State) : Int :=
  Rollback.rollbackGetMinimumVersion c.blocks.secretWords e.works s.rollback

def out (e : Env) (good : Int) (rsaWorkbuf : Option U32) (s : State) (verified : List Verification) : Outcome :=
  let s := if good = 0 ∧ e.locked then { s with disableJump := true } else s
  match rsaWorkbuf with
  | none => ⟨some good, s, verified⟩
  | some p => ⟨some good, { s with held := s.held.erase p }, verified⟩

/-- The stored version is to be replaced by that of the image. -/
def updateDue (e : Env) (s : State) : Bool :=
  c.rollback && decide (e.rwRollbackVersion.toInt ≠ minRollbackVersion c e s) &&
    (!c.flashProtectRw || !e.locked || e.protectRwNow)

variable {sha : VbootHash.Sha256} (rsaVerify : List UInt8 → List UInt8 → List UInt8 → Int)
  (digest : (Fin c.blocks.secretWords → Rollback.Word) → List UInt8 → List UInt8 →
    Fin c.blocks.secretWords → Rollback.Word)

/-- `rollback_update_version(rw_rollback_version)`. -/
def rollbackUpdate (e : Env) (s : State) : Option Rollback.Ec × List Rollback.FlashOp :=
  Rollback.rollbackUpdateVersion c.blocks digest e.update s.rollback e.rwRollbackVersion

/-- What follows the call of `rollback_update_version`, which returns nothing when the power goes. -/
def afterUpdate (e : Env) (good : Int) (rsaWorkbuf : Option U32) (s : State) (verified : List Verification) :
    Option Rollback.Ec → Outcome
  | none => ⟨none, s, verified⟩
  | some .success => out e good rsaWorkbuf s verified
  | some .accessDenied => out e good rsaWorkbuf s verified
  | some _ => out e 0 rsaWorkbuf s verified

def updateRollback (e : Env) (good : Int) (rsaWorkbuf : Option U32) (s : State) (verified : List Verification) : Outcome :=
  if updateDue c e s then
    let (ret, ops) := rollbackUpdate c digest e s
    afterUpdate e good rsaWorkbuf { s with rollback := Rollback.applyOps s.rollback ops } verified ret
  else out e good rsaWorkbuf s verified

/-- The call of `rsa_verify` on the hash of the image. -/
def verification (sha : VbootHash.Sha256) (e : Env) : Verification :=
  let key := c.vb21Key + keyOffset c e
  let sig := c.vb21Sig + sigOffset c e
  let hash := sha.buf (sha.final (sha.update sha.init (bytes e.mem c.rwdata (dataSize c e).toNat)))
  ⟨key, sig, hash, rsaVerify (bytes e.mem key c.keySize) (bytes e.mem sig c.rsaNumBytes) hash⟩

def rwsigCheckSignature (sha : VbootHash.Sha256) (e : Env) (s : State) : Outcome :=
  -- Check if we have a RW firmware flashed
  if le32 e.mem c.rwRst = ERASED then out e 0 none s []
  else if c.rollback ∧ (e.rwRollbackVersion.toInt < 0 ∨ minRollbackVersion c e s < 0 ∨
      e.rwRollbackVersion.toInt < minRollbackVersion c e s) then out e 0 none s []
  else
    match e.workbuf with
    | none => out e 0 none s []
    | some p =>
      let s := { s with held := p :: s.held }
      if le32 e.mem c.vb21Key ≠ VB21_MAGIC_PACKED_KEY ∨ (keyKeySize c e).toNat ≠ c.keySize then out e 0 (some p) s []
      else if le32 e.mem c.vb21Sig ≠ VB21_MAGIC_SIGNATURE ∨ (sigSize c e).toNat ≠ c.rsaNumBytes ∨
          keySigAlg c e ≠ sigSigAlg c e ∨ keyHashAlg c e ≠ sigHashAlg c e ∨
          -- Validity check signature offset and data size.
          (sigOffset c e).toNat < POINTER_SIZE ∨
          (sigOffset c e + BitVec.ofNat 32 c.rsaNumBytes).toNat > c.rwSigSize ∨
          (dataSize c e).toNat > c.imageSize then out e 0 (some p) s []
      else
        let good := checkPadding e.mem c.rwdata (dataSize c e).toNat c.imageSize
        if good = 0 then out e good (some p) s []
        else
          let v := verification c rsaVerify sha e
          if v.result = 0 then out e v.result (some p) s [v]
          else updateRollback c digest e v.result (some p) s [v]

end

/-! ## What the checks establish -/

section

variable {mem : U32 → UInt8} {p : U32}

theorem allOnes_of_append {v w : Nat} {x : BitVec v} {y : BitVec w} (h : x ++ y = BitVec.allOnes (v + w)) :
    x = BitVec.allOnes v ∧ y = BitVec.allOnes w := by
  have hbit : ∀ i < v + w, (x ++ y).getLsbD i = true := by
    intro i hi
    simp [h, hi]
  refine ⟨BitVec.eq_of_getLsbD_eq ?_, BitVec.eq_of_getLsbD_eq ?_⟩
  · intro i hi
    simpa [BitVec.getLsbD_append, hi] using hbit (w + i) (by omega)
  · intro i hi
    simpa [BitVec.getLsbD_append, hi] using hbit i (by omega)

theorem le32_erased (h : le32 mem p = ERASED) {k : Nat} (hk : k < 4) : mem (p + BitVec.ofNat 32 k) = 0xff := by
  obtain ⟨hhigh, hlow⟩ := allOnes_of_append (v := 16) (w := 16) h
  obtain ⟨h₃, h₂⟩ := allOnes_of_append (v := 8) (w := 8) hhigh
  obtain ⟨h₁, h₀⟩ := allOnes_of_append (v := 8) (w := 8) hlow
  rw [BitVec.add_assoc] at h₃
  refine UInt8.toBitVec_inj.mp ?_
  obtain rfl | rfl | rfl | rfl : k = 0 ∨ k = 1 ∨ k = 2 ∨ k = 3 := by omega
  · rwa [BitVec.add_zero]
  · exact h₁
  · exact h₂
  · exact h₃

theorem checkPadding_erased {start len : Nat} (h : checkPadding mem p start len ≠ 0) {i : Nat} (hstart : start ≤ i)
    (hlen : i < len) : mem (p + BitVec.ofNat 32 i) = 0xff := by
  unfold checkPadding at h
  split at h
  · exact absurd rfl h
  next haligned =>
  split at h
  · exact absurd rfl h
  next hwords =>
  have hword : le32 mem (p + BitVec.ofNat 32 (4 * (i / 4))) = ERASED := by
    by_contra hother
    refine hwords (List.any_eq_true.mpr ⟨i / 4, List.mem_range'_1.mpr ?_, decide_eq_true hother⟩)
    omega
  have hbyte := le32_erased hword (Nat.mod_lt i (by decide : 4 > 0))
  rwa [BitVec.add_assoc, ← BitVec.ofNat_add, Nat.div_add_mod] at hbyte

end
/-! ## The exit -/

section

variable {e : Env} {good : Int} {workbuf : Option U32} {s : State} {verified : List Verification}

@[simp] theorem out_good : (out e good workbuf s verified).good = some good := by
  cases workbuf <;> rfl

@[simp] theorem out_verified : (out e good workbuf s verified).verified = verified := by
  cases workbuf <;> rfl

@[simp] theorem out_rollback : (out e good workbuf s verified).state.rollback = s.rollback := by
  unfold out
  split <;> cases workbuf <;> rfl

theorem out_disableJump (hgood : good = 0) (hlocked : e.locked = true) :
    (out e good workbuf s verified).state.disableJump = true := by
  unfold out
  rw [if_pos ⟨hgood, hlocked⟩]
  cases workbuf <;> rfl

theorem out_held : (out e good workbuf s verified).state.held = (match workbuf with
    | none => s.held
    | some p => s.held.erase p) := by
  unfold out
  split <;> cases workbuf <;> rfl

end

/-! ## Soundness -/

section

variable (c : Config) (rsaVerify : List UInt8 → List UInt8 → List UInt8 → Int) (sha : VbootHash.Sha256) (e : Env)
  (digest : (Fin c.blocks.secretWords → Rollback.Word) → List UInt8 → List UInt8 →
    Fin c.blocks.secretWords → Rollback.Word)
  (s : State)

/-- The minimum that the rollback blocks hold. -/
def storedMinimum (s : State) : Int := (Rollback.latest c.blocks.secretWords s.rollback).2.rollbackMinVersion.toInt

/-- `rsaNumBytes` bytes that lie inside the signature area, behind the header. -/
def InSigArea (sig : U32) : Prop :=
  ∃ offset : Nat, SIGNATURE_SIZE ≤ offset ∧ offset + c.rsaNumBytes ≤ c.rwSigSize ∧ sig = c.vb21Sig + BitVec.ofNat 32 offset

/-- What an accepted image has. -/
structure Trusted (o : Outcome) : Prop where
  verified : ∃ v ∈ o.verified, v.result ≠ 0 ∧
    v.result = rsaVerify (bytes e.mem v.key c.keySize) (bytes e.mem v.sig c.rsaNumBytes) v.hash ∧
    v.hash = sha.sha256 (bytes e.mem c.rwdata (dataSize c e).toNat) ∧ InSigArea c v.sig
  size : (dataSize c e).toNat ≤ c.imageSize
  padding : ∀ i, (dataSize c e).toNat ≤ i → i < c.imageSize → e.mem (c.rwdata + BitVec.ofNat 32 i) = 0xff
  rollback : c.rollback = true → storedMinimum c s ≤ e.rwRollbackVersion.toInt

/-- A non-zero result and a change of the stored minimum only for an image that has what it should have, and on
a failure the buffer given back and jumps disabled. -/
structure Sound (o : Outcome) : Prop where
  accepted : ∀ good, o.good = some good → good ≠ 0 → Trusted c rsaVerify sha e s o
  minimum : storedMinimum c o.state ≠ storedMinimum c s → Trusted c rsaVerify sha e s o
  released : o.good = some 0 → o.state.held = s.held
  locked : o.good = some 0 → e.locked = true → o.state.disableJump = true

/-- All checks but that of the signature's offset let the image through. -/
structure Accepts : Prop where
  flashed : le32 e.mem c.rwRst ≠ ERASED
  rollback : ¬(c.rollback = true ∧ (e.rwRollbackVersion.toInt < 0 ∨ minRollbackVersion c e s < 0 ∨
    e.rwRollbackVersion.toInt < minRollbackVersion c e s))
  workbuf : e.workbuf ≠ none
  key : le32 e.mem c.vb21Key = VB21_MAGIC_PACKED_KEY ∧ (keyKeySize c e).toNat = c.keySize
  header : le32 e.mem c.vb21Sig = VB21_MAGIC_SIGNATURE ∧ (sigSize c e).toNat = c.rsaNumBytes ∧
    keySigAlg c e = sigSigAlg c e ∧ keyHashAlg c e = sigHashAlg c e
  size : (dataSize c e).toNat ≤ c.imageSize
  padding : checkPadding e.mem c.rwdata (dataSize c e).toNat c.imageSize ≠ 0
  verified : (verification c rsaVerify sha e).result ≠ 0

def OffsetAccepted : Prop :=
  ¬((sigOffset c e).toNat < POINTER_SIZE) ∧ ¬((sigOffset c e + BitVec.ofNat 32 c.rsaNumBytes).toNat > c.rwSigSize)

/-- An offset that the check accepts, into the header or so large that the sum wraps. -/
def Misplaced (offset : Nat) : Prop :=
  POINTER_SIZE ≤ offset ∧ (offset < SIGNATURE_SIZE ∧ offset + c.rsaNumBytes ≤ c.rwSigSize ∨
    2 ^ 32 ≤ offset + c.rsaNumBytes ∧ offset + c.rsaNumBytes - 2 ^ 32 ≤ c.rwSigSize)

/-- The update of the rollback version is made, fails, and leaves the minimum as it is. -/
def UpdateFails : Prop :=
  updateDue c e s = true ∧ (rollbackUpdate c digest e s).1 ≠ some .success ∧
    (rollbackUpdate c digest e s).1 ≠ some .accessDenied ∧
    storedMinimum c { s with rollback := Rollback.applyOps s.rollback (rollbackUpdate c digest e s).2 } = storedMinimum c s

/-! ### The offset -/

variable {c e s}

theorem offsetAccepted_iff : OffsetAccepted c e ↔
    (SIGNATURE_SIZE ≤ (sigOffset c e).toNat ∧ (sigOffset c e).toNat + c.rsaNumBytes ≤ c.rwSigSize) ∨
      Misplaced c (sigOffset c e).toNat := by
  have hoffset := (sigOffset c e).isLt
  have hrsa := c.rsa_lt
  have hsig : c.rwSigSize < 2 ^ 32 := Nat.lt_of_le_of_lt c.sig_le c.rw_lt
  unfold OffsetAccepted Misplaced POINTER_SIZE SIGNATURE_SIZE
  rw [BitVec.toNat_add, BitVec.toNat_ofNat, Nat.mod_eq_of_lt hrsa]
  by_cases hwrap : (sigOffset c e).toNat + c.rsaNumBytes < 2 ^ 32
  · rw [Nat.mod_eq_of_lt hwrap]
    omega
  · rw [Nat.mod_eq_sub_mod (by omega), Nat.mod_eq_of_lt (by omega)]
    omega

theorem inSigArea_iff : InSigArea c (c.vb21Sig + sigOffset c e) ↔
    SIGNATURE_SIZE ≤ (sigOffset c e).toNat ∧ (sigOffset c e).toNat + c.rsaNumBytes ≤ c.rwSigSize := by
  constructor
  · rintro ⟨offset, hheader, harea, heq⟩
    have hlt : offset < 2 ^ 32 := by
      have hsig : c.rwSigSize < 2 ^ 32 := Nat.lt_of_le_of_lt c.sig_le c.rw_lt
      omega
    have hoffset : (sigOffset c e).toNat = offset := by
      rw [BitVec.add_right_inj] at heq
      rw [heq, BitVec.toNat_ofNat, Nat.mod_eq_of_lt hlt]
    rw [hoffset]
    exact ⟨hheader, harea⟩
  · rintro ⟨hheader, harea⟩
    exact ⟨(sigOffset c e).toNat, hheader, harea, by rw [BitVec.ofNat_toNat, BitVec.setWidth_eq]⟩

theorem not_misplaced_of_inArea {offset : Nat} (hheader : SIGNATURE_SIZE ≤ offset)
    (harea : offset + c.rsaNumBytes ≤ c.rwSigSize) : ¬Misplaced c offset := by
  have hsig : c.rwSigSize < 2 ^ 32 := Nat.lt_of_le_of_lt c.sig_le c.rw_lt
  rintro ⟨-, ⟨hinside, -⟩ | ⟨hwrap, -⟩⟩ <;> omega

/-! ### Images that are refused -/

variable {rsaVerify sha digest}

/-- The outcome is a failure, and nothing but `disable_jump` is changed. -/
def Refused (e : Env) (s : State) (o : Outcome) : Prop :=
  ∃ verified, o = out e 0 none s verified ∨ ∃ p, o = out e 0 (some p) { s with held := p :: s.held } verified

theorem sound_of_out {workbuf : Option U32} {s' : State} {verified : List Verification}
    (hrollback : s'.rollback = s.rollback)
    (hheld : (out e 0 workbuf s' verified).state.held = s.held) :
    Sound c rsaVerify sha e s (out e 0 workbuf s' verified) := by
  refine ⟨?_, ?_, fun _ => hheld, fun _ => out_disableJump rfl⟩
  · intro good hgood hnonzero
    exact absurd (Option.some_inj.mp (out_good.symm.trans hgood)).symm hnonzero
  · intro hchanged
    exact absurd (by rw [storedMinimum, out_rollback, hrollback, storedMinimum]) hchanged

theorem Refused.sound {o : Outcome} (h : Refused e s o) : Sound c rsaVerify sha e s o := by
  obtain ⟨verified, rfl | ⟨p, rfl⟩⟩ := h
  · exact sound_of_out rfl out_held
  · exact sound_of_out rfl (out_held.trans (List.erase_cons_head p s.held))

theorem refused_of_not_accepts (h : ¬(Accepts c rsaVerify sha e s ∧ OffsetAccepted c e)) :
    Refused e s (rwsigCheckSignature c rsaVerify digest sha e s) := by
  unfold rwsigCheckSignature
  split
  · exact ⟨[], .inl rfl⟩
  next hflashed =>
  split
  · exact ⟨[], .inl rfl⟩
  next hrollback =>
  split
  · exact ⟨[], .inl rfl⟩
  next p hworkbuf =>
  simp only
  split
  · exact ⟨[], .inr ⟨p, rfl⟩⟩
  next hkey =>
  split
  · exact ⟨[], .inr ⟨p, rfl⟩⟩
  next hheader =>
  split
  · next hpadding =>
    rw [hpadding]
    exact ⟨[], .inr ⟨p, rfl⟩⟩
  next hpadding =>
  split
  · next hverified =>
    rw [hverified]
    exact ⟨_, .inr ⟨p, rfl⟩⟩
  next hverified =>
  -- every check has let the image through
  simp only [not_or, not_not] at hkey hheader
  obtain ⟨hmagic, hsize, hsigAlg, hhashAlg, hpointer, harea, hdata⟩ := hheader
  refine absurd ⟨?_, hpointer, harea⟩ h
  exact ⟨hflashed, hrollback, by simp [hworkbuf], hkey,
    ⟨hmagic, hsize, hsigAlg, hhashAlg⟩, Nat.le_of_not_lt hdata, hpadding, hverified⟩

/-! ### Images that are let through -/

variable (digest) in
theorem eq_updateRollback (h : Accepts c rsaVerify sha e s) (hoffset : OffsetAccepted c e) :
    ∃ p, rwsigCheckSignature c rsaVerify digest sha e s =
      updateRollback c digest e (verification c rsaVerify sha e).result (some p) { s with held := p :: s.held }
        [verification c rsaVerify sha e] := by
  obtain ⟨p, hworkbuf⟩ := Option.ne_none_iff_exists'.mp h.workbuf
  obtain ⟨hmagic, hsize, hsigAlg, hhashAlg⟩ := h.header
  have hkey : ¬(le32 e.mem c.vb21Key ≠ VB21_MAGIC_PACKED_KEY ∨ (keyKeySize c e).toNat ≠ c.keySize) := by
    simp [h.key.1, h.key.2]
  have hheader : ¬(le32 e.mem c.vb21Sig ≠ VB21_MAGIC_SIGNATURE ∨ (sigSize c e).toNat ≠ c.rsaNumBytes ∨
      keySigAlg c e ≠ sigSigAlg c e ∨ keyHashAlg c e ≠ sigHashAlg c e ∨ (sigOffset c e).toNat < POINTER_SIZE ∨
      (sigOffset c e + BitVec.ofNat 32 c.rsaNumBytes).toNat > c.rwSigSize ∨ (dataSize c e).toNat > c.imageSize) := by
    simp only [not_or, not_not]
    exact ⟨hmagic, hsize, hsigAlg, hhashAlg, hoffset.1, hoffset.2, Nat.not_lt.mpr h.size⟩
  refine ⟨p, ?_⟩
  rw [rwsigCheckSignature, if_neg h.flashed, if_neg h.rollback, hworkbuf]
  simp only [if_neg hkey, if_neg hheader, if_neg h.padding, if_neg h.verified]

theorem minRollbackVersion_eq (h : 0 ≤ minRollbackVersion c e s) : minRollbackVersion c e s = storedMinimum c s := by
  unfold minRollbackVersion Rollback.rollbackGetMinimumVersion at h ⊢
  cases hread : Rollback.getLatestRollback c.blocks.secretWords e.works s.rollback with
  | none =>
    rw [hread] at h
    exact absurd h (by simp)
  | some latest => rw [storedMinimum, ← Rollback.getLatestRollback_some hread]

/-- An image that is let through has what it should have if its signature is in its place. -/
theorem trusted_iff (h : Accepts c rsaVerify sha e s) (hoffset : OffsetAccepted c e) {o : Outcome}
    (hverified : o.verified = [verification c rsaVerify sha e]) :
    Trusted c rsaVerify sha e s o ↔ ¬Misplaced c (sigOffset c e).toNat := by
  constructor
  · intro htrusted
    obtain ⟨v, hv, -, -, -, harea⟩ := htrusted.verified
    rw [hverified, List.mem_singleton] at hv
    subst hv
    obtain ⟨hheader, hend⟩ := inSigArea_iff.mp harea
    exact not_misplaced_of_inArea hheader hend
  · intro hplaced
    refine ⟨⟨verification c rsaVerify sha e, ?_, h.verified, rfl, ?_, ?_⟩, h.size, ?_, ?_⟩
    · rw [hverified]
      exact List.mem_singleton_self _
    · simpa [verification] using sha.correct [bytes e.mem c.rwdata (dataSize c e).toNat]
    · exact inSigArea_iff.mpr ((offsetAccepted_iff.mp hoffset).resolve_right hplaced)
    · intro i hstart hlen
      exact checkPadding_erased h.padding hstart hlen
    · intro hrollback
      have hversions := h.rollback
      simp only [hrollback, true_and, not_or, Int.not_lt] at hversions
      rw [← minRollbackVersion_eq hversions.2.1]
      exact hversions.2.2

section

variable {good : Int} {p : U32} {verified : List Verification}

theorem afterUpdate_verified {workbuf : Option U32} {ret : Option Rollback.Ec} :
    (afterUpdate e good workbuf s verified ret).verified = verified := by
  unfold afterUpdate
  split <;> simp

theorem afterUpdate_rollback {workbuf : Option U32} {ret : Option Rollback.Ec} :
    (afterUpdate e good workbuf s verified ret).state.rollback = s.rollback := by
  unfold afterUpdate
  split <;> simp

theorem afterUpdate_done {workbuf : Option U32} {ret : Option Rollback.Ec}
    (hdone : ret = some .success ∨ ret = some .accessDenied) :
    afterUpdate e good workbuf s verified ret = out e good workbuf s verified := by
  obtain rfl | rfl := hdone <;> rfl

theorem afterUpdate_failed {workbuf : Option U32} {ret : Option Rollback.Ec}
    (hfailed : ¬(ret = some .success ∨ ret = some .accessDenied)) :
    (afterUpdate e good workbuf s verified ret).good = none ∨
      afterUpdate e good workbuf s verified ret = out e 0 workbuf s verified := by
  unfold afterUpdate
  split
  · exact .inl rfl
  · exact absurd (.inl rfl) hfailed
  · exact absurd (.inr rfl) hfailed
  · exact .inr rfl

theorem updateRollback_due {workbuf : Option U32} (hdue : updateDue c e s = true) :
    updateRollback c digest e good workbuf s verified =
      afterUpdate e good workbuf { s with rollback := Rollback.applyOps s.rollback (rollbackUpdate c digest e s).2 }
        verified
        (rollbackUpdate c digest e s).1 := by
  rw [updateRollback, if_pos hdue]

theorem updateRollback_verified {workbuf : Option U32} :
    (updateRollback c digest e good workbuf s verified).verified = verified := by
  unfold updateRollback
  split
  · exact afterUpdate_verified
  · exact out_verified

/-- A failure after the signature has been accepted: the update has been made and has failed. -/
theorem updateRollback_failed (hgood : good ≠ 0)
    (hfailed : (updateRollback c digest e good (some p) s verified).good = some 0) :
    (updateRollback c digest e good (some p) s verified).state.held = s.held.erase p ∧
      (e.locked = true → (updateRollback c digest e good (some p) s verified).state.disableJump = true) := by
  have hkept : ∀ s' : State, (out e good (some p) s' verified).good ≠ some 0 := by
    intro s' hzero
    exact hgood (Option.some_inj.mp (out_good.symm.trans hzero))
  by_cases hdue : updateDue c e s = true
  · rw [updateRollback_due hdue] at hfailed ⊢
    by_cases hdone : (rollbackUpdate c digest e s).1 = some .success ∨ (rollbackUpdate c digest e s).1 = some .accessDenied
    · rw [afterUpdate_done hdone] at hfailed
      exact absurd hfailed (hkept _)
    · obtain hnone | hout := afterUpdate_failed hdone
      · rw [hnone] at hfailed
        cases hfailed
      · rw [hout]
        exact ⟨out_held, out_disableJump rfl⟩
  · rw [updateRollback, if_neg hdue] at hfailed
    exact absurd hfailed (hkept _)

/-- Unless the update fails, the result is not zero or the minimum is another one. -/
theorem updateRollback_kept {workbuf : Option U32} (hfails : ¬UpdateFails c e digest s) :
    (updateRollback c digest e good workbuf s verified).good = some good ∨
      storedMinimum c (updateRollback c digest e good workbuf s verified).state ≠ storedMinimum c s := by
  by_cases hdue : updateDue c e s = true
  · rw [updateRollback_due hdue]
    by_cases hdone : (rollbackUpdate c digest e s).1 = some .success ∨ (rollbackUpdate c digest e s).1 = some .accessDenied
    · left
      rw [afterUpdate_done hdone, out_good]
    · right
      intro hsame
      rw [not_or] at hdone
      refine hfails ⟨hdue, hdone.1, hdone.2, ?_⟩
      rw [← hsame, storedMinimum, storedMinimum, afterUpdate_rollback]
  · left
    rw [updateRollback, if_neg hdue, out_good]

/-- A failed update: the result is zero, or nothing is returned, and the minimum is as before. -/
theorem updateRollback_fails {workbuf : Option U32} (hfails : UpdateFails c e digest s) :
    ((updateRollback c digest e good workbuf s verified).good = none ∨
        (updateRollback c digest e good workbuf s verified).good = some 0) ∧
      storedMinimum c (updateRollback c digest e good workbuf s verified).state = storedMinimum c s := by
  obtain ⟨hdue, hsuccess, hdenied, hsame⟩ := hfails
  rw [updateRollback_due hdue]
  refine ⟨?_, ?_⟩
  · obtain hnone | hout := afterUpdate_failed (not_or.mpr ⟨hsuccess, hdenied⟩)
    · exact .inl hnone
    · rw [hout]
      exact .inr out_good
  · rw [← hsame, storedMinimum, storedMinimum, afterUpdate_rollback]

end

/-! ### Every image -/

variable (digest) in
theorem checked_verified (haccepts : Accepts c rsaVerify sha e s) (hoffset : OffsetAccepted c e) :
    (rwsigCheckSignature c rsaVerify digest sha e s).verified = [verification c rsaVerify sha e] := by
  obtain ⟨p, heq⟩ := eq_updateRollback digest haccepts hoffset
  rw [heq, updateRollback_verified]

variable (digest) in
/-- An image that is let through is refused with the work buffer given back and jumps disabled. -/
theorem checked_failed (haccepts : Accepts c rsaVerify sha e s) (hoffset : OffsetAccepted c e)
    (hfailed : (rwsigCheckSignature c rsaVerify digest sha e s).good = some 0) :
    (rwsigCheckSignature c rsaVerify digest sha e s).state.held = s.held ∧
      (e.locked = true → (rwsigCheckSignature c rsaVerify digest sha e s).state.disableJump = true) := by
  obtain ⟨p, heq⟩ := eq_updateRollback digest haccepts hoffset
  rw [heq] at hfailed ⊢
  obtain ⟨hheld, hjump⟩ := updateRollback_failed haccepts.verified hfailed
  exact ⟨hheld.trans (List.erase_cons_head p s.held), hjump⟩

theorem not_sound_of_misplaced (haccepts : Accepts c rsaVerify sha e s) (hmisplaced : Misplaced c (sigOffset c e).toNat)
    (hfails : ¬UpdateFails c e digest s) :
    ¬Sound c rsaVerify sha e s (rwsigCheckSignature c rsaVerify digest sha e s) := by
  intro hsound
  have hoffset : OffsetAccepted c e := offsetAccepted_iff.mpr (.inr hmisplaced)
  have hverified := checked_verified digest haccepts hoffset
  obtain ⟨p, heq⟩ := eq_updateRollback digest haccepts hoffset
  rw [heq] at hsound hverified
  refine (trusted_iff haccepts hoffset hverified).mp ?_ hmisplaced
  obtain hgood | hchanged := updateRollback_kept (s := { s with held := p :: s.held }) hfails
  · exact hsound.accepted _ hgood haccepts.verified
  · exact hsound.minimum hchanged

theorem sound_of_inPlace (haccepts : Accepts c rsaVerify sha e s) (hoffset : OffsetAccepted c e)
    (hplaced : ¬Misplaced c (sigOffset c e).toNat) :
    Sound c rsaVerify sha e s (rwsigCheckSignature c rsaVerify digest sha e s) := by
  have htrusted := (trusted_iff haccepts hoffset (checked_verified digest haccepts hoffset)).mpr hplaced
  refine ⟨fun _ _ _ => htrusted, fun _ => htrusted, ?_, ?_⟩
  · exact fun hfailed => (checked_failed digest haccepts hoffset hfailed).1
  · exact fun hfailed => (checked_failed digest haccepts hoffset hfailed).2

/-- A misplaced signature does no harm if the update of the rollback version fails. -/
theorem sound_of_updateFails (haccepts : Accepts c rsaVerify sha e s) (hoffset : OffsetAccepted c e)
    (hfails : UpdateFails c e digest s) : Sound c rsaVerify sha e s (rwsigCheckSignature c rsaVerify digest sha e s) := by
  have hfailed := checked_failed digest haccepts hoffset
  obtain ⟨p, heq⟩ := eq_updateRollback digest haccepts hoffset
  obtain ⟨hzero, hsame⟩ := updateRollback_fails (s := { s with held := p :: s.held }) hfails
  rw [heq] at hfailed ⊢
  refine ⟨?_, fun hchanged => absurd hsame hchanged, fun h => (hfailed h).1, fun h => (hfailed h).2⟩
  intro good hgood hnonzero
  rw [hgood] at hzero
  obtain hnone | hzero := hzero
  · cases hnone
  · exact absurd (Option.some_inj.mp hzero) hnonzero

variable (c rsaVerify sha e digest s)

/-- The check is sound if and only if it does not let an image through whose signature is misplaced. -/
theorem rwsig_sound_iff : Sound c rsaVerify sha e s (rwsigCheckSignature c rsaVerify digest sha e s) ↔
    ¬(Accepts c rsaVerify sha e s ∧ Misplaced c (sigOffset c e).toNat ∧ ¬UpdateFails c e digest s) := by
  constructor
  · rintro hsound ⟨haccepts, hmisplaced, hfails⟩
    exact not_sound_of_misplaced haccepts hmisplaced hfails hsound
  · intro hcondition
    by_cases hthrough : Accepts c rsaVerify sha e s ∧ OffsetAccepted c e
    · obtain ⟨haccepts, hoffset⟩ := hthrough
      by_cases hmisplaced : Misplaced c (sigOffset c e).toNat
      · refine sound_of_updateFails haccepts hoffset ?_
        by_contra hfails
        exact hcondition ⟨haccepts, hmisplaced, hfails⟩
      · exact sound_of_inPlace haccepts hoffset hmisplaced
    · exact (refused_of_not_accepts hthrough).sound

end

/-! ### A signature that begins in the header -/

/-- An image of 12 bytes, 8 of which are signed, and the area for the signature after it. -/
def exampleConfig : Config where
  mappedStorageBase := 0
  ecWritableStorageOff := 0x10000
  rwSigOff := 0x1000c
  roPubkeyOff := 0x8000
  programMemoryBase := 0x10000
  rwMemOff := 0
  rwSize := 1036
  rwSigSize := 1024
  rsaNumBytes := 256
  rollback := false
  flashProtectRw := false
  blocks := ⟨0, 0, false⟩
  sig_le := by decide
  rw_lt := by decide
  rsa_lt := by decide

/-- The headers of the key and of the signature, the image, and erased flash. The signature's offset is 36. -/
def exampleMem (p : U32) : UInt8 :=
  if 0x8000 ≤ p ∧ p < 0x8024 then
    [0x56, 0x62, 0x32, 0x50, 0, 0, 0, 0, 0, 0, 0, 0, 0, 0, 0, 0, 0, 0, 0, 0, 56, 0, 0, 0, 8, 2, 0, 0, 7, 0, 2, 0, 1, 0, 0,
      0].getD (p - 0x8000).toNat 0
  else if 0x1000c ≤ p ∧ p < 0x10030 then
    [0x56, 0x62, 0x32, 0x53, 0, 0, 0, 0, 0, 0, 0, 0, 0, 0, 0, 0, 0, 0, 0, 0, 36, 0, 0, 0, 0, 1, 0, 0, 8, 0, 0, 0, 7, 0, 2,
      0].getD (p - 0x1000c).toNat 0
  else if 0x10000 ≤ p ∧ p < 0x10008 then 0x20
  else 0xff

def exampleEnv : Env where
  mem := exampleMem
  rwRollbackVersion := 0
  works := Rollback.allWork
  workbuf := some 0x20000000
  locked := true
  protectRwNow := true
  update := Rollback.exampleEnv .done

def exampleState : State := ⟨fun _ _ => Rollback.ERASED, [], false⟩

/-- The signature of the image is what the 256 bytes from the offset on are. -/
def exampleRsa (_ sig _ : List UInt8) : Int := if sig = bytes exampleMem 0x10030 256 then 1 else 0

theorem exampleRsa_accepts (key hash : List UInt8) :
    exampleRsa key (bytes exampleEnv.mem 0x10030 exampleConfig.rsaNumBytes) hash ≠ 0 := by
  have hsig : bytes exampleEnv.mem 0x10030 exampleConfig.rsaNumBytes = bytes exampleMem 0x10030 256 := rfl
  rw [exampleRsa, if_pos hsig]
  decide

/-- The signature begins in the `id` of the header, and the image is accepted. -/
theorem signature_in_header_accepted :
    (sigOffset exampleConfig exampleEnv).toNat = 36 ∧
      ¬Sound exampleConfig exampleRsa VbootHash.software exampleEnv exampleState
        (rwsigCheckSignature exampleConfig exampleRsa (fun secret _ _ => secret) VbootHash.software
          exampleEnv exampleState) := by
  have hoffset : sigOffset exampleConfig exampleEnv = 36 := by decide
  have haccepts : Accepts exampleConfig exampleRsa VbootHash.software exampleEnv exampleState := by
    refine ⟨by decide, by simp [exampleConfig], by simp [exampleEnv], by decide, by decide, by decide, by decide, ?_⟩
    have hsig : exampleConfig.vb21Sig + sigOffset exampleConfig exampleEnv = 0x10030 := by decide
    rw [verification]
    simp only [hsig]
    exact exampleRsa_accepts _ _
  refine ⟨by rw [hoffset]; rfl, not_sound_of_misplaced haccepts ?_ ?_⟩
  · rw [hoffset]
    exact ⟨by decide, .inl ⟨by decide, by decide⟩⟩
  · rintro ⟨hdue, -⟩
    simp [updateDue, exampleConfig] at hdue

end ChromeEc.Rwsig
