import ChromeEc.UpdateFw.Model

/- Where the firmware updater writes.

  `Confined` says of a block header that the updater keeps to its section with
  it: a block that `check_update_chunk` accepts lies in the section or in the
  touchpad region, over the integers and not modulo `2 ^ 32`; every operation of
  the handler does; and a block that is turned down leaves flash alone.

  What is proved: this holds of a header exactly when the end of the block is
  below `2 ^ 32`, or its wrapped end still fails both address checks
  (`confined_iff_fits`). A block at the very end of the address space passes the
  check and is written there (`wrapped_block_not_confined`). -/
namespace ChromeEc.UpdateFw

/-- The bytes `[off, off + len)` lie in `[lo, hi)`. -/
def Inside (lo hi off len : Nat) : Prop := lo ≤ off ∧ off + len ≤ hi

def Section.Holds (sec : Section) (off len : Nat) : Prop :=
  Inside sec.baseOffset.toNat sec.topOffset.toNat off len

def Config.TouchpadHolds (cfg : Config) (off len : Nat) : Prop :=
  ∃ tp, cfg.touchpad = some tp ∧
    Inside tp.virtualOff.toNat (tp.virtualOff.toNat + tp.virtualSize.toNat) off len

/-- The operation stays in the section, or in the touchpad's memory. -/
def FlashOp.Within (cfg : Config) (sec : Section) : FlashOp → Prop
  | .erase offset size => sec.Holds offset.toNat size.toNat
  | .write offset data => sec.Holds offset.toNat data.length
  | .touchpad offset data =>
    ∃ tp, cfg.touchpad = some tp ∧ offset.toNat + data.length ≤ tp.virtualSize.toNat

/-- The codes with which a block is turned down before it is programmed. -/
def Rejected (r : Response) : Prop :=
  r = .code .genError ∨ r = .code .dataError ∨ r = .code .rollbackError ∨ r = .code .badAddr

section
variable (cfg : Config) (sha256 : List UInt8 → List UInt8)

/-- The updater keeps to its section with a block of `bodySize` bytes at
`blockBase`. -/
structure Confined (image : Image) (sec : Section) (blockBase bodySize : U32) : Prop where
  selected : sec = noSection ∨ otherSection cfg image = some sec
  accepted : ∀ env, (checkUpdateChunk cfg sec env blockBase bodySize).1 = .success →
    sec.Holds blockBase.toNat bodySize.toNat ∨ cfg.TouchpadHolds blockBase.toNat bodySize.toNat
  operations : ∀ env body, be32toh body 4 = blockBase →
    body.length = sizeofCommand + bodySize.toNat →
    ∀ op ∈ (fwUpdateCommandHandler cfg sha256 sec env body).2.1, op.Within cfg sec
  rejected : ∀ env body, Rejected (fwUpdateCommandHandler cfg sha256 sec env body).1 →
    (fwUpdateCommandHandler cfg sha256 sec env body).2.1 = []

/-- The end of the block is below `2 ^ 32`, or modulo `2 ^ 32` it still fails the
address checks. -/
def Fits (sec : Section) (blockBase bodySize : U32) : Prop :=
  blockBase.toNat + bodySize.toNat < 2 ^ 32 ∨
    (sec.baseOffset = sec.topOffset ∨ blockBase < sec.baseOffset ∨
      sec.topOffset.toNat < blockBase.toNat + bodySize.toNat - 2 ^ 32) ∧
    ∀ tp, cfg.touchpad = some tp → blockBase < tp.virtualOff ∨
      tp.virtualOff.toNat + tp.virtualSize.toNat < blockBase.toNat + bodySize.toNat - 2 ^ 32

end

variable {cfg : Config} {sha256 : List UInt8 → List UInt8}

/-! ## The section -/

theorem reachable_section {image : Image} {sec : Section} (h : Reachable cfg sha256 image sec) :
    sec = noSection ∨ otherSection cfg image = some sec := by
  induction h with
  | init => exact .inl rfl
  | @step sec env body h himg ih =>
    simp only [fwUpdateCommandHandler]
    split
    · exact ih
    split
    · -- A start request selects the section that is not running.
      simp only [fwUpdateStart, himg]
      cases hs : otherSection cfg image with
      | none => rw [hs] at ih; exact ih
      | some sec' => exact .inr rfl
    · exact ih

theorem otherSection_le {image : Image} {sec : Section} (h : otherSection cfg image = some sec) :
    sec.baseOffset.toNat ≤ sec.topOffset.toNat := by
  have hadd : ∀ x y : U32, x.toNat + y.toNat < 2 ^ 32 → x.toNat ≤ (x + y).toNat := by
    intro x y hxy
    rw [BitVec.toNat_add, Nat.mod_eq_of_lt hxy]
    omega
  cases image with
  | ro => cases h; exact hadd _ _ cfg.rwFits
  | rw => cases h; exact hadd _ _ cfg.roFits
  | other => cases h

theorem inSection_iff {sec : Section} {off size : U32} :
    inSection sec off size = true ↔ sec.baseOffset ≠ sec.topOffset ∧ sec.baseOffset ≤ off ∧
      (off.toNat + size.toNat) % 2 ^ 32 ≤ sec.topOffset.toNat := by
  simp only [inSection, Bool.and_eq_true, decide_eq_true_eq, and_assoc, BitVec.le_def,
    BitVec.toNat_add]

theorem isTouchpadBlock_iff {off size : U32} :
    isTouchpadBlock cfg off size = true ↔ ∃ tp, cfg.touchpad = some tp ∧ tp.virtualOff ≤ off ∧
      (off.toNat + size.toNat) % 2 ^ 32 ≤ tp.virtualOff.toNat + tp.virtualSize.toNat := by
  simp only [isTouchpadBlock]
  cases htp : cfg.touchpad with
  | none => simp
  | some tp =>
    simp only [Bool.and_eq_true, decide_eq_true_eq, BitVec.le_def, BitVec.toNat_add,
      Nat.mod_eq_of_lt tp.fits, Option.some.injEq, exists_eq_left']

/-! ## Headers that fit -/

section
variable {sec : Section} {off size : U32}

theorem holds_of_inSection (h : Fits cfg sec off size) (hin : inSection sec off size = true) :
    sec.Holds off.toNat size.toNat := by
  obtain ⟨hne, hbase, htop⟩ := inSection_iff.mp hin
  rw [BitVec.le_def] at hbase
  refine ⟨hbase, ?_⟩
  obtain hlt | ⟨hsec, -⟩ := h
  · rwa [Nat.mod_eq_of_lt hlt] at htop
  · obtain hs | hs | hs := hsec
    · exact absurd hs hne
    · rw [BitVec.lt_def] at hs
      omega
    · have := off.isLt
      have := size.isLt
      omega

theorem holds_of_isTouchpadBlock (h : Fits cfg sec off size)
    (hin : isTouchpadBlock cfg off size = true) : cfg.TouchpadHolds off.toNat size.toNat := by
  obtain ⟨tp, htp, hbase, htop⟩ := isTouchpadBlock_iff.mp hin
  rw [BitVec.le_def] at hbase
  refine ⟨tp, htp, hbase, ?_⟩
  obtain hlt | ⟨-, hall⟩ := h
  · rwa [Nat.mod_eq_of_lt hlt] at htop
  · obtain hs | hs := hall tp htp
    · rw [BitVec.lt_def] at hs
      omega
    · have := off.isLt
      have := size.isLt
      omega

theorem checkUpdateChunk_cases (env : Env) :
    (inSection sec off size = true ∧
      ((checkUpdateChunk cfg sec env off size).1 = .success ∨
        (checkUpdateChunk cfg sec env off size).1 = .eraseFailure) ∧
      ∀ op ∈ (checkUpdateChunk cfg sec env off size).2,
        op = .erase sec.baseOffset (sec.topOffset - sec.baseOffset)) ∨
    (inSection sec off size = false ∧ isTouchpadBlock cfg off size = true ∧
      checkUpdateChunk cfg sec env off size = (.success, [])) ∨
    (inSection sec off size = false ∧ isTouchpadBlock cfg off size = false ∧
      checkUpdateChunk cfg sec env off size = (.badAddr, [])) := by
  simp only [checkUpdateChunk]
  by_cases hin : inSection sec off size = true
  · refine .inl ⟨hin, ?_⟩
    rw [if_pos hin]
    split
    · split
      · exact ⟨.inl rfl, fun op hop => List.mem_singleton.mp hop⟩
      · exact ⟨.inr rfl, fun op hop => List.mem_singleton.mp hop⟩
    · exact ⟨.inl rfl, fun op hop => absurd hop List.not_mem_nil⟩
  · rw [if_neg hin]
    rw [Bool.not_eq_true] at hin
    by_cases htp : isTouchpadBlock cfg off size = true
    · exact .inr (.inl ⟨hin, htp, if_pos htp⟩)
    · rw [if_neg htp]
      rw [Bool.not_eq_true] at htp
      exact .inr (.inr ⟨hin, htp, rfl⟩)

theorem accepted_of_fits (h : Fits cfg sec off size) (env : Env)
    (hok : (checkUpdateChunk cfg sec env off size).1 = .success) :
    sec.Holds off.toNat size.toNat ∨ cfg.TouchpadHolds off.toNat size.toNat := by
  obtain ⟨hin, -⟩ | ⟨-, htp, -⟩ | ⟨-, -, heq⟩ := checkUpdateChunk_cases
    env
  · exact .inl (holds_of_inSection h hin)
  · exact .inr (holds_of_isTouchpadBlock h htp)
  · rw [heq] at hok
    cases hok

/-- Erasing is always confined: it is the whole section that is erased. -/
theorem erase_within {image : Image} (hsec : sec = noSection ∨ otherSection cfg image = some sec) :
    (FlashOp.erase sec.baseOffset (sec.topOffset - sec.baseOffset)).Within cfg sec := by
  have hle : sec.baseOffset.toNat ≤ sec.topOffset.toNat := by
    obtain rfl | hsec := hsec
    · exact Nat.le_refl _
    · exact otherSection_le hsec
  refine ⟨Nat.le_refl _, ?_⟩
  rw [BitVec.toNat_sub_of_le hle]
  omega

theorem checkUpdateChunk_within {image : Image} (off size : U32)
    (hsec : sec = noSection ∨ otherSection cfg image = some sec) (env : Env) :
    ∀ op ∈ (checkUpdateChunk cfg sec env off size).2, op.Within cfg sec := by
  intro op hop
  obtain ⟨-, -, hall⟩ | ⟨-, -, heq⟩ | ⟨-, -, heq⟩ := checkUpdateChunk_cases
    env
  · rw [hall op hop]
    exact erase_within hsec
  · rw [heq] at hop
    exact absurd hop List.not_mem_nil
  · rw [heq] at hop
    exact absurd hop List.not_mem_nil

theorem touchpad_within {tp : Touchpad} {data : List UInt8} (htp : cfg.touchpad = some tp)
    (h : cfg.TouchpadHolds off.toNat data.length) :
    (FlashOp.touchpad (off - tp.virtualOff) data).Within cfg sec := by
  obtain ⟨tp', htp', hlo, hhi⟩ := h
  rw [htp] at htp'
  cases htp'
  refine ⟨tp, htp, ?_⟩
  rw [BitVec.toNat_sub_of_le hlo]
  omega

/-- The operations of a handler that has passed the address check. -/
theorem programBlock_within {image : Image} {body : List UInt8}
    (hsec : sec = noSection ∨ otherSection cfg image = some sec) (h : Fits cfg sec off size)
    (hoff : be32toh body 4 = off) (hlen : body.length = sizeofCommand + size.toNat) (env : Env) :
    ∀ op ∈ (programBlock cfg sha256 sec env body).2, op.Within cfg sec := by
  have hsize : BitVec.ofNat 32 (body.length - sizeofCommand) = size := by
    rw [hlen, Nat.add_sub_cancel_left, BitVec.ofNat_toNat, BitVec.setWidth_eq]
  have hdata : (body.drop sizeofCommand).length = size.toNat := by
    rw [List.length_drop, hlen, Nat.add_sub_cancel_left]
  have hcheck := checkUpdateChunk_within off size hsec env
  simp only [programBlock, hsize, hoff]
  split
  · intro op hop
    exact absurd hop List.not_mem_nil
  split
  · intro op hop
    exact absurd hop List.not_mem_nil
  split
  · exact hcheck
  rename_i hok
  rw [not_not] at hok
  split
  · exact hcheck
  -- A block that is not the touchpad's was accepted for the section.
  have hwrite : isTouchpadBlock cfg off size = false →
      (FlashOp.write off (body.drop sizeofCommand)).Within cfg sec := by
    intro hno
    show sec.Holds off.toNat (body.drop sizeofCommand).length
    rw [hdata]
    obtain ⟨hin, -⟩ | ⟨-, htp, -⟩ | ⟨-, -, heq⟩ := checkUpdateChunk_cases
      env
    · exact holds_of_inSection h hin
    · rw [hno] at htp
      cases htp
    · rw [heq] at hok
      cases hok
  have hafter : ∀ {op : FlashOp}, op.Within cfg sec → ∀ op' ∈ (checkUpdateChunk cfg sec env off size).2 ++ [op],
      op'.Within cfg sec := by
    intro op hop op' hop'
    obtain hop' | hop' := List.mem_append.mp hop'
    · exact hcheck op' hop'
    · exact List.mem_singleton.mp hop' ▸ hop
  cases htp : cfg.touchpad with
  | none =>
    have hno : isTouchpadBlock cfg off size = false := by simp only [isTouchpadBlock, htp]
    exact hafter (hwrite hno)
  | some tp =>
    dsimp only
    split
    · rename_i hyes
      apply hafter
      apply touchpad_within htp
      rw [hdata]
      exact holds_of_isTouchpadBlock h hyes
    · rename_i hno
      rw [Bool.not_eq_true] at hno
      exact hafter (hwrite hno)

theorem handler_within {image : Image} {body : List UInt8}
    (hsec : sec = noSection ∨ otherSection cfg image = some sec) (h : Fits cfg sec off size)
    (hoff : be32toh body 4 = off) (hlen : body.length = sizeofCommand + size.toNat) (env : Env) :
    ∀ op ∈ (fwUpdateCommandHandler cfg sha256 sec env body).2.1, op.Within cfg sec := by
  simp only [fwUpdateCommandHandler]
  split
  · intro op hop
    exact absurd hop List.not_mem_nil
  split
  · intro op hop
    exact absurd hop List.not_mem_nil
  · exact programBlock_within hsec h hoff hlen env

end

/-! ## Blocks that are turned down -/

theorem programBlock_rejected {sec : Section} {env : Env} {body : List UInt8}
    (h : Rejected (.code (programBlock cfg sha256 sec env body).1)) :
    (programBlock cfg sha256 sec env body).2 = [] := by
  have hcode : ∀ c, Rejected (.code c) → c ≠ .success ∧ c ≠ .eraseFailure ∧ c ≠ .writeFailure ∧
      c ≠ .verifyError := by
    intro c hc
    unfold Rejected at hc
    cases c <;> simp at hc ⊢
  have hprog : ∀ (b : Bool) (c : Code), c ≠ .success → c ≠ .writeFailure → c ≠ .verifyError →
      (if env.writeWorks then (if env.verifyWorks then Code.success else .verifyError)
        else .writeFailure) ≠ c ∧ (if b then Code.success else .writeFailure) ≠ c := by
    intro b c h₁ h₂ h₃
    constructor
    · split
      · split
        · exact h₁.symm
        · exact h₃.symm
      · exact h₂.symm
    · split
      · exact h₁.symm
      · exact h₂.symm
  obtain ⟨h₁, h₂, h₃, h₄⟩ := hcode _ h
  obtain ⟨h₅, h₆⟩ := hprog env.touchpadWorks _ h₁ h₃ h₄
  simp only [programBlock] at h₁ h₂ h₅ h₆ ⊢
  split
  · rfl
  rename_i hvalid
  rw [if_neg hvalid] at h₁ h₂ h₅ h₆
  split
  · rfl
  rename_i hallowed
  rw [if_neg hallowed] at h₁ h₂ h₅ h₆
  split
  · -- Turned down by the address check, since the erase did not fail.
    rename_i hfail
    rw [if_pos hfail] at h₂
    obtain ⟨-, hc, -⟩ | ⟨-, -, heq⟩ | ⟨-, -, heq⟩ := checkUpdateChunk_cases

      env
    · obtain hc | hc := hc
      · exact absurd hc hfail
      · exact absurd hc h₂
    · rw [heq]
    · rw [heq]
  · rename_i hok
    rw [if_neg hok, chunkCameTooSoon, if_neg Bool.false_ne_true] at h₅ h₆
    exfalso
    cases htp : cfg.touchpad with
    | none =>
      rw [htp] at h₅
      exact h₅ rfl
    | some tp =>
      rw [htp] at h₅ h₆
      dsimp only at h₅ h₆
      by_cases hyes : isTouchpadBlock cfg (be32toh body 4)
          (BitVec.ofNat 32 (body.length - sizeofCommand)) = true
      · rw [if_pos hyes] at h₆
        exact h₆ rfl
      · rw [if_neg hyes] at h₅
        exact h₅ rfl

theorem handler_rejected {sec : Section} {env : Env} {body : List UInt8}
    (h : Rejected (fwUpdateCommandHandler cfg sha256 sec env body).1) :
    (fwUpdateCommandHandler cfg sha256 sec env body).2.1 = [] := by
  simp only [fwUpdateCommandHandler] at h ⊢
  split
  · rfl
  rename_i hshort
  rw [if_neg hshort] at h
  split
  · rfl
  rename_i hstart
  rw [if_neg hstart] at h
  exact programBlock_rejected h

/-! ## The condition is exact -/

/-- **Where the updater keeps to its section.** In every reachable state and for
every header, the updater is confined exactly when the header fits. -/
theorem confined_iff_fits {image : Image} {sec : Section} (h : Reachable cfg sha256 image sec)
    (blockBase bodySize : U32) :
    Confined cfg sha256 image sec blockBase bodySize ↔ Fits cfg sec blockBase bodySize := by
  have hsec := reachable_section h
  constructor
  · intro hc
    by_contra hfits
    -- The end wraps and passes one of the checks, so the block is accepted.
    have hbig : 2 ^ 32 ≤ blockBase.toNat + bodySize.toNat := by
      by_contra hlt
      exact hfits (.inl (by omega))
    have hmod : (blockBase.toNat + bodySize.toNat) % 2 ^ 32 =
        blockBase.toNat + bodySize.toNat - 2 ^ 32 := by
      have := blockBase.isLt
      have := bodySize.isLt
      omega
    have henv : ∃ env : Env, env.eraseWorks = true :=
      ⟨⟨image, 0, none, 0, 0, false, true, true, true, true⟩, rfl⟩
    obtain ⟨env, henv⟩ := henv
    have hok : (checkUpdateChunk cfg sec env blockBase bodySize).1 = .success := by
      simp only [checkUpdateChunk, henv]
      split
      · split <;> rfl
      · rename_i hin
        split
        · rfl
        · rename_i htp
          exfalso
          apply hfits
          rw [inSection_iff, hmod] at hin
          rw [isTouchpadBlock_iff, hmod] at htp
          refine .inr ⟨?_, ?_⟩
          · rw [BitVec.lt_def]
            rw [BitVec.le_def] at hin
            by_cases he : sec.baseOffset = sec.topOffset
            · exact .inl he
            · by_cases hb : blockBase.toNat < sec.baseOffset.toNat
              · exact .inr (.inl hb)
              · refine .inr (.inr ?_)
                by_contra ht
                exact hin ⟨he, by omega, by omega⟩
          · intro tp hcfg
            rw [BitVec.lt_def]
            by_contra ht
            rw [not_or] at ht
            refine htp ⟨tp, hcfg, ?_, by omega⟩
            rw [BitVec.le_def]
            omega
    obtain ⟨-, htop⟩ | ⟨tp, -, -, htop⟩ := hc.accepted env hok
    · have := sec.topOffset.isLt
      omega
    · have := tp.fits
      omega
  · intro hfits
    exact ⟨hsec, fun env hok => accepted_of_fits hfits env hok,
      fun env body hoff hlen => handler_within hsec hfits hoff hlen env,
      fun env body hr => handler_rejected hr⟩

/-- A board whose RW section is the upper half of 128 KiB of flash. -/
def exampleConfig : Config where
  roMemOff := 0
  roSize := 0x10000
  rwMemOff := 0x10000
  rwSize := 0x10000
  pduSize := 1024
  sha256Enabled := false
  touchpad := none
  roFits := by decide
  rwFits := by decide

/-- RO is running, and every operation works. -/
def exampleEnv : Env := ⟨.ro, 0, none, 0, 0, false, true, true, true, true⟩

/-- The section after a start request: the eight bytes of a command, all 0. -/
def exampleSection : Section := ⟨0x10000, 0x20000⟩

theorem reachable_exampleSection :
    Reachable exampleConfig (fun _ => []) .ro exampleSection :=
  .step exampleEnv (List.replicate 8 0) .init rfl

/-- A block in the middle of the section fits. -/
theorem confined_iff_fits_example :
    Fits exampleConfig exampleSection 0x10400 1024 ∧
      Confined exampleConfig (fun _ => []) .ro exampleSection 0x10400 1024 := by
  have h : Fits exampleConfig exampleSection 0x10400 1024 := .inl (by decide)
  exact ⟨h, (confined_iff_fits reachable_exampleSection 0x10400 1024).mpr h⟩

/-- A block of 32 bytes at `0xfffffff0` passes the check and is written there. -/
theorem wrapped_block_not_confined :
    Reachable exampleConfig (fun _ => []) .ro exampleSection ∧
      (fwUpdateCommandHandler exampleConfig (fun _ => []) exampleSection exampleEnv
        ([0, 0, 0, 0, 0xff, 0xff, 0xff, 0xf0] ++ List.replicate 32 0)).2.1 =
          [.write 0xfffffff0 (List.replicate 32 0)] ∧
      ¬Confined exampleConfig (fun _ => []) .ro exampleSection 0xfffffff0 32 := by
  refine ⟨.step exampleEnv (List.replicate 8 0) .init rfl, by decide, ?_⟩
  intro h
  have hacc := h.accepted exampleEnv (by decide)
  obtain ⟨-, htop⟩ | ⟨tp, htp, -⟩ := hacc
  · exact absurd htop (by decide)
  · cases htp

end ChromeEc.UpdateFw
