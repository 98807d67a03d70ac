import ChromeEc.VbootHash.Sha256

/- What a verified boot hash is the hash of.

  As long as a calculation is not to be aborted, the context has been given the nonce and
  then the bytes of flash up to the current position, each once, as they still are
  (`Partly`): a write or an erase asks for an abort first. So the digest of a calculation
  that ends without one is that of the whole region (`Whole`), and a later write that
  reaches the region invalidates it.

  One thing breaks this. `hash_next_chunk` does not pass on that the temporary buffer was
  busy, so the position moves on past a chunk that was not hashed, and the call that was to
  try again comes after the hash is finished. Every step but that one keeps the invariant
  (`step_sound`). -/
namespace ChromeEc.VbootHash
open ChromeEc.Lib ChromeEc.Lib.Memory ChromeEc.Lib.Steps ChromeEc.Flash

variable {c : Config} {sha : Sha256} {s s' : State sha} {env : Env c} {m m' : Image}

/-- The bytes a hash is made of: mapped storage is read as it is, other storage with
`crec_flash_read`, which shows the CBI section as 0xff. -/
def visible (c : Config) (m : Image) (a : Nat) : UInt8 :=
  if c.mapped then m a else if c.cbiOffset ≤ a ∧ a < c.cbiEnd then 0xff else m a

/-- A region as it is `visible`: unless flash is mapped, the CBI section in it counts as 0xff. -/
def contents (c : Config) (m : Image) (offset size : Nat) : List UInt8 := read (visible c m) offset size

theorem visible_congr {a : Nat} (h : m' a = m a) : visible c m' a = visible c m a := by
  simp only [visible, h]

/-! ## The invariant -/

structure Partly (c : Config) (s : State sha) : Prop where
  fits : s.dataOffset.toNat + s.dataSize.toNat ≤ c.flashSize
  pos : s.currPos.toNat ≤ s.dataSize.toNat
  once : s.hashed = List.range' s.dataOffset.toNat s.currPos.toNat
  fed : ∃ parts : List (List UInt8), s.ctx = parts.foldl sha.update sha.init ∧
    parts.flatten = s.nonce ++ contents c s.flash s.dataOffset.toNat s.currPos.toNat

structure Whole (c : Config) (s : State sha) : Prop where
  fits : s.dataOffset.toNat + s.dataSize.toNat ≤ c.flashSize
  once : s.hashed = List.range' s.dataOffset.toNat s.dataSize.toNat
  digest : sha.buf s.ctx = sha.sha256 (s.nonce ++ contents c s.flash s.dataOffset.toNat s.dataSize.toNat)

structure Sound (c : Config) (s : State sha) : Prop where
  deferred : s.deferred = true → s.inProgress = true ∧ s.blocking = false
  blocking : s.blocking = true → s.inProgress = true
  partly : s.inProgress = true → s.wantAbort = false → Partly c s
  whole : s.inProgress = false → s.hash = true → s.wantAbort = false → Whole c s

theorem sound_initial {flash : Image} {ctx : sha.Ctx} : Sound c (initial flash ctx : State sha) where
  deferred h := Bool.noConfusion h
  blocking h := Bool.noConfusion h
  partly h := Bool.noConfusion h
  whole _ h := Bool.noConfusion h

/-! ## Aborts -/

theorem abort_of_inProgress (h : s.inProgress = true) : vbootHashAbort s = { s with wantAbort := true } := by
  unfold vbootHashAbort
  exact if_pos h

theorem abort_of_idle (h : s.inProgress = false) :
    vbootHashAbort s = { s with wantAbort := false, dataSize := 0, hash := false } := by
  unfold vbootHashAbort
  exact if_neg (h.symm ▸ Bool.false_ne_true)

theorem Sound.abort (h : Sound c s) : Sound c (vbootHashAbort s) := by
  cases hp : s.inProgress with
  | true =>
    rw [abort_of_inProgress hp]
    exact ⟨h.deferred, h.blocking, fun _ hw => Bool.noConfusion hw, fun _ _ hw => Bool.noConfusion hw⟩
  | false =>
    rw [abort_of_idle hp]
    refine ⟨h.deferred, h.blocking, fun hrun => ?_, fun _ hh => Bool.noConfusion hh⟩
    rw [hp] at hrun
    cases hrun

/-! ## Chunks -/

/-- A nonempty chunk of unmapped storage finds the temporary buffer busy. -/
def FindsBusy (c : Config) (env : Env c) (s : State sha) : Prop :=
  c.mapped = false ∧ chunkSize s ≠ 0 ∧ env.scratch = .busy

structure Kept (s s' : State sha) : Prop where
  inProgress : s'.inProgress = true
  deferred : s'.deferred = s.deferred
  blocking : s'.blocking = s.blocking
  wantAbort : s.wantAbort = true → s'.wantAbort = true

theorem offset_toNat (h : Partly c s) : (s.dataOffset + s.currPos).toNat = s.dataOffset.toNat + s.currPos.toNat := by
  have hsize := c.sizeFits
  have hfits := h.fits
  have hpos := h.pos
  rw [BitVec.toNat_add, Nat.mod_eq_of_lt (by omega)]

theorem chunkSize_le (h : Partly c s) : s.currPos.toNat + chunkSize s ≤ s.dataSize.toNat := by
  have hsub : (s.dataSize - s.currPos).toNat = s.dataSize.toNat - s.currPos.toNat := BitVec.toNat_sub_of_le h.pos
  have hpos := h.pos
  unfold chunkSize
  rw [hsub]
  omega

theorem advance_toNat (h : Partly c s) :
    (s.currPos + BitVec.ofNat 32 (chunkSize s)).toNat = s.currPos.toNat + chunkSize s := by
  have hlt := s.dataSize.isLt
  have hle := chunkSize_le h
  rw [BitVec.toNat_add, BitVec.toNat_ofNat, Nat.mod_eq_of_lt (a := chunkSize s) (by omega), Nat.mod_eq_of_lt (by omega)]

theorem length_contents {o n : Nat} : (contents c m o n).length = n := length_read

theorem read_shown {o n : Nat} {buffer : Nat → UInt8} (hmapped : c.mapped = false) :
    read (shown c m o n buffer) 0 n = contents c m o n := by
  apply List.map_congr_left
  intro i hi
  have hlt : i < n := List.mem_range.mp hi
  simp only [shown, visible, hmapped, Nat.zero_add, hlt, if_true, Bool.false_eq_true, if_false]

theorem hashNextChunk_kept (hp : s.inProgress = true) (hbusy : ¬FindsBusy c env s) :
    Kept s (hashNextChunk c env s (chunkSize s)) := by
  have hfeed : ∀ o bytes, Kept s (feed s o bytes) := fun _ _ => ⟨hp, rfl, rfl, id⟩
  have habort : Kept s (vbootHashAbort s) := by
    rw [abort_of_inProgress hp]
    exact ⟨hp, rfl, rfl, fun _ => rfl⟩
  unfold hashNextChunk
  cases hmapped : c.mapped with
  | true => exact hfeed _ _
  | false =>
    simp only [Bool.false_eq_true, if_false, readAndHashChunk]
    split
    · exact ⟨hp, rfl, rfl, id⟩
    · rename_i hsize
      cases hscratch : env.scratch with
      | busy => exact absurd ⟨hmapped, hsize, hscratch⟩ hbusy
      | failed => exact habort
      | acquired buffer =>
        dsimp only
        split
        · exact hfeed _ _
        · exact habort

/-- The next chunk is hashed, unless there is none or the calculation is to be aborted. -/
theorem hashNextChunk_cases (h : Partly c s) (hp : s.inProgress = true) (hbusy : ¬FindsBusy c env s) :
    hashNextChunk c env s (chunkSize s) =
        feed s (s.dataOffset.toNat + s.currPos.toNat)
          (contents c s.flash (s.dataOffset.toNat + s.currPos.toNat) (chunkSize s)) ∨
      (chunkSize s = 0 ∧ hashNextChunk c env s (chunkSize s) = s) ∨
      (hashNextChunk c env s (chunkSize s)).wantAbort = true := by
  have habort : (vbootHashAbort s).wantAbort = true := by rw [abort_of_inProgress hp]
  have hoffset := offset_toNat h
  have hend := chunkSize_le h
  have hfits := h.fits
  have hflash := c.sizeFits
  unfold hashNextChunk
  cases hmapped : c.mapped with
  | true =>
    left
    have hcontents : read s.flash (s.dataOffset + s.currPos).toNat (chunkSize s) =
        contents c s.flash (s.dataOffset.toNat + s.currPos.toNat) (chunkSize s) := by
      rw [hoffset]
      apply List.map_congr_left
      intro i _
      simp only [visible, hmapped, if_true]
    rw [if_pos rfl, hcontents, hoffset]
  | false =>
    have hint : (s.dataOffset + s.currPos).toInt = (s.dataOffset.toNat + s.currPos.toNat : Nat) := by
      rw [BitVec.toInt_eq_toNat_of_lt (by omega), hoffset]
    simp only [Bool.false_eq_true, if_false, readAndHashChunk, hint]
    split
    · exact Or.inr (Or.inl ⟨‹_›, rfl⟩)
    · rename_i hsize
      cases hscratch : env.scratch with
      | busy => exact absurd ⟨hmapped, hsize, hscratch⟩ hbusy
      | failed => exact Or.inr (Or.inr habort)
      | acquired buffer =>
        have hrange : Fits c 1 (s.dataOffset.toNat + s.currPos.toNat) (chunkSize s) :=
          ⟨Nat.one_dvd _, Nat.one_dvd _, by omega⟩
        simp only [crecFlashRead_of_fits hrange, hmapped, Bool.false_eq_true, if_false]
        cases env.chip.read (s.dataOffset.toNat + s.currPos.toNat : Nat) (chunkSize s) with
        | error e => exact Or.inr (Or.inr habort)
        | ok u =>
          left
          simp only [Except.map, Int.toNat_natCast, read_shown hmapped]

theorem advance_eq :
    advance c env s =
      { hashNextChunk c env s (chunkSize s) with
        currPos := (hashNextChunk c env s (chunkSize s)).currPos + BitVec.ofNat 32 (chunkSize s) } := rfl

theorem advance_kept (hp : s.inProgress = true) (hbusy : ¬FindsBusy c env s) : Kept s (advance c env s) :=
  have h := hashNextChunk_kept hp hbusy
  ⟨h.inProgress, h.deferred, h.blocking, h.wantAbort⟩

theorem advance_partly (h : Partly c s) (hp : s.inProgress = true) (hbusy : ¬FindsBusy c env s)
    (hw : (advance c env s).wantAbort = false) : Partly c (advance c env s) := by
  have hpos := advance_toNat h
  have hend := chunkSize_le h
  obtain ⟨parts, hctx, hflat⟩ := h.fed
  rw [advance_eq] at hw ⊢
  rcases hashNextChunk_cases h hp hbusy with hfed | ⟨hzero, hsame⟩ | habort
  · rw [hfed]
    refine ⟨h.fits, ?_, ?_, parts ++ [contents c s.flash (s.dataOffset.toNat + s.currPos.toNat) (chunkSize s)], ?_, ?_⟩
    · exact hpos.trans_le hend
    · simp only [feed, length_contents, hpos]
      rw [h.once, List.range'_append_1]
    · simp only [feed, List.foldl_append, hctx, List.foldl_cons, List.foldl_nil]
    · simp only [feed, hpos, List.flatten_append, hflat, List.flatten_cons, List.flatten_nil, List.append_nil,
        List.append_assoc]
      rw [contents, contents, contents, read_add]
  · rw [hsame, hzero]
    exact ⟨h.fits, by simpa using h.pos, by simpa using h.once, parts, hctx, by simpa using hflat⟩
  · rw [habort] at hw
    cases hw

/-! ## The end of a calculation -/

theorem Partly.finish (h : Partly c s) (hend : s.dataSize ≤ s.currPos) : Whole c (finish s) := by
  have hpos : s.currPos.toNat = s.dataSize.toNat := Nat.le_antisymm h.pos hend
  obtain ⟨parts, hctx, hflat⟩ := h.fed
  have honce : s.hashed = List.range' s.dataOffset.toNat s.dataSize.toNat := by
    rw [← hpos]
    exact h.once
  have hdigest : sha.buf (sha.final s.ctx) =
      sha.sha256 (s.nonce ++ contents c s.flash s.dataOffset.toNat s.dataSize.toNat) := by
    rw [hctx, sha.correct, hflat, hpos]
  exact ⟨h.fits, honce, hdigest⟩

theorem nextChunk_sound (hp : s.inProgress = true) (hd : s.deferred = false) (hb : s.blocking = false)
    (hpartly : s.wantAbort = false → Partly c s) (hbusy : s.wantAbort = false → ¬FindsBusy c env s) :
    Sound c (vbootHashNextChunk c env s) := by
  unfold vbootHashNextChunk
  split
  · rw [abort_of_idle rfl]
    refine ⟨fun hd' => ?_, fun hb' => ?_, fun hp' => Bool.noConfusion hp', fun _ hh => Bool.noConfusion hh⟩
    · exact absurd hd' (Bool.eq_false_iff.mp hd)
    · exact absurd hb' (Bool.eq_false_iff.mp hb)
  · rename_i hw
    have hw : s.wantAbort = false := Bool.eq_false_iff.mpr hw
    have hkept := advance_kept hp (hbusy hw)
    have hnext := advance_partly (hpartly hw) hp (hbusy hw)
    dsimp only
    generalize advance c env s = s₁ at hkept hnext
    have hblocking : s₁.blocking = false := hkept.blocking.trans hb
    have hdeferred : s₁.deferred = false := hkept.deferred.trans hd
    split
    · rename_i hend
      split
      · rw [abort_of_idle rfl]
        refine ⟨fun hd' => ?_, fun hb' => ?_, fun hp' => Bool.noConfusion hp', fun _ hh => Bool.noConfusion hh⟩
        · exact absurd hd' (Bool.eq_false_iff.mp hdeferred)
        · exact absurd hb' (Bool.eq_false_iff.mp hblocking)
      · refine ⟨fun hd' => ?_, fun hb' => ?_, fun hp' => Bool.noConfusion hp', fun _ _ hw' => ?_⟩
        · exact absurd hd' (Bool.eq_false_iff.mp hdeferred)
        · exact absurd hb' (Bool.eq_false_iff.mp hblocking)
        · exact (hnext hw').finish hend
    · refine ⟨fun _ => ⟨hkept.inProgress, hblocking⟩, fun _ => hkept.inProgress, fun _ hw' => ?_, fun hp' => ?_⟩
      · have hrun := hnext hw'
        exact ⟨hrun.fits, hrun.pos, hrun.once, hrun.fed⟩
      · exact absurd hkept.inProgress (Bool.eq_false_iff.mp hp')

theorem Sound.nextChunk (h : Sound c s) (hd : s.deferred = true)
    (hbusy : s.wantAbort = false → ¬FindsBusy c env s) :
    Sound c (vbootHashNextChunk c env { s with deferred := false }) := by
  obtain ⟨hp, hb⟩ := h.deferred hd
  refine nextChunk_sound hp rfl hb (fun hw => ?_) hbusy
  have hrun := h.partly hp hw
  exact ⟨hrun.fits, hrun.pos, hrun.once, hrun.fed⟩

theorem Sound.allChunks (h : Sound c s) (hb : s.blocking = true) (hbusy : ¬FindsBusy c env s) :
    Sound c (vbootHashAllChunks c env s) := by
  have hp := h.blocking hb
  have hd : s.deferred = false := by
    rw [Bool.eq_false_iff]
    intro hd
    exact absurd hb (Bool.eq_false_iff.mp (h.deferred hd).2)
  have hkept := advance_kept hp hbusy
  have hnext : (advance c env s).wantAbort = false → Partly c (advance c env s) := by
    intro hw
    have hw' : s.wantAbort = false := by
      rw [Bool.eq_false_iff] at hw ⊢
      exact fun hw' => hw (hkept.wantAbort hw')
    exact advance_partly (h.partly hp hw') hp hbusy hw
  unfold vbootHashAllChunks
  dsimp only
  generalize advance c env s = s₁ at hkept hnext
  have hdeferred : s₁.deferred = false := hkept.deferred.trans hd
  split
  · refine ⟨fun hd' => ?_, fun _ => hkept.inProgress, fun _ => hnext, fun hp' => ?_⟩
    · exact absurd hd' (Bool.eq_false_iff.mp hdeferred)
    · exact absurd hkept.inProgress (Bool.eq_false_iff.mp hp')
  · rename_i hend
    refine ⟨fun hd' => ?_, fun hb' => Bool.noConfusion hb', fun hp' => Bool.noConfusion hp', fun _ _ hw => ?_⟩
    · exact absurd hd' (Bool.eq_false_iff.mp hdeferred)
    · have hwhole := (hnext hw).finish (Nat.le_of_not_lt hend)
      exact ⟨hwhole.fits, hwhole.once, hwhole.digest⟩

/-! ## Starts -/

theorem Sound.start {offset size : U32} {nonce : Nat → UInt8} {nonceSize : Int} {deferred : Bool} (h : Sound c s) :
    Sound c (vbootHashStart c s offset size nonce nonceSize deferred).2 := by
  unfold vbootHashStart
  split
  · exact h
  · rename_i hp
    split
    · exact h
    · rename_i hrange
      have hd : s.deferred = false := Bool.eq_false_iff.mpr fun hd => hp (h.deferred hd).1
      have hb : s.blocking = false := Bool.eq_false_iff.mpr fun hb => hp (h.blocking hb)
      have hflash := c.sizeFits
      have hfits : offset.toNat + size.toNat ≤ c.flashSize := by
        have hsum : (offset + size).toNat = offset.toNat + size.toNat := by
          rw [BitVec.toNat_add, Nat.mod_eq_of_lt (by omega)]
        omega
      -- the nonce is one part, or none if it is empty
      have hfed : ∃ parts : List (List UInt8),
          (if nonceSize ≠ 0 then sha.update sha.init (read nonce 0 nonceSize.toNat) else sha.init) =
              parts.foldl sha.update sha.init ∧
            parts.flatten = read nonce 0 nonceSize.toNat ++ contents c s.flash offset.toNat 0 := by
        by_cases hn : nonceSize = 0
        · refine ⟨[], ?_, ?_⟩
          · rw [if_neg (not_not.mpr hn)]
            rfl
          · rw [hn]
            rfl
        · refine ⟨[read nonce 0 nonceSize.toNat], ?_, ?_⟩
          · rw [if_pos hn]
            rfl
          · simp only [List.flatten_cons, List.flatten_nil]
            rfl
      dsimp only
      split
      · exact ⟨fun _ => ⟨rfl, hb⟩, fun _ => rfl, fun _ _ => ⟨hfits, Nat.zero_le _, rfl, hfed⟩,
          fun hp' => Bool.noConfusion hp'⟩
      · refine ⟨fun hd' => ?_, fun _ => rfl, fun _ _ => ⟨hfits, Nat.zero_le _, rfl, hfed⟩, fun hp' => Bool.noConfusion hp'⟩
        exact absurd hd' (Bool.eq_false_iff.mp hd)

theorem Sound.host {im : Images} {p : Params} (h : Sound c s) : Sound c (hostCommandVbootHash c im s p).2 := by
  have hstart : Sound c (hostStartHash c im s p).2 := by
    unfold hostStartHash
    split
    · exact h
    · split
      · exact h
      · dsimp only
        have hany : ∀ size, Sound c (vbootHashStart c s (getOffset im p.offset) size p.nonceData p.nonceSize true).2 :=
          fun _ => h.start
        split
        all_goals
          rename_i heq
          exact congrArg Prod.snd heq ▸ hany _
  unfold hostCommandVbootHash
  split
  · exact h
  · exact h.abort
  · split
    all_goals
      rename_i heq
      rw [heq] at hstart
      exact hstart
  · split
    all_goals
      rename_i heq
      rw [heq] at hstart
      exact hstart
  · exact h

/-! ## Writes and erases -/

theorem Whole.same (h : Whole c s)
    (hsame : ∀ a, s.dataOffset.toNat ≤ a → a < s.dataOffset.toNat + s.dataSize.toNat → m' a = s.flash a) :
    Whole c { s with flash := m' } := by
  have hcontents : contents c m' s.dataOffset.toNat s.dataSize.toNat =
      contents c s.flash s.dataOffset.toNat s.dataSize.toNat :=
    read_congr fun a hlo hhi => visible_congr (hsame a hlo hhi)
  exact ⟨h.fits, h.once, h.digest.trans (by rw [hcontents])⟩

theorem Sound.changed {offset size : Int} (h : Sound c s)
    (hrange : ∀ a, m' a ≠ s.flash a → 0 ≤ offset ∧ offset ≤ a ∧ a < offset + size) :
    Sound c { flashAbortOrInvalidateHash s offset size with flash := m' } := by
  unfold flashAbortOrInvalidateHash
  split
  · rename_i hp
    rw [abort_of_inProgress hp]
    exact ⟨h.deferred, h.blocking, fun _ hw => Bool.noConfusion hw, fun _ _ hw => Bool.noConfusion hw⟩
  · rename_i hp
    -- a calculation that is not under way has only its result to lose
    have hidle : (s.hash = true → s.wantAbort = false → Whole c { s with flash := m' }) →
        Sound c { s with flash := m' } := fun hwhole =>
      ⟨h.deferred, h.blocking, fun hp' => absurd hp' hp, fun _ => hwhole⟩
    have hpf : s.inProgress = false := Bool.eq_false_iff.mpr hp
    unfold vbootHashInvalidate
    split
    · rename_i hrefused
      refine hidle fun hh hw => (h.whole hpf hh hw).same fun a _ _ => ?_
      by_contra hne
      have hin := hrange a hne
      omega
    · split
      · rename_i hh
        refine hidle fun hh' => ?_
        rw [hh'] at hh
        exact Bool.noConfusion hh
      · split
        · rename_i hapart
          refine hidle fun hh hw => ?_
          have hwhole := h.whole hpf hh hw
          have hflash := c.sizeFits
          have hfits := hwhole.fits
          have hsum : (s.dataOffset + s.dataSize).toNat = s.dataOffset.toNat + s.dataSize.toNat := by
            rw [BitVec.toNat_add, Nat.mod_eq_of_lt (by omega)]
          refine hwhole.same fun a hlo hhi => ?_
          by_contra hne
          have hin := hrange a hne
          omega
        · rw [abort_of_idle hpf]
          exact ⟨h.deferred, h.blocking, fun hp' => absurd hp' hp, fun _ hh => Bool.noConfusion hh⟩

theorem Sound.write {chip : Chip c} {offset size : Int} {data : Data} (h : Sound c s) :
    Sound c (flashWrite c chip s offset size data) := by
  unfold flashWrite
  split
  · exact h.changed fun a hne => crecFlashWrite_keeps hne
  · exact h

theorem Sound.erase {chip : Chip c} {offset size : Int} (h : Sound c s) : Sound c (flashErase c chip s offset size) := by
  unfold flashErase
  split
  · exact h.changed fun a hne => crecFlashErase_keeps hne
  · exact h

/-! ## Runs -/

/-- A step whose chunk, if it has one, does not find the temporary buffer busy. -/
def Served (c : Config) (x : State sha × Action c) : Prop :=
  match x.2 with
  | .deferredCall env => x.1.wantAbort = false → ¬FindsBusy c env x.1
  | .blockingTurn env => ¬FindsBusy c env x.1
  | _ => True

theorem step_sound (s : State sha) (a : Action c) (s' : State sha) (h : Sound c s) (hserved : Served c (s, a))
    (hstep : step c a s = some s') : Sound c s' := by
  cases a with
  | start offset size nonce nonceSize deferred =>
    cases hstep
    exact h.start
  | deferredCall env =>
    simp only [step] at hstep
    split at hstep
    · rename_i hd
      cases hstep
      exact h.nextChunk hd hserved
    · cases hstep
  | blockingTurn env =>
    simp only [step] at hstep
    split at hstep
    · rename_i hb
      cases hstep
      exact h.allChunks hb hserved
    · cases hstep
  | abort =>
    cases hstep
    exact h.abort
  | write chip offset size data =>
    cases hstep
    exact h.write
  | erase chip offset size =>
    cases hstep
    exact h.erase
  | host im p =>
    cases hstep
    exact h.host

/-- In a run in which no chunk finds the temporary buffer busy, a digest given to the host is
that of the nonce and the region as flash holds it now, and the bytes hashed were those of
the region, each once and in order. Where flash is not mapped, the CBI section counts as 0xff,
as `crec_flash_read` shows it. -/
theorem vboot_hash_sound (c : Config) (sha : Sha256) (flash : Image) (ctx : sha.Ctx) {l : List (State sha × Action c)}
    {s : State sha} (run : Run (step c) (initial flash ctx) l s) (hserved : ∀ x ∈ l, Served c x) (im : Images)
    (request : U32) {hashType digestSize reserved0 : Nat} {offset size : U32} {digest : List UInt8}
    (h : fillResponse im s request = .done hashType digestSize reserved0 offset size digest) :
    digest = sha.sha256 (s.nonce ++ contents c s.flash offset.toNat size.toNat) ∧
      s.hashed = List.range' offset.toNat size.toNat := by
  have hsound : Sound c s := run.invariant sound_initial (fun s a s' => step_sound s a s') hserved
  unfold fillResponse at h
  split at h
  · cases h
  · rename_i hp
    split at h
    · rename_i hdone
      have hw : s.wantAbort = false := by simpa using hdone.2.2
      have hwhole := hsound.whole (Bool.eq_false_iff.mpr hp) hdone.2.1 hw
      cases h
      exact ⟨hwhole.digest, hwhole.once⟩
    · cases h

def pages : Images := ⟨0, 16, 24, 8, 8⟩

def hashPage : Action fourPages := .start 0 8 (fun _ => 0) 0 true

/-- The state after the start and a deferred call that meets `scratch`. -/
def hashedPage (scratch : Scratch) : State software :=
  vbootHashNextChunk fourPages ⟨scratch, clearing fourPages⟩
    { (vbootHashStart fourPages (initial (fun _ => 0xff) ([], [])) 0 8 (fun _ => 0) 0 true).2 with deferred := false }

theorem run_hashedPage (scratch : Scratch) :
    Run (step fourPages) (initial (fun _ => 0xff) ([], []))
      ([] ++ [(initial (fun _ => 0xff) ([], []), hashPage)] ++
        [((vbootHashStart fourPages (initial (fun _ => 0xff) ([], [])) 0 8 (fun _ => 0) 0 true).2,
          .deferredCall ⟨scratch, clearing fourPages⟩)])
      (hashedPage scratch) := by
  refine (Run.start.step rfl).step ?_
  have hdeferred : (vbootHashStart fourPages (initial (fun _ => 0xff) ([], []) : State software) 0 8 (fun _ => 0) 0
      true).2.deferred = true := by decide +kernel
  simp only [step, hdeferred, if_true, hashedPage]

/-- The first page of erased flash, hashed without the buffer being busy. -/
theorem vboot_hash_sound_page :
    fillResponse pages (hashedPage (.acquired fun _ => 0)) 0 =
        .done 0 32 0 0 8 (digestOf ((hashedPage (.acquired fun _ => 0)).nonce ++
          contents fourPages (hashedPage (.acquired fun _ => 0)).flash (0 : U32).toNat (8 : U32).toNat)) ∧
      (hashedPage (.acquired fun _ => 0)).hashed = List.range' (0 : U32).toNat (8 : U32).toNat := by
  have hdone : fillResponse pages (hashedPage (.acquired fun _ => 0)) 0 =
      .done 0 32 0 0 8 (software.buf (hashedPage (.acquired fun _ => 0)).ctx) := by decide +kernel
  have hsound := vboot_hash_sound fourPages software _ _ (run_hashedPage _) (fun x hx => ?_) pages 0 hdone
  · exact ⟨hdone.trans (congrArg (Response.done 0 32 0 0 8) hsound.1), hsound.2⟩
  · rcases List.mem_append.mp hx with hfirst | hsecond
    · rw [List.mem_singleton.mp hfirst]
      exact trivial
    · rw [List.mem_singleton.mp hsecond]
      rintro _ ⟨_, _, hbusy⟩
      cases hbusy

/-- The same with the buffer busy: the host is given the hash of nothing. -/
theorem chunk_skipped :
    (∃ l, Run (step fourPages) (initial (fun _ => 0xff) ([], [])) l (hashedPage .busy)) ∧
      fillResponse pages (hashedPage .busy) 0 = .done 0 32 0 0 8 (digestOf []) ∧
      digestOf [] ≠ digestOf ((hashedPage .busy).nonce ++ contents fourPages (hashedPage .busy).flash 0 8) ∧
      (hashedPage .busy).hashed = [] := by
  refine ⟨⟨_, run_hashedPage .busy⟩, ?_, ?_, ?_⟩
  all_goals decide +kernel

end ChromeEc.VbootHash
