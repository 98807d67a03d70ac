import ChromeEc.Cbi.Walk

/- What an image from storage is trusted for.

  do_cbi_read checks the magic, the version, the range of total_size and the CRC, none of
  which says anything about the sizes of the entries. The walk checks that the header of
  an entry lies before total_size and leaves the value unchecked.

  What is proved: for every accepted image and every tag the walk ends, and the entry
  found, the copy of its value and its removal stay inside the image exactly if the tag is
  not that of a last entry that runs past total_size (`accepted_image_parsed_iff`). An
  accepted image whose only entry runs past total_size is
  `overrunning_entry_accepted`. -/
namespace ChromeEc.Cbi

open ChromeEc.Lib.Memory

variable {m m' : Image} {tag : UInt32} {cfg : Config} {drv : Storage}

/-! ## What is accepted -/

theorem headerError_eq_none (h : headerError cfg m = none) :
    hasMagic m = true ∧ majorVersion m = 0 ∧ sizeofHeader ≤ totalSize m ∧ totalSize m ≤ cfg.imageSize := by
  rw [headerError] at h
  split at h
  · cases h
  · rename_i hmagic
    split at h
    · cases h
    · rename_i hmajor
      split at h
      · cases h
      · rename_i hsize
        refine ⟨by simpa using hmagic, ?_, by omega, by omega⟩
        exact UInt8.le_antisymm (UInt8.not_lt.mp hmajor) UInt8.zero_le

theorem headerError_ne_success : headerError cfg m ≠ some .success := by
  rw [headerError]
  split
  · simp
  · split
    · simp
    · split <;> simp

theorem doCbiRead_success (h : doCbiRead cfg drv m' = (.success, m)) :
    sizeofHeader ≤ totalSize m ∧ totalSize m ≤ cfg.imageSize := by
  simp only [doCbiRead] at h
  split at h
  · cases h
  · split at h
    · rename_i rv herror
      cases h
      exact absurd herror headerError_ne_success
    · rename_i hheader
      obtain ⟨-, -, hlo, hhi⟩ := headerError_eq_none hheader
      split at h
      · cases h
      · split at h
        · cases h
        · obtain ⟨-, rfl⟩ := h
          rw [totalSize_of_header fun i hi => copy_of_lt hi]
          exact ⟨hlo, hhi⟩

/-! ## What stays inside the image -/

/-- The operations on a tag keep to the bytes from the header to total_size. -/
structure Parsed (m : Image) (tag : UInt32) : Prop where
  entry : ∀ d, cbiFindTag m tag = some d → sizeofHeader ≤ d ∧ entryEnd m d ≤ totalSize m
  get : ∀ m', (∀ i < totalSize m, m' i = m i) → ∀ buf size, getFromImage m' tag buf size = getFromImage m tag buf size
  remove : ∀ d, cbiFindTag m tag = some d → 0 ≤ bytesAfter m d ∧ sizeofHeader ≤ totalSize (cbiRemoveTag m d)

/-- The first entry with the tag is the last entry, and it runs past total_size. -/
def LastOverruns (m : Image) (tag : UInt32) : Prop :=
  ∃ before last, headers m = before ++ [last] ∧ totalSize m < entryEnd m last ∧
    hasTag m tag last = true ∧ ∀ d ∈ before, hasTag m tag d = false

theorem lastOverruns_iff : LastOverruns m tag ↔ ∃ d, cbiFindTag m tag = some d ∧ totalSize m < entryEnd m d := by
  constructor
  · rintro ⟨before, last, hchain, hover, htag, hbefore⟩
    exact ⟨last, cbiFindTag_some_iff.mpr ⟨htag, before, [], hchain, hbefore⟩, hover⟩
  · rintro ⟨d, hfind, hover⟩
    obtain ⟨htag, before, after, hchain, hbefore⟩ := cbiFindTag_some_iff.mp hfind
    cases eq_last_of_overruns hchain hover
    exact ⟨before, d, hchain, hover, htag, hbefore⟩

theorem getFromImage_found {d : Nat} {buf : Nat → UInt8} {size : UInt8} (h : cbiFindTag m tag = some d)
    (hroom : dataSize m d ≤ size.toNat) : getFromImage m tag buf size =
      (.success, copy (fill buf 0 size.toNat 0) 0 (dataSize m d) (fun i => m (d + sizeofData + i)), m (d + 1)) := by
  simp only [getFromImage, h]
  rw [if_neg (Nat.not_lt_of_le hroom), cbiBoardOverride]

theorem getFromImage_congr (hsize : sizeofHeader ≤ totalSize m) (hsame : ∀ i, 6 ≤ i → i < totalSize m → m' i = m i)
    (hinside : ∀ d, cbiFindTag m tag = some d → entryEnd m d ≤ totalSize m) (buf : Nat → UInt8) (size : UInt8) :
    getFromImage m' tag buf size = getFromImage m tag buf size := by
  rw [getFromImage, getFromImage, cbiFindTag_congr hsize hsame]
  cases hfind : cbiFindTag m tag with
  | none => rfl
  | some d =>
    have hend : d + sizeofData + dataSize m d ≤ totalSize m := hinside d hfind
    have hlo : 8 ≤ d := (cbiFindTag_bounds hfind).1
    have hcount : m' (d + 1) = m (d + 1) := by
      rw [sizeofData] at hend
      exact hsame (d + 1) (by omega) (by omega)
    have hdata : dataSize m' d = dataSize m d := by rw [dataSize, hcount, dataSize]
    have hvalue : ∀ b : Nat → UInt8, copy b 0 (dataSize m d) (fun i => m' (d + sizeofData + i)) =
        copy b 0 (dataSize m d) fun i => m (d + sizeofData + i) := by
      intro b
      funext a
      simp only [copy]
      split
      · rename_i hin
        exact hsame _ (by omega) (by omega)
      · rfl
    simp only [hdata, hcount, hvalue]

theorem bytesAfter_nonneg_iff {d : Nat} : 0 ≤ bytesAfter m d ↔ entryEnd m d ≤ totalSize m := by
  rw [bytesAfter, entryEnd]
  omega

theorem parsed_iff (hsize : sizeofHeader ≤ totalSize m) : Parsed m tag ↔ ¬ LastOverruns m tag := by
  rw [lastOverruns_iff]
  constructor
  · rintro h ⟨d, hfind, hover⟩
    exact absurd (h.entry d hfind).2 (by omega)
  · intro h
    have hinside : ∀ d, cbiFindTag m tag = some d → entryEnd m d ≤ totalSize m := fun d hfind =>
      Nat.le_of_not_lt fun hover => h ⟨d, hfind, hover⟩
    refine ⟨fun d hfind => ⟨(cbiFindTag_bounds hfind).1, hinside d hfind⟩,
      fun m' hsame => getFromImage_congr hsize (fun i _ => hsame i) hinside, fun d hfind => ?_⟩
    have hend := hinside d hfind
    refine ⟨bytesAfter_nonneg_iff.mpr hend, ?_⟩
    have hlo := (cbiFindTag_bounds hfind).1
    have hmax := totalSize_lt (m := m)
    rw [entryEnd] at hend
    rw [totalSize_cbiRemoveTag]
    omega

/-- Every image that do_cbi_read accepts, and every tag. -/
theorem accepted_image_parsed_iff (haccepted : doCbiRead cfg drv m' = (.success, m)) :
    ((∃ fuel found, findFrom m tag fuel sizeofHeader = some found) ∧ Parsed m tag) ↔ ¬ LastOverruns m tag := by
  have hends : ∃ fuel found, findFrom m tag fuel sizeofHeader = some found := ⟨_, _, findFrom_ends⟩
  rw [and_iff_right hends]
  exact parsed_iff (doCbiRead_success haccepted).1

/-! ## Two images from storage -/

def storageOf (bytes : List UInt8) : Storage where
  load offset _ := (false, fun i => bytes.getD (offset + i) 0xFF)
  isProtected := false
  isProtectedAtWrite := false
  storeFails := false

/-- One entry of one byte that runs up to total_size. -/
def storedEntry : List UInt8 := [0x43, 0x42, 0x49, 150, 0, 0, 11, 0, 3, 1, 0x5A]

def storedOverrun : List UInt8 := [0x43, 0x42, 0x49, 198, 0, 0, 11, 0, 3, 200, 0x5A]

/-- What the cache holds once `bytes` are read into it. -/
def cacheOf (bytes : List UInt8) : Image := (doCbiRead eeprom (storageOf bytes) fun _ => 0).2

theorem doCbiRead_cacheOf {bytes : List UInt8}
    (h : (doCbiRead eeprom (storageOf bytes) fun _ => 0).1 = .success) :
    doCbiRead eeprom (storageOf bytes) (fun _ => 0) = (.success, cacheOf bytes) := by
  rw [cacheOf, ← h]

theorem accepted_image_parsed_iff_entry : Parsed (cacheOf storedEntry) 3 := by
  have haccepted : (doCbiRead eeprom (storageOf storedEntry) fun _ => 0).1 = .success := by decide +kernel
  have hfound : cbiFindTag (cacheOf storedEntry) 3 = some 8 := by decide +kernel
  have hend : entryEnd (cacheOf storedEntry) 8 ≤ totalSize (cacheOf storedEntry) := by decide +kernel
  refine ((accepted_image_parsed_iff (doCbiRead_cacheOf haccepted)).mpr fun hover => ?_).2
  obtain ⟨d, hd, hpast⟩ := lastOverruns_iff.mp hover
  obtain rfl : 8 = d := Option.some.inj (hfound.symm.trans hd)
  exact absurd hend (Nat.not_le_of_lt hpast)

/-- The CRC is right and the entry of 200 bytes begins one byte before the end of the image. -/
theorem overrunning_entry_accepted : ¬ ∀ (cfg : Config) (drv : Storage) (m' m : Image) (tag : UInt32),
    doCbiRead cfg drv m' = (.success, m) →
    (∃ fuel found, findFrom m tag fuel sizeofHeader = some found) ∧ Parsed m tag := by
  intro h
  have haccepted : (doCbiRead eeprom (storageOf storedOverrun) fun _ => 0).1 = .success := by decide +kernel
  have hfound : cbiFindTag (cacheOf storedOverrun) 3 = some 8 := by decide +kernel
  have hpast : totalSize (cacheOf storedOverrun) < entryEnd (cacheOf storedOverrun) 8 := by decide +kernel
  have hparsed := (h eeprom _ _ _ 3 (doCbiRead_cacheOf haccepted)).2
  exact absurd (hparsed.entry 8 hfound).2 (Nat.not_le_of_lt hpast)

end ChromeEc.Cbi
