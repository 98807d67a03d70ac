import ChromeEc.Cbi.SetInfo
import ChromeEc.Cbi.Parsing

/- What a failed request leaves of the cached image.

  cbi_set_board_info removes an entry of another size before it checks that the new one
  fits, common_cbi_set wipes the cache before it does, and it changes the cache before the
  storage is written.

  What is proved: for every valid image in the cache and every request, an error leaves the
  image as it was exactly if the request does none of these three
  (`failed_set_keeps_image_iff`). The request that loses an entry to a value that does not
  fit is `rejected_value_removes_entry`. -/
namespace ChromeEc.Cbi

open ChromeEc.Lib.Memory

variable {m m' : Image} {tag : UInt32} {buf : Nat → UInt8} {size8 : UInt8} {d : Nat} {cfg : Config}
  {drv drv' : Storage} {c : Cache} {paramsSize : UInt16} {p : SetParams}

/-! ## What is kept -/

/-- The image is as it was: its bytes, the value of every tag, and that the CRC describes it. -/
structure Kept (m m' : Image) : Prop where
  bytes : ∀ i < totalSize m, m' i = m i
  values : ∀ tag buf size, getFromImage m' tag buf size = getFromImage m tag buf size
  crc : crc m' = cbiCrc8 m'

/-! ## The requests that are taken back -/

/-- An entry of another size is removed and leaves too little room for the new one. -/
def RemovedForNothing (cfg : Config) (m : Image) (tag : UInt32) (size : UInt8) : Prop :=
  ∃ d, cbiFindTag m tag = some d ∧ setOnce cfg tag = false ∧ dataSize m d ≠ size.toNat ∧
    cfg.imageSize < (totalSize m + 0x10000 - (sizeofData + dataSize m d)) % 0x10000 + sizeofData + size.toNat

/-- The value may not be set, or there is no entry and no room for one. -/
def Refused (cfg : Config) (m : Image) (tag : UInt32) (size : UInt8) : Prop :=
  (∃ d, cbiFindTag m tag = some d ∧ setOnce cfg tag = true) ∨
    cbiFindTag m tag = none ∧ cfg.imageSize < totalSize m + sizeofData + size.toNat

/-- The entry holds this value already, or there is none and the value is empty. -/
def AlreadySet (m : Image) (tag : UInt32) (buf : Nat → UInt8) (size : UInt8) : Prop :=
  (∃ d, cbiFindTag m tag = some d ∧ dataSize m d = size.toNat ∧ ∀ i < size.toNat, m (d + sizeofData + i) = buf i) ∨
    cbiFindTag m tag = none ∧ size = 0

def OnlyEntry (m : Image) (tag : UInt32) (buf : Nat → UInt8) (size : UInt8) : Prop :=
  if size = 0 then totalSize m = sizeofHeader
  else totalSize m = sizeofHeader + sizeofData + size.toNat ∧
    Holds m sizeofHeader (tag.toUInt8 :: size :: (List.range size.toNat).map buf)

/-- The command gets past the checks that come before any change of a valid image. -/
def Admitted (cfg : Config) (drv : Storage) (paramsSize : UInt16) (p : SetParams) : Prop :=
  (sizeofSetParams + p.size.toNat) % 2 ^ 32 ≤ paramsSize.toNat ∧ (drv.isProtected = true → p.noSync = true) ∧
    (p.init = true → cfg.systemUnlocked = true)

def ChangesNothing (cfg : Config) (drv : Storage) (m : Image) : Request → Prop
  | .direct tag _ size => ¬ RemovedForNothing cfg m tag size
  | .command paramsSize p =>
    Admitted cfg drv paramsSize p →
      let size := p.size.toUInt8
      if p.init then
        sizeofHeader + sizeofData + size.toNat ≤ cfg.imageSize ∧
          (WriteFails drv p → minorVersion m = cbiVersionMinor ∧ OnlyEntry m p.tag p.data size)
      else
        ¬ RemovedForNothing cfg m p.tag size ∧
          (WriteFails drv p →
            Refused cfg m p.tag size ∨ minorVersion m = cbiVersionMinor ∧ AlreadySet m p.tag p.data size)

/-! ## A valid image -/

theorem isValidCbi_iff_header (h : isValidCbi cfg m = true) :
    hasMagic m = true ∧ majorVersion m = cbiVersionMajor ∧ sizeofHeader ≤ totalSize m ∧ cbiCrc8 m = crc m := by
  rw [isValidCbi, Bool.and_eq_true, Option.isNone_iff_eq_none] at h
  obtain ⟨hmagic, hmajor, hsize, -⟩ := headerError_eq_none h.1
  exact ⟨hmagic, hmajor, hsize, by simpa using h.2⟩

theorem Kept.refl (hvalid : isValidCbi cfg m = true) : Kept m m :=
  ⟨fun _ _ => rfl, fun _ _ _ => rfl, (isValidCbi_iff_header hvalid).2.2.2.symm⟩

theorem Kept.totalSize_eq (h : Kept m m') (hsize : sizeofHeader ≤ totalSize m) : totalSize m' = totalSize m :=
  totalSize_congr hsize fun i _ => h.bytes i

/-! ## cbi_set_board_info -/

theorem totalSize_removed_ne (hsize : size8.toNat ≠ dataSize m d)
    (hfits : totalSize (cbiRemoveTag m d) + sizeofData + size8.toNat ≤ cfg.imageSize) :
    totalSize (appended (cbiRemoveTag m d) tag buf size8.toNat) ≠ totalSize m := by
  have hold : dataSize m d < 256 := (m (d + 1)).toNat_lt
  have hnew := size8.toNat_lt
  have hremoved := totalSize_cbiRemoveTag (m := m) (d := d)
  rw [sizeofData] at *
  by_cases hempty : size8.toNat = 0
  · rw [hempty, appended_zero]
    omega
  · rw [totalSize_appended hempty hfits, sizeofData]
    omega

theorem alreadySet_of_overwritten (h : cbiFindTag m tag = some d) (hsize : dataSize m d = size8.toNat)
    (hread : getFromImage (copy m (d + sizeofData) size8.toNat buf) tag (fun _ => 0) 255 =
      getFromImage m tag (fun _ => 0) 255) : ∀ i < size8.toNat, m (d + sizeofData + i) = buf i := by
  have hlo := (cbiFindTag_bounds h).1
  have hbelow : ∀ i < d + sizeofData, copy m (d + sizeofData) size8.toNat buf i = m i := fun i hi => copy_of_lt hi
  have htotal : totalSize (copy m (d + sizeofData) size8.toNat buf) = totalSize m :=
    totalSize_of_header fun i hi => hbelow i (by omega)
  have hfind := cbiFindTag_prefix htotal (fun i _ => hbelow i) h
  have hsize' : dataSize (copy m (d + sizeofData) size8.toNat buf) d = size8.toNat := by
    rw [dataSize, hbelow (d + 1) (by simp [sizeofData]), ← dataSize, hsize]
  have hroom : size8.toNat ≤ (255 : UInt8).toNat := Nat.le_of_lt_succ size8.toNat_lt
  intro i hi
  rw [getFromImage_found hfind (hsize'.trans_le hroom),
    getFromImage_found h (hsize.trans_le hroom), hsize, hsize'] at hread
  have hvalue := congrFun (Prod.mk.inj (Prod.mk.inj hread).2).1 (0 + i)
  rw [copy_inside hi, copy_inside hi, copy_inside hi] at hvalue
  exact hvalue.symm

/-- An error of cbi_set_board_info: the entry is gone, or nothing is changed. Otherwise the value is set. -/
theorem cbiSetBoardInfo_cases (cfg : Config) (m : Image) (tag : UInt32) (buf : Nat → UInt8) (size8 : UInt8) :
    (RemovedForNothing cfg m tag size8 ∧
      ∃ d, cbiSetBoardInfo cfg m tag buf size8 = (.errorOverflow, cbiRemoveTag m d)) ∨
    (¬ RemovedForNothing cfg m tag size8 ∧ Refused cfg m tag size8 ∧
      ∃ rv, rv ≠ .success ∧ cbiSetBoardInfo cfg m tag buf size8 = (rv, m)) ∨
    (¬ RemovedForNothing cfg m tag size8 ∧ ¬ Refused cfg m tag size8 ∧
      ∃ m', cbiSetBoardInfo cfg m tag buf size8 = (.success, m') ∧ (AlreadySet m tag buf size8 → m' = m) ∧
        (totalSize m' = totalSize m →
          getFromImage m' tag (fun _ => 0) 255 = getFromImage m tag (fun _ => 0) 255 → AlreadySet m tag buf size8)) := by
  cases hfind : cbiFindTag m tag with
  | none =>
    have hkeeps : ¬ RemovedForNothing cfg m tag size8 := by simp [RemovedForNothing, hfind]
    rw [cbiSetBoardInfo_absent hfind]
    by_cases hfits : totalSize m + sizeofData + size8.toNat ≤ cfg.imageSize
    · refine .inr (.inr ⟨hkeeps, by simp [Refused, hfind, hfits], _, appendItem_fits hfits, ?_, ?_⟩)
      · rintro (⟨d, hd, -⟩ | ⟨-, rfl⟩)
        · rw [hfind] at hd
          cases hd
        · exact appended_zero
      · intro htotal _
        by_cases hempty : size8.toNat = 0
        · exact .inr ⟨hfind, UInt8.toNat_inj.mp hempty⟩
        · rw [totalSize_appended hempty hfits, sizeofData] at htotal
          omega
    · have hover : cfg.imageSize < totalSize m + sizeofData + size8.toNat := by omega
      exact .inr (.inl ⟨hkeeps, .inr ⟨hfind, hover⟩, _, by simp, appendItem_overflow hover⟩)
  | some d =>
    cases hallowed : setOnce cfg tag with
    | true =>
      refine .inr (.inl ⟨?_, .inl ⟨d, hfind, hallowed⟩, _, by simp, cbiSetBoardInfo_denied hfind hallowed⟩)
      simp [RemovedForNothing, hallowed]
    | false =>
      have hadmitted : ¬ Refused cfg m tag size8 := by simp [Refused, hfind, hallowed]
      by_cases hsize : dataSize m d = size8.toNat
      · -- written over the old value
        have hkeeps : ¬ RemovedForNothing cfg m tag size8 := by simp [RemovedForNothing, hfind, hsize]
        refine .inr (.inr ⟨hkeeps, hadmitted, _, cbiSetBoardInfo_overwritten hfind hallowed hsize, ?_, ?_⟩)
        · rintro (⟨e, he, -, hvalue⟩ | ⟨hnone, -⟩)
          · obtain rfl : d = e := Option.some.inj (hfind.symm.trans he)
            exact copy_same hvalue
          · rw [hfind] at hnone
            cases hnone
        · intro _ hread
          exact .inl ⟨d, hfind, hsize, alreadySet_of_overwritten hfind hsize hread⟩
      · -- removed, and appended if there is room
        rw [cbiSetBoardInfo_replaced hfind hallowed hsize]
        have hremoved := totalSize_cbiRemoveTag (m := m) (d := d)
        by_cases hfits : totalSize (cbiRemoveTag m d) + sizeofData + size8.toNat ≤ cfg.imageSize
        · have hkeeps : ¬ RemovedForNothing cfg m tag size8 := by
            rintro ⟨e, he, -, -, hover⟩
            obtain rfl : d = e := Option.some.inj (hfind.symm.trans he)
            omega
          refine .inr (.inr ⟨hkeeps, hadmitted, _, appendItem_fits hfits, ?_, ?_⟩)
          · rintro (⟨e, he, hsame, -⟩ | ⟨hnone, -⟩)
            · obtain rfl : d = e := Option.some.inj (hfind.symm.trans he)
              exact absurd hsame hsize
            · rw [hfind] at hnone
              cases hnone
          · intro htotal _
            exact absurd htotal (totalSize_removed_ne (Ne.symm hsize) hfits)
        · have hover : cfg.imageSize < totalSize (cbiRemoveTag m d) + sizeofData + size8.toNat := by omega
          refine .inl ⟨⟨d, hfind, hallowed, hsize, ?_⟩, d, appendItem_overflow hover⟩
          omega

theorem not_kept_of_removed (hvalid : isValidCbi cfg m = true) : ¬ Kept m (cbiRemoveTag m d) := by
  intro h
  have htotal := h.totalSize_eq (isValidCbi_iff_header hvalid).2.2.1
  have hold : dataSize m d < 256 := (m (d + 1)).toNat_lt
  have hmax := totalSize_lt (m := m)
  rw [totalSize_cbiRemoveTag, sizeofData] at htotal
  omega

/-! ## EC_CMD_SET_CROS_BOARD_INFO -/

/-- The command ends before it changes anything, or sets the value in the cached image or in a fresh one. -/
theorem hcCbiSet_cases (hvalid : isValidCbi cfg c.image = true) (hsynced : c.synced = true) :
    (¬ Admitted cfg drv paramsSize p ∧ (hcCbiSet cfg drv drv' c paramsSize p).2 = c) ∨
    (Admitted cfg drv paramsSize p ∧ hcCbiSet cfg drv drv' c paramsSize p =
      setAndWrite cfg drv { c with image := if p.init then bareHeader c.image cfg.imageSize else c.image } p) := by
  by_cases hparams : paramsSize.toNat < (sizeofSetParams + p.size.toNat) % 2 ^ 32
  · left
    refine ⟨fun h => absurd h.1 (Nat.not_le_of_lt hparams), ?_⟩
    rw [hcCbiSet, if_pos hparams]
  rw [hcCbiSet, if_neg hparams, commonCbiSet]
  by_cases hprotected : (drv.isProtected && !p.noSync) = true
  · left
    rw [if_pos hprotected]
    refine ⟨fun h => ?_, rfl⟩
    simp only [Bool.and_eq_true, Bool.not_eq_true'] at hprotected
    simp [h.2.1 hprotected.1] at hprotected
  rw [if_neg hprotected]
  have hprotected' : drv.isProtected = true → p.noSync = true := by
    intro h
    simpa [h] using hprotected
  cases hinit : p.init with
  | false =>
    right
    refine ⟨⟨Nat.le_of_not_lt hparams, hprotected', by simp [hinit]⟩, ?_⟩
    rw [imageToSet, hinit, if_neg Bool.false_ne_true, if_neg Bool.false_ne_true, cbiRead, if_pos hsynced]
  | true =>
    cases hlocked : cfg.systemUnlocked with
    | false =>
      left
      refine ⟨fun h => ?_, by simp [imageToSet, hinit, hlocked, hvalid]⟩
      have hunlocked := h.2.2 hinit
      rw [hlocked] at hunlocked
      cases hunlocked
    | true =>
      right
      refine ⟨⟨Nat.le_of_not_lt hparams, hprotected', fun _ => hlocked⟩, ?_⟩
      simp [imageToSet, hinit, hlocked]

/-! ## A value set in the cached image -/

theorem getFromImage_updateFormat {m : Image} (hsize : sizeofHeader ≤ totalSize m) (buf : Nat → UInt8) (size : UInt8) :
    getFromImage (updateFormat m) tag buf size = getFromImage m tag buf size := by
  have hfind : cbiFindTag (updateFormat m) tag = cbiFindTag m tag :=
    cbiFindTag_congr hsize fun i hlo _ => updateFormat_data hlo
  rw [getFromImage, getFromImage, hfind]
  cases hd : cbiFindTag m tag with
  | none => rfl
  | some d =>
    have hlo : 8 ≤ d := (cbiFindTag_bounds hd).1
    have hdata : ∀ i, 6 ≤ i → updateFormat m i = m i := fun i => updateFormat_data
    have hcount : updateFormat m (d + 1) = m (d + 1) := hdata _ (by omega)
    have hdataSize : dataSize (updateFormat m) d = dataSize m d := congrArg UInt8.toNat hcount
    have hvalue : (fun i => updateFormat m (d + sizeofData + i)) = fun i => m (d + sizeofData + i) := by
      funext i
      exact hdata _ (by omega)
    simp only [hdataSize, hcount, hvalue]

/-- The storage could not be written after the value was set in the cached image. -/
theorem kept_updateFormat_iff (hvalid : isValidCbi cfg m = true) (hsame : AlreadySet m tag buf size8 → m' = m)
    (hset : totalSize m' = totalSize m →
      getFromImage m' tag (fun _ => 0) 255 = getFromImage m tag (fun _ => 0) 255 → AlreadySet m tag buf size8) :
    Kept m (updateFormat m') ↔ minorVersion m = cbiVersionMinor ∧ AlreadySet m tag buf size8 := by
  obtain ⟨-, hmajor, hsize, hcrc⟩ := isValidCbi_iff_header hvalid
  constructor
  · intro h
    have htotal : totalSize m' = totalSize m := by
      rw [← totalSize_updateFormat]
      exact h.totalSize_eq hsize
    have hminor : minorVersion m = cbiVersionMinor := by
      have hbyte : updateFormat m' 4 = m 4 := h.bytes 4 (Nat.lt_of_lt_of_le (by decide) hsize)
      calc minorVersion m = minorVersion (updateFormat m') := minorVersion_eq_iff.mpr hbyte.symm
        _ = cbiVersionMinor := minorVersion_updateFormat
    refine ⟨hminor, hset htotal ?_⟩
    have hread := h.values tag (fun _ => 0) 255
    rw [getFromImage_updateFormat (htotal ▸ hsize)] at hread
    exact hread
  · rintro ⟨hminor, hset⟩
    rw [hsame hset, updateFormat_same hminor hmajor hcrc]
    exact Kept.refl hvalid

/-! ## A value set in a fresh image -/

/-- The image that a request with CBI_SET_INIT builds. -/
def freshImage (cfg : Config) (m : Image) (tag : UInt32) (buf : Nat → UInt8) (size : Nat) : Image :=
  updateFormat (appended (bareHeader m cfg.imageSize) tag buf size)

theorem totalSize_freshImage (hfits : sizeofHeader + sizeofData + size8.toNat ≤ cfg.imageSize) :
    totalSize (freshImage cfg m tag buf size8.toNat) =
      if size8 = 0 then sizeofHeader else sizeofHeader + sizeofData + size8.toNat := by
  rw [freshImage, totalSize_updateFormat]
  split
  · rename_i hempty
    subst hempty
    exact (congrArg totalSize appended_zero).trans totalSize_bareHeader
  · rename_i hempty
    have hne : size8.toNat ≠ 0 := fun h => hempty (UInt8.toNat_inj.mp h)
    rw [@totalSize_appended _ _ _ _ cfg hne (by simpa using hfits), totalSize_bareHeader]

theorem freshImage_entry (hempty : size8 ≠ 0) : Holds (freshImage cfg m tag buf size8.toNat) sizeofHeader
    (tag.toUInt8 :: size8 :: (List.range size8.toNat).map buf) := by
  have hne : size8.toNat ≠ 0 := fun h => hempty (UInt8.toNat_inj.mp h)
  have hentry := @appended_entry (bareHeader m cfg.imageSize) tag buf _ hne totalSize_bareHeader.ge
  rw [totalSize_bareHeader, UInt8.ofNat_toNat] at hentry
  exact hentry.congr fun a hlo _ => updateFormat_data (Nat.le_trans (by decide) hlo)

theorem hasMagic_freshImage : hasMagic (freshImage cfg m tag buf size8.toNat) = true := by
  have hsame : ∀ i < 3, freshImage cfg m tag buf size8.toNat i = bareHeader m cfg.imageSize i := by
    intro i hi
    rw [freshImage, updateFormat_of_ne (by omega) (by omega) (by omega)]
    exact appended_below (by rw [totalSize_bareHeader, sizeofHeader]; omega) (by omega) (by omega)
  rw [hasMagic, hsame 0 (by decide), hsame 1 (by decide), hsame 2 (by decide), ← hasMagic]
  exact hasMagic_bareHeader

theorem entryEnd_of_onlyEntry (h : OnlyEntry m tag buf size8) {t : UInt32} (hfind : cbiFindTag m t = some d) :
    entryEnd m d ≤ totalSize m := by
  have hbounds := cbiFindTag_bounds hfind
  rw [OnlyEntry] at h
  split at h
  · omega
  · obtain ⟨htotal, hentry⟩ := h
    have hcount : dataSize m sizeofHeader = size8.toNat := congrArg UInt8.toNat (hentry 1 (by simp))
    have hend : entryEnd m sizeofHeader = totalSize m := by rw [entryEnd, hcount, htotal]
    rw [cbiFindTag_eq] at hfind
    rcases eq_or_behind_of_mem (List.mem_of_find?_eq_some hfind) with hfirst | hbehind
    · rw [hfirst, hend]
    · omega

theorem totalSize_of_onlyEntry (hfits : sizeofHeader + sizeofData + size8.toNat ≤ cfg.imageSize)
    (hentry : OnlyEntry m tag buf size8) : totalSize (freshImage cfg m tag buf size8.toNat) = totalSize m := by
  rw [totalSize_freshImage hfits]
  rw [OnlyEntry] at hentry
  split at hentry
  · rename_i hempty
    rw [if_pos hempty, hentry]
  · rename_i hempty
    rw [if_neg hempty, hentry.1]

theorem freshImage_covered (hfits : sizeofHeader + sizeofData + size8.toNat ≤ cfg.imageSize)
    (hminor : minorVersion m = cbiVersionMinor) (hmajor : majorVersion m = cbiVersionMajor)
    (hentry : OnlyEntry m tag buf size8) :
    ∀ i, 4 ≤ i → i < totalSize m → freshImage cfg m tag buf size8.toNat i = m i := by
  intro i hlo hhi
  rcases Nat.lt_or_ge i sizeofHeader with hheader | hdata
  · -- the version and the size
    have hversion : freshImage cfg m tag buf size8.toNat 4 = m 4 :=
        minorVersion_eq_iff.mp (minorVersion_updateFormat.trans hminor.symm)
    have hversion' : freshImage cfg m tag buf size8.toNat 5 = m 5 :=
        majorVersion_eq_iff.mp (majorVersion_updateFormat.trans hmajor.symm)
    have hsizes := totalSize_eq_iff.mp (totalSize_of_onlyEntry hfits hentry)
    rw [sizeofHeader] at hheader
    interval_cases i
    · exact hversion
    · exact hversion'
    · exact hsizes.1
    · exact hsizes.2
  · rw [OnlyEntry] at hentry
    split at hentry
    · omega
    · rename_i hempty
      have hlength : i - sizeofHeader < (tag.toUInt8 :: size8 :: (List.range size8.toNat).map buf).length := by
        simp [sizeofData] at *
        omega
      have hbuilt := @freshImage_entry m tag buf _ cfg hempty _ hlength
      have hheld := hentry.2 _ hlength
      rw [Nat.add_sub_cancel' hdata] at hbuilt hheld
      exact hbuilt.trans hheld.symm

/-- The storage could not be written after the cache was wiped and the value set. -/
theorem kept_freshImage_iff (hvalid : isValidCbi cfg m = true)
    (hfits : sizeofHeader + sizeofData + size8.toNat ≤ cfg.imageSize) :
    Kept m (freshImage cfg m tag buf size8.toNat) ↔
      minorVersion m = cbiVersionMinor ∧ OnlyEntry m tag buf size8 := by
  obtain ⟨hmagic, hmajor, hsize, hcrc⟩ := isValidCbi_iff_header hvalid
  have htotal := @totalSize_freshImage m tag buf _ _ hfits
  constructor
  · intro h
    have hminor : minorVersion m = cbiVersionMinor := by
      have hbyte := h.bytes 4 (Nat.lt_of_lt_of_le (by decide) hsize)
      calc minorVersion m = minorVersion (freshImage cfg m tag buf size8.toNat) := minorVersion_eq_iff.mpr hbyte.symm
        _ = cbiVersionMinor := minorVersion_updateFormat
    refine ⟨hminor, ?_⟩
    have hsame := h.totalSize_eq hsize
    rw [htotal] at hsame
    rw [OnlyEntry]
    split
    · rename_i hempty
      rw [if_pos hempty] at hsame
      exact hsame.symm
    · rename_i hempty
      rw [if_neg hempty] at hsame
      refine ⟨hsame.symm, (@freshImage_entry m _ _ _ cfg hempty).congr fun a _ hhi => ?_⟩
      have hlength : (tag.toUInt8 :: size8 :: (List.range size8.toNat).map buf).length = sizeofData + size8.toNat := by
        simp [sizeofData]
        omega
      exact (h.bytes a (by omega)).symm
  · rintro ⟨hminor, hentry⟩
    have hsame := totalSize_of_onlyEntry hfits hentry
    have hcovered := freshImage_covered hfits hminor hmajor hentry
    have hbuilt : crc (freshImage cfg m tag buf size8.toNat) = cbiCrc8 (freshImage cfg m tag buf size8.toNat) := by
      apply crc_updateFormat
      rw [← totalSize_updateFormat]
      exact hsame.ge.trans' hsize
    have hbytes : ∀ i < totalSize m, freshImage cfg m tag buf size8.toNat i = m i := by
      intro i hi
      rcases Nat.lt_or_ge i 4 with hheader | hbehind
      · rcases Nat.lt_or_ge i 3 with hfirst | hcrc'
        · exact magic_eq hmagic hasMagic_freshImage i hfirst
        · obtain rfl : i = 3 := by omega
          apply crc_eq_iff.mp
          rw [hbuilt, cbiCrc8_congr hsize hcovered, hcrc]
      · exact hcovered i hbehind hi
    exact ⟨hbytes, fun t => getFromImage_congr hsize (fun i _ => hbytes i) fun d => entryEnd_of_onlyEntry hentry, hbuilt⟩

/-! ## Requests that fail -/

theorem direct_kept_iff (hvalid : isValidCbi cfg m = true) :
    ((cbiSetBoardInfo cfg m tag buf size8).1 ≠ .success → Kept m (cbiSetBoardInfo cfg m tag buf size8).2) ↔
      ¬ RemovedForNothing cfg m tag size8 := by
  rcases cbiSetBoardInfo_cases cfg m tag buf size8 with ⟨hlost, d, hset⟩ | ⟨hkeeps, -, rv, -, hset⟩ |
    ⟨hkeeps, -, m', hset, -⟩
  · rw [hset]
    exact ⟨fun h => absurd (h (by simp)) (not_kept_of_removed hvalid), fun h => absurd hlost h⟩
  · rw [hset]
    exact ⟨fun _ => hkeeps, fun _ _ => Kept.refl hvalid⟩
  · rw [hset]
    exact ⟨fun _ => hkeeps, fun _ h => absurd rfl h⟩

theorem update_kept_iff (hvalid : isValidCbi cfg c.image = true) :
    ((setAndWrite cfg drv c p).1 ≠ .success → Kept c.image (setAndWrite cfg drv c p).2.image) ↔
      ¬ RemovedForNothing cfg c.image p.tag p.size.toUInt8 ∧
        (WriteFails drv p → Refused cfg c.image p.tag p.size.toUInt8 ∨
          minorVersion c.image = cbiVersionMinor ∧ AlreadySet c.image p.tag p.data p.size.toUInt8) := by
  rcases cbiSetBoardInfo_cases cfg c.image p.tag p.data p.size.toUInt8 with ⟨hlost, d, hset⟩ |
    ⟨hkeeps, hrefused, rv, hrv, hset⟩ | ⟨hkeeps, hadmitted, m', hset, hsame, hread⟩
  · rw [setAndWrite_of_error hset (by simp)]
    exact ⟨fun h => absurd (h (by simp)) (not_kept_of_removed hvalid), fun h => absurd hlost h.1⟩
  · rw [setAndWrite_of_error hset hrv]
    exact ⟨fun _ => ⟨hkeeps, fun _ => .inl hrefused⟩, fun _ _ => Kept.refl hvalid⟩
  · obtain ⟨hcache, herror⟩ := @setAndWrite_of_success _ _ drv _ _ hset
    rw [congrArg Cache.image hcache, herror, kept_updateFormat_iff hvalid hsame hread,
      and_iff_right hkeeps, or_iff_right hadmitted]

theorem init_kept_iff (hvalid : isValidCbi cfg c.image = true) :
    ((setAndWrite cfg drv { c with image := bareHeader c.image cfg.imageSize } p).1 ≠ .success →
      Kept c.image (setAndWrite cfg drv { c with image := bareHeader c.image cfg.imageSize } p).2.image) ↔
      sizeofHeader + sizeofData + p.size.toUInt8.toNat ≤ cfg.imageSize ∧
        (WriteFails drv p →
          minorVersion c.image = cbiVersionMinor ∧ OnlyEntry c.image p.tag p.data p.size.toUInt8) := by
  have hset := @cbiSetBoardInfo_absent _ _ p.data p.size.toUInt8 cfg (@cbiFindTag_bareHeader c.image p.tag cfg.imageSize)
  by_cases hfits : sizeofHeader + sizeofData + p.size.toUInt8.toNat ≤ cfg.imageSize
  · rw [appendItem_fits (by rwa [totalSize_bareHeader])] at hset
    obtain ⟨hcache, herror⟩ := @setAndWrite_of_success _ _ drv
      ({ c with image := bareHeader c.image cfg.imageSize }) _ hset
    rw [congrArg Cache.image hcache, herror, and_iff_right hfits]
    exact imp_congr_right fun _ => kept_freshImage_iff hvalid hfits
  · rw [appendItem_overflow (by rw [totalSize_bareHeader]; omega)] at hset
    rw [setAndWrite_of_error (c := { c with image := bareHeader c.image cfg.imageSize }) hset (by simp)]
    exact ⟨fun h => absurd (h (by simp)).crc (crc_bareHeader_ne cfg.header_fits), fun h => absurd h.1 hfits⟩

/-- Every valid image in the cache, and every request. -/
theorem failed_set_keeps_image_iff (hvalid : isValidCbi cfg c.image = true) (hsynced : c.synced = true)
    (r : Request) :
    ((serve cfg drv drv' c r).1 ≠ .success → Kept c.image (serve cfg drv drv' c r).2.image) ↔
      ChangesNothing cfg drv c.image r := by
  cases r with
  | direct tag buf size => exact direct_kept_iff hvalid
  | command paramsSize p =>
    rw [ChangesNothing, serve]
    rcases @hcCbiSet_cases _ drv drv' _ paramsSize p hvalid hsynced with
      ⟨hrefused, hsame⟩ | ⟨hadmitted, hset⟩
    · rw [hsame]
      exact ⟨fun _ h => absurd h hrefused, fun _ _ => Kept.refl hvalid⟩
    · rw [hset]
      simp only [hadmitted, true_implies]
      cases p.init with
      | false => simpa using @update_kept_iff _ drv _ p hvalid
      | true => simpa using @init_kept_iff _ drv _ p hvalid

/-! ## A nearly full image -/

theorem isValidCbi_updateFormat (hmagic : hasMagic m = true) (hlo : sizeofHeader ≤ totalSize m)
    (hhi : totalSize m ≤ cfg.imageSize) : isValidCbi cfg (updateFormat m) = true := by
  have hmagic' : hasMagic (updateFormat m) = true := by
    rwa [hasMagic, updateFormat_of_ne (by decide) (by decide) (by decide), updateFormat_of_ne (by decide) (by decide)
      (by decide), updateFormat_of_ne (by decide) (by decide) (by decide), ← hasMagic]
  have hsize : ¬ (totalSize m < sizeofHeader ∨ cfg.imageSize < totalSize m) := by omega
  have hheader : headerError cfg (updateFormat m) = none := by
    rw [headerError, hmagic', majorVersion_updateFormat, totalSize_updateFormat, if_neg (by decide), if_neg (by decide),
      if_neg hsize]
  rw [isValidCbi, hheader, crc_updateFormat hlo]
  simp

/-- The 246 bytes of a part number and a name. -/
def nearlyFullEntries : Image :=
  let created := (cbiCreate eeprom { image := fun _ => 0, synced := false }).image
  let withPart := (cbiSetBoardInfo eeprom created 3 (fun _ => 0x41) 4).2
  (cbiSetBoardInfo eeprom withPart 4 (fun _ => 0x42) 230).2

def nearlyFull : Cache := { image := updateFormat nearlyFullEntries, synced := true }

theorem nearlyFull_valid : isValidCbi eeprom nearlyFull.image = true :=
  isValidCbi_updateFormat (by decide +kernel) (by decide +kernel) (by decide +kernel)

theorem failed_set_keeps_image_iff_absent :
    Kept nearlyFull.image
      (serve eeprom (storageOf []) (storageOf []) nearlyFull (.direct 5 (fun _ => 0x43) 20)).2.image := by
  have habsent : cbiFindTag nearlyFull.image 5 = none := by decide +kernel
  have hkept := (@failed_set_keeps_image_iff _ (storageOf []) (storageOf []) _ nearlyFull_valid rfl
    (.direct 5 (fun _ => 0x43) 20)).mpr
  apply hkept
  · rintro ⟨d, hd, -⟩
    rw [habsent] at hd
    cases hd
  · decide +kernel

/-- A part number of 20 bytes does not fit, and the old one of 4 bytes is gone. -/
theorem rejected_value_removes_entry : ¬ ∀ (cfg : Config) (drv drv' : Storage) (c : Cache) (r : Request),
    isValidCbi cfg c.image = true → c.synced = true → (serve cfg drv drv' c r).1 ≠ .success →
    Kept c.image (serve cfg drv drv' c r).2.image := by
  intro h
  have hkept := h eeprom (storageOf []) (storageOf []) nearlyFull (.direct 3 (fun _ => 0x43) 20) nearlyFull_valid rfl
    (by decide +kernel)
  have hchanged : (serve eeprom (storageOf []) (storageOf []) nearlyFull
      (.direct 3 (fun _ => 0x43) 20)).2.image 6 ≠ nearlyFull.image 6 := by decide +kernel
  exact hchanged (hkept.bytes 6 (by decide +kernel))

end ChromeEc.Cbi
