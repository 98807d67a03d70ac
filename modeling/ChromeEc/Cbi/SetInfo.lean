import Mathlib.Tactic.IntervalCases
import ChromeEc.Cbi.Walk

/- cbi_set_board_info.

  A value is written over an entry of the same size, or appended behind the image. What
  each of the four ways through the function does is said once here
  (`cbiSetBoardInfo_denied`, `cbiSetBoardInfo_replaced`, `cbiSetBoardInfo_overwritten`,
  `cbiSetBoardInfo_absent`), and what an appended entry leaves in the image
  (`appended_below`, `appended_entry`, `totalSize_appended`). -/
namespace ChromeEc.Cbi

open ChromeEc.Lib.Memory

variable {m m' : Image} {tag : UInt32} {buf : Nat → UInt8} {size n p d : Nat} {size8 : UInt8} {cfg : Config}
  {drv : Storage} {c : Cache} {params : SetParams}

/-! ## Header fields -/

theorem setTotalSize_of_ne (hlo : d ≠ 6) (hhi : d ≠ 7) : setTotalSize m n d = m d := by
  simp [setTotalSize, hlo, hhi]

theorem setTotalSize_data (h : sizeofHeader ≤ d) : setTotalSize m n d = m d := by
  rw [sizeofHeader] at h
  exact setTotalSize_of_ne (by omega) (by omega)

theorem setTotalSize_self : setTotalSize m (totalSize m) = m := by
  have hlo : UInt8.ofNat (totalSize m) = m 6 := by
    rw [← UInt8.toNat_inj, UInt8.toNat_ofNat', totalSize]
    have := (m 6).toNat_lt
    omega
  have hhi : UInt8.ofNat (totalSize m / 256) = m 7 := by
    rw [← UInt8.toNat_inj, UInt8.toNat_ofNat', totalSize]
    have := (m 6).toNat_lt
    have := (m 7).toNat_lt
    omega
  rw [setTotalSize, hlo, hhi, Function.update_eq_self, Function.update_eq_self]

theorem minorVersion_eq_iff : minorVersion m' = minorVersion m ↔ m' 4 = m 4 := Iff.rfl
theorem majorVersion_eq_iff : majorVersion m' = majorVersion m ↔ m' 5 = m 5 := Iff.rfl
theorem crc_eq_iff : crc m' = crc m ↔ m' 3 = m 3 := Iff.rfl

theorem totalSize_eq_iff : totalSize m' = totalSize m ↔ m' 6 = m 6 ∧ m' 7 = m 7 := by
  have hlo := (m 6).toNat_lt
  have hlo' := (m' 6).toNat_lt
  rw [totalSize, totalSize, ← UInt8.toNat_inj, ← UInt8.toNat_inj]
  omega

theorem magic_eq (h : hasMagic m = true) (h' : hasMagic m' = true) : ∀ i < 3, m' i = m i := by
  simp only [hasMagic, Bool.and_eq_true, beq_iff_eq] at h h'
  intro i hi
  interval_cases i
  · rw [h.1.1, h'.1.1]
  · rw [h.1.2, h'.1.2]
  · rw [h.2, h'.2]

/-! ## The CRC covers the bytes behind it -/

theorem crcLoop_congr {c : UInt32} (h : ∀ a, p ≤ a → a < p + n → m' a = m a) : crcLoop m' n p c = crcLoop m n p c := by
  induction n generalizing p c with
  | zero => rfl
  | succ n ih =>
    rw [crcLoop, crcLoop, h p (Nat.le_refl _) (by omega)]
    exact ih fun a hlo hhi => h a (by omega) (by omega)

theorem cbiCrc8_congr (hsize : sizeofHeader ≤ totalSize m) (hsame : ∀ i, 4 ≤ i → i < totalSize m → m' i = m i) :
    cbiCrc8 m' = cbiCrc8 m := by
  have htotal : totalSize m' = totalSize m := totalSize_congr hsize fun i hlo => hsame i (by omega)
  rw [sizeofHeader] at hsize
  have hmax := totalSize_lt (m := m)
  rw [cbiCrc8, htotal, cbiCrc8, crosCrc8, crosCrc8]
  rw [crcLoop_congr fun a hlo hhi => hsame a hlo (by omega)]

/-! ## The current format -/

theorem updateFormat_of_ne (hcrc : d ≠ 3) (hminor : d ≠ 4) (hmajor : d ≠ 5) : updateFormat m d = m d := by
  simp [updateFormat, setCrc, setVersion, hcrc, hminor, hmajor]

theorem updateFormat_data (h : 6 ≤ d) : updateFormat m d = m d :=
  updateFormat_of_ne (by omega) (by omega) (by omega)

@[simp] theorem minorVersion_updateFormat : minorVersion (updateFormat m) = cbiVersionMinor := by
  have hminor : (4 : Nat) ≠ 5 := by decide
  have hcrc : (4 : Nat) ≠ 3 := by decide
  rw [minorVersion, updateFormat, setCrc, Function.update_of_ne hcrc, setVersion, Function.update_of_ne hminor,
    Function.update_self]

@[simp] theorem majorVersion_updateFormat : majorVersion (updateFormat m) = cbiVersionMajor := by
  have hcrc : (5 : Nat) ≠ 3 := by decide
  rw [majorVersion, updateFormat, setCrc, Function.update_of_ne hcrc, setVersion, Function.update_self]

@[simp] theorem totalSize_updateFormat : totalSize (updateFormat m) = totalSize m := by
  rw [totalSize, updateFormat_data (by decide), updateFormat_data (by decide), totalSize]

theorem crc_updateFormat (hsize : sizeofHeader ≤ totalSize m) : crc (updateFormat m) = cbiCrc8 (updateFormat m) := by
  have htotal : totalSize (setVersion m) = totalSize m := by simp [totalSize, setVersion]
  have hcovered : cbiCrc8 (updateFormat m) = cbiCrc8 (setVersion m) := by
    apply cbiCrc8_congr (by omega)
    intro i hlo _
    have hcrc : i ≠ 3 := by omega
    simp [updateFormat, setCrc, hcrc]
  rw [hcovered]
  simp [crc, updateFormat, setCrc]

theorem updateFormat_same (hminor : minorVersion m = cbiVersionMinor) (hmajor : majorVersion m = cbiVersionMajor)
    (hcrc : cbiCrc8 m = crc m) : updateFormat m = m := by
  have hversion : setVersion m = m := by
    rw [setVersion, ← hminor, minorVersion, Function.update_eq_self, ← hmajor, majorVersion, Function.update_eq_self]
  rw [updateFormat, hversion, setCrc, hcrc, crc, Function.update_eq_self]

/-! ## A fresh header -/

theorem bareHeader_zero (hlo : 3 ≤ d) (h6 : d ≠ 6) (h7 : d ≠ 7) (hin : d < n) : bareHeader m n d = 0 := by
  have hmagic : d ≠ 0 ∧ d ≠ 1 ∧ d ≠ 2 := by omega
  rw [bareHeader, setTotalSize_of_ne h6 h7, setMagic, Function.update_of_ne hmagic.2.2, Function.update_of_ne hmagic.2.1,
    Function.update_of_ne hmagic.1, fill]
  have hcell := @copy_inside _ m 0 _ _ (fun _ => 0) hin
  rwa [Nat.zero_add] at hcell

@[simp] theorem totalSize_bareHeader : totalSize (bareHeader m n) = sizeofHeader := by
  rw [bareHeader, totalSize_setTotalSize]
  decide

theorem hasMagic_bareHeader : hasMagic (bareHeader m n) = true := by
  simp [hasMagic, bareHeader, setTotalSize, setMagic]

theorem crc_bareHeader_ne (hfits : sizeofHeader ≤ n) : crc (bareHeader m n) ≠ cbiCrc8 (bareHeader m n) := by
  rw [sizeofHeader] at hfits
  have hcrc : crc (bareHeader m n) = 0 := bareHeader_zero (by decide) (by decide) (by decide) (by omega)
  have hcovered : cbiCrc8 (bareHeader m n) = cbiCrc8 (bareHeader (fun _ => 0) 8) := by
    apply cbiCrc8_congr totalSize_bareHeader.ge
    intro i hlo hhi
    have hsizes := totalSize_eq_iff.mp ((totalSize_bareHeader (m := m) (n := n)).trans
      (totalSize_bareHeader (m := fun _ => 0) (n := 8)).symm)
    rw [totalSize_bareHeader, sizeofHeader] at hhi
    by_cases h6 : i = 6
    · rw [h6, hsizes.1]
    · by_cases h7 : i = 7
      · rw [h7, hsizes.2]
      · rw [bareHeader_zero (by omega) h6 h7 (by omega), bareHeader_zero (by omega) h6 h7 hhi]
  rw [hcrc, hcovered]
  decide +kernel

theorem headers_bareHeader : headers (bareHeader m n) = [] := by
  apply List.eq_nil_iff_forall_not_mem.mpr
  intro d hd
  have hin := mem_headers hd
  rw [totalSize_bareHeader] at hin
  omega

theorem cbiFindTag_bareHeader : cbiFindTag (bareHeader m n) tag = none := by
  rw [cbiFindTag_eq, headers_bareHeader, List.find?_nil]

/-! ## An appended entry -/

theorem cbiSetData_fst (hsize : size ≠ 0) : (cbiSetData m p tag buf size).1 =
    copy (Function.update (Function.update m p tag.toUInt8) (p + 1) (UInt8.ofNat size)) (p + sizeofData) size buf := by
  rw [cbiSetData, if_neg hsize]

theorem cbiSetData_snd (hsize : size ≠ 0) : (cbiSetData m p tag buf size).2 = p + sizeofData + size := by
  rw [cbiSetData, if_neg hsize]

/-- The image with an entry behind it. -/
def appended (m : Image) (tag : UInt32) (buf : Nat → UInt8) (size : Nat) : Image :=
  setTotalSize (cbiSetData m (totalSize m) tag buf size).1 (cbiSetData m (totalSize m) tag buf size).2

theorem appendItem_overflow (h : cfg.imageSize < totalSize m + sizeofData + size) :
    appendItem cfg m tag buf size = (.errorOverflow, m) := by
  rw [appendItem, if_pos h]

theorem appendItem_fits (h : totalSize m + sizeofData + size ≤ cfg.imageSize) :
    appendItem cfg m tag buf size = (.success, appended m tag buf size) := by
  rw [appendItem, if_neg (Nat.not_lt_of_le h), appended]

theorem appended_zero : appended m tag buf 0 = m := by
  rw [appended, cbiSetData, if_pos rfl]
  exact setTotalSize_self

theorem totalSize_appended (hsize : size ≠ 0) (h : totalSize m + sizeofData + size ≤ cfg.imageSize) :
    totalSize (appended m tag buf size) = totalSize m + sizeofData + size := by
  have hmax := cfg.size_fits
  rw [appended, totalSize_setTotalSize, cbiSetData_snd hsize]
  exact Nat.mod_eq_of_lt (by omega)

theorem appended_below (h : d < totalSize m) (hlo : d ≠ 6) (hhi : d ≠ 7) : appended m tag buf size d = m d := by
  by_cases hsize : size = 0
  · rw [hsize, appended_zero]
  · have htag : d ≠ totalSize m := by omega
    have hcount : d ≠ totalSize m + 1 := by omega
    rw [appended, setTotalSize_of_ne hlo hhi, cbiSetData_fst hsize, copy_of_lt (by omega),
      Function.update_of_ne hcount, Function.update_of_ne htag]

theorem appended_entry (hsize : size ≠ 0) (hheader : sizeofHeader ≤ totalSize m) :
    Holds (appended m tag buf size) (totalSize m) (tag.toUInt8 :: UInt8.ofNat size :: (List.range size).map buf) := by
  apply Holds.congr (m := (cbiSetData m (totalSize m) tag buf size).1) ?_
    fun a hlo _ => setTotalSize_data (Nat.le_trans hheader hlo)
  rw [cbiSetData_fst hsize, holds_cons, holds_cons]
  refine ⟨?_, ?_, ?_⟩
  · rw [copy_of_lt (by simp [sizeofData]), Function.update_of_ne (Nat.ne_of_lt (Nat.lt_succ_self _)),
      Function.update_self]
  · rw [copy_of_lt (by simp [sizeofData]), Function.update_self]
  · intro i hi
    have hin : i < size := by simpa using hi
    have hcell := @copy_inside _ (Function.update (Function.update m (totalSize m) tag.toUInt8) (totalSize m + 1)
      (UInt8.ofNat size)) (totalSize m + sizeofData) _ _ buf hin
    simpa [sizeofData] using hcell

/-! ## The ways through cbi_set_board_info -/

theorem cbiSetBoardInfo_absent (h : cbiFindTag m tag = none) :
    cbiSetBoardInfo cfg m tag buf size8 = appendItem cfg m tag buf size8.toNat := by
  simp only [cbiSetBoardInfo, h]

theorem cbiSetBoardInfo_found (h : cbiFindTag m tag = some d) :
    cbiSetBoardInfo cfg m tag buf size8 =
      if setOnce cfg tag then (.resAccessDenied, m)
      else if dataSize m d ≠ size8.toNat then appendItem cfg (cbiRemoveTag m d) tag buf size8.toNat
      else (.success, copy m (d + sizeofData) (dataSize m d) buf) := by
  simp only [cbiSetBoardInfo, h]

theorem cbiSetBoardInfo_denied (h : cbiFindTag m tag = some d) (hdenied : setOnce cfg tag = true) :
    cbiSetBoardInfo cfg m tag buf size8 = (.resAccessDenied, m) := by
  rw [cbiSetBoardInfo_found h, if_pos hdenied]

theorem cbiSetBoardInfo_replaced (h : cbiFindTag m tag = some d) (hallowed : setOnce cfg tag = false)
    (hsize : dataSize m d ≠ size8.toNat) :
    cbiSetBoardInfo cfg m tag buf size8 = appendItem cfg (cbiRemoveTag m d) tag buf size8.toNat := by
  rw [cbiSetBoardInfo_found h, hallowed, if_neg Bool.false_ne_true, if_pos hsize]

theorem cbiSetBoardInfo_overwritten (h : cbiFindTag m tag = some d) (hallowed : setOnce cfg tag = false)
    (hsize : dataSize m d = size8.toNat) :
    cbiSetBoardInfo cfg m tag buf size8 = (.success, copy m (d + sizeofData) size8.toNat buf) := by
  rw [cbiSetBoardInfo_found h, hallowed, if_neg Bool.false_ne_true, if_neg (not_not_intro hsize), hsize]

/-! ## The end of common_cbi_set -/

def WriteFails (drv : Storage) (params : SetParams) : Prop :=
  params.noSync = false ∧ (drv.isProtectedAtWrite = true ∨ drv.storeFails = true)

theorem cbiWrite_ne_success : cbiWrite drv ≠ .success ↔ drv.isProtectedAtWrite = true ∨ drv.storeFails = true := by
  rw [cbiWrite]
  split
  · simp_all
  · split <;> simp_all

theorem setAndWrite_of_success
    (h : cbiSetBoardInfo cfg c.image params.tag params.data params.size.toUInt8 = (.success, m)) :
    (setAndWrite cfg drv c params).2 = { image := updateFormat m, synced := true } ∧
      ((setAndWrite cfg drv c params).1 ≠ .success ↔ WriteFails drv params) := by
  simp only [setAndWrite, h]
  rw [WriteFails, ← cbiWrite_ne_success]
  cases params.noSync with
  | true => simp
  | false =>
    rw [if_neg Bool.false_ne_true]
    split
    · rename_i hfails
      simp [hfails]
    · rename_i hwritten
      simp [hwritten]

theorem setAndWrite_of_error {rv : Rv}
    (h : cbiSetBoardInfo cfg c.image params.tag params.data params.size.toUInt8 = (rv, m)) (hrv : rv ≠ .success) :
    setAndWrite cfg drv c params = (.resInvalidParam, { c with image := m }) := by
  simp only [setAndWrite, h]

end ChromeEc.Cbi
