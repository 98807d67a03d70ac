import Mathlib.Data.List.Find
import Mathlib.Data.List.Pairwise
import ChromeEc.Cbi.Model

/- The walk over the entries.

  The sizes of the entries chain their headers. The walk of cbi_find_tag looks at each
  header of the chain once and takes the first with the tag (`cbiFindTag_eq`); it always
  ends (`findFrom_ends`). An entry lies before every later header (`headersFrom_ordered`),
  so that only the last one can run past total_size (`eq_last_of_overruns`). -/
namespace ChromeEc.Cbi

open ChromeEc.Lib.Memory

variable {m m' : Image} {tag : UInt32} {d e p fuel : Nat} {cfg : Config}

def entryEnd (m : Image) (d : Nat) : Nat := d + sizeofData + dataSize m d

def headersFrom (m : Image) : Nat → Nat → List Nat
  | 0, _ => []
  | fuel + 1, p => if p + sizeofData < totalSize m then p :: headersFrom m fuel (entryEnd m p) else []

def headers (m : Image) : List Nat := headersFrom m (totalSize m) sizeofHeader

def hasTag (m : Image) (tag : UInt32) (d : Nat) : Bool := (dataTag m d).toUInt32 == tag

theorem lt_entryEnd : d + 1 < entryEnd m d := by
  rw [entryEnd, sizeofData]
  omega

/-! ## total_size -/

theorem totalSize_lt : totalSize m < 0x10000 := by
  have hlo := (m 6).toNat_lt
  have hhi := (m 7).toNat_lt
  rw [totalSize]
  omega

@[simp] theorem totalSize_setTotalSize (n : Nat) : totalSize (setTotalSize m n) = n % 0x10000 := by
  simp [totalSize, setTotalSize]
  omega

theorem totalSize_cbiRemoveTag {d : Nat} :
    totalSize (cbiRemoveTag m d) = (totalSize m + 0x10000 - (sizeofData + dataSize m d)) % 0x10000 := by
  simp only [cbiRemoveTag, totalSize_setTotalSize]
  omega

/-! ## The walk is a search through the chain -/

theorem findFrom_eq (hfuel : totalSize m ≤ p + fuel) :
    findFrom m tag (fuel + 1) p = some ((headersFrom m fuel p).find? (hasTag m tag)) := by
  induction fuel generalizing p with
  | zero =>
    have hend : ¬ p + sizeofData < totalSize m := by omega
    simp [findFrom, headersFrom, hend]
  | succ fuel ih =>
    rw [findFrom, headersFrom]
    split
    · -- the entry at `p` is looked at
      have hnext : totalSize m ≤ entryEnd m p + fuel := by
        have := lt_entryEnd (m := m) (d := p)
        omega
      rw [List.find?_cons]
      by_cases htag : (dataTag m p).toUInt32 = tag
      · simp [hasTag, htag]
      · have hother : hasTag m tag p = false := by simp [hasTag, htag]
        rw [if_neg htag, hother]
        exact ih hnext
    · simp

theorem findFrom_ends : findFrom m tag (totalSize m + 1) sizeofHeader = some ((headers m).find? (hasTag m tag)) :=
  findFrom_eq (by omega)

theorem cbiFindTag_eq : cbiFindTag m tag = (headers m).find? (hasTag m tag) := by
  rw [cbiFindTag, findFrom_ends, Option.join_some]

theorem findFrom_le (h : findFrom m tag fuel p = some (some d)) : p ≤ d := by
  induction fuel generalizing p with
  | zero => cases h
  | succ fuel ih =>
    rw [findFrom] at h
    split at h
    · split at h
      · cases h
        exact Nat.le_refl _
      · have hlater := ih h
        omega
    · cases h

/-! ## The chain -/

theorem of_mem_headersFrom (h : d ∈ headersFrom m fuel p) : p ≤ d ∧ d + sizeofData < totalSize m := by
  induction fuel generalizing p with
  | zero => simp [headersFrom] at h
  | succ fuel ih =>
    rw [headersFrom] at h
    split at h
    · rename_i hin
      rcases List.mem_cons.mp h with rfl | hrest
      · exact ⟨Nat.le_refl _, hin⟩
      · have hlater := ih hrest
        have := lt_entryEnd (m := m) (d := p)
        exact ⟨by omega, hlater.2⟩
    · simp at h

theorem eq_or_behind_of_mem (h : d ∈ headersFrom m fuel p) : d = p ∨ entryEnd m p ≤ d := by
  cases fuel with
  | zero => simp [headersFrom] at h
  | succ fuel =>
    rw [headersFrom] at h
    split at h
    · rcases List.mem_cons.mp h with hfirst | hrest
      · exact .inl hfirst
      · exact .inr (of_mem_headersFrom hrest).1
    · simp at h

theorem headersFrom_ordered : (headersFrom m fuel p).Pairwise fun d e => entryEnd m d ≤ e := by
  induction fuel generalizing p with
  | zero => simp [headersFrom]
  | succ fuel ih =>
    rw [headersFrom]
    split
    · exact List.pairwise_cons.mpr ⟨fun e he => (of_mem_headersFrom he).1, ih⟩
    · simp

theorem mem_headers (h : d ∈ headers m) : sizeofHeader ≤ d ∧ d + sizeofData < totalSize m :=
  of_mem_headersFrom h

theorem cbiFindTag_some_iff : cbiFindTag m tag = some d ↔
    hasTag m tag d = true ∧ ∃ before after, headers m = before ++ d :: after ∧ ∀ e ∈ before, hasTag m tag e = false := by
  rw [cbiFindTag_eq, List.find?_eq_some_iff_append]
  simp

theorem cbiFindTag_bounds (h : cbiFindTag m tag = some d) : sizeofHeader ≤ d ∧ d + sizeofData < totalSize m := by
  rw [cbiFindTag_eq] at h
  exact mem_headers (List.mem_of_find?_eq_some h)

theorem eq_last_of_overruns {before after : List Nat} (h : headers m = before ++ d :: after)
    (hover : totalSize m < entryEnd m d) : after = [] := by
  rcases after with - | ⟨e, after⟩
  · rfl
  · have hordered := @headersFrom_ordered m sizeofHeader (totalSize m)
    rw [← headers, h] at hordered
    have hnext : entryEnd m d ≤ e := (List.pairwise_cons.mp (List.pairwise_append.mp hordered).2.1).1 e List.mem_cons_self
    have hin := (mem_headers (m := m) (d := e) (by simp [h])).2
    omega

/-! ## The walk reads nothing behind total_size -/

theorem totalSize_of_header (hsame : ∀ i < sizeofHeader, m' i = m i) : totalSize m' = totalSize m := by
  rw [totalSize, hsame 6 (by decide), hsame 7 (by decide), totalSize]

theorem totalSize_congr (hsize : sizeofHeader ≤ totalSize m) (hsame : ∀ i, 6 ≤ i → i < totalSize m → m' i = m i) :
    totalSize m' = totalSize m := by
  rw [sizeofHeader] at hsize
  rw [totalSize, hsame 6 (by omega) (by omega), hsame 7 (by omega) (by omega), totalSize]

theorem headersFrom_congr (htotal : totalSize m' = totalSize m) (hp : 6 ≤ p)
    (hsame : ∀ i, 6 ≤ i → i < totalSize m → m' i = m i) : headersFrom m' fuel p = headersFrom m fuel p := by
  induction fuel generalizing p with
  | zero => rfl
  | succ fuel ih =>
    rw [headersFrom, headersFrom, htotal]
    split
    · rename_i hin
      rw [sizeofData] at hin
      have hend : entryEnd m' p = entryEnd m p := by
        rw [entryEnd, dataSize, hsame (p + 1) (by omega) (by omega), entryEnd, dataSize]
      have hnext := lt_entryEnd (m := m) (d := p)
      rw [hend, ih (by omega)]
    · rfl

theorem cbiFindTag_congr (hsize : sizeofHeader ≤ totalSize m) (hsame : ∀ i, 6 ≤ i → i < totalSize m → m' i = m i) :
    cbiFindTag m' tag = cbiFindTag m tag := by
  have htotal := totalSize_congr hsize hsame
  have hheaders : headers m' = headers m := by
    rw [headers, htotal, headersFrom_congr htotal (by decide) hsame, headers]
  rw [cbiFindTag_eq, cbiFindTag_eq, hheaders]
  apply List.find?_congr
  intro d hd
  have hin := mem_headers hd
  rw [sizeofHeader] at hin
  rw [hasTag, hasTag, dataTag, hsame d (by omega) (by omega), dataTag]

/-- What lies behind the header that is found does not matter. -/
theorem findFrom_prefix (htotal : totalSize m' = totalSize m) (hsame : ∀ i, p ≤ i → i < d + sizeofData → m' i = m i)
    (h : findFrom m tag fuel p = some (some d)) : findFrom m' tag fuel p = some (some d) := by
  induction fuel generalizing p with
  | zero => cases h
  | succ fuel ih =>
    rw [findFrom] at h ⊢
    rw [htotal]
    split at h
    · rename_i hin
      rw [if_pos hin]
      split at h
      · rename_i htag
        obtain rfl : p = d := Option.some.inj (Option.some.inj h)
        have hsameTag : dataTag m' p = dataTag m p := hsame p (Nat.le_refl _) (by simp [sizeofData])
        rw [hsameTag, if_pos htag]
      · rename_i htag
        have hpast := findFrom_le h
        have hbelow : p + 1 < d + sizeofData := by
          rw [sizeofData] at hpast ⊢
          omega
        have hsameTag : dataTag m' p = dataTag m p := hsame p (Nat.le_refl _) (by omega)
        have hsameSize : dataSize m' p = dataSize m p := congrArg UInt8.toNat (hsame (p + 1) (Nat.le_succ _) hbelow)
        rw [hsameTag, if_neg htag, hsameSize]
        exact ih (fun i hlo hhi => hsame i (by omega) hhi) h
    · cases h

theorem cbiFindTag_prefix (htotal : totalSize m' = totalSize m)
    (hsame : ∀ i, sizeofHeader ≤ i → i < d + sizeofData → m' i = m i) (h : cbiFindTag m tag = some d) :
    cbiFindTag m' tag = some d := by
  rw [cbiFindTag, Option.join_eq_some_iff] at h ⊢
  rw [htotal]
  exact findFrom_prefix htotal hsame h

end ChromeEc.Cbi
