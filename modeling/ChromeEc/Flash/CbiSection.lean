import ChromeEc.Flash.Model
import Mathlib.Order.Interval.Set.Basic

/- The CBI section in flash is hidden from readers and kept from writers.

  A request for `[offset, offset + size)` is one for two spans, before and after the
  section, where it meets the section at all (`span_diff_cbi`); either may be empty. Writing
  and erasing are the same access to these two (`does_around`), with what the driver does to
  a byte as their only difference. What a read returns is first the bytes of flash and then
  `0xff` where the section is (`crecFlashRead_ok`). -/
namespace ChromeEc.Flash
open ChromeEc.Lib ChromeEc.Lib.Memory ChromeEc.Lib.Access

variable {c : Config} {chip : Chip c} {m m' : Image} {o n : Nat}

/-! ## The spans of a request -/

theorem span_diff_cbi (hover : checkCbiSectionOverlap c o n = true) :
    span o n \ c.cbi = span o (c.cbiOffset - o) ∪ span c.cbiEnd (o + n - c.cbiEnd) := by
  have hends := checkCbiSectionOverlap_iff.mp hover
  ext a
  simp only [Set.mem_sdiff, Set.mem_union, mem_span, mem_cbi]
  omega

theorem span_diff_cbi_of_apart (hapart : checkCbiSectionOverlap c o n = false) : span o n \ c.cbi = span o n := by
  have hends : ¬(c.cbiOffset < o + n ∧ o < c.cbiEnd) := by
    rw [← checkCbiSectionOverlap_iff, hapart]
    exact Bool.false_ne_true
  ext a
  simp only [Set.mem_sdiff, mem_span, mem_cbi]
  omega

theorem disjoint_around : Disjoint (span o (c.cbiOffset - o)) (span c.cbiEnd (o + n - c.cbiEnd)) := by
  rw [Set.disjoint_left]
  intro a hbefore hafter
  obtain ⟨hlo, hbelow⟩ := mem_span.mp hbefore
  obtain ⟨habove, _⟩ := mem_span.mp hafter
  unfold Config.cbiEnd at habove
  omega

theorem span_eq_empty : span o 0 = ∅ := Set.Ico_self o

theorem writeSize_dvd : c.writeSize ∣ c.eraseSize := Nat.pow_dvd_pow 2 c.shifts

/-- The part of a request before the section is one the driver can be made. -/
theorem Fits.before {unit : Nat} (hunit : unit ∣ c.eraseSize) (h : Fits c unit o n) (hlo : o < c.cbiOffset)
    (hover : checkCbiSectionOverlap c o n = true) : Fits c unit o (c.cbiOffset - o) := by
  obtain ⟨ho, hn, hend⟩ := h
  have hends := checkCbiSectionOverlap_iff.mp hover
  exact ⟨ho, Nat.dvd_sub (Nat.dvd_trans hunit c.offsetAligned) ho, by omega⟩

theorem Fits.after {unit : Nat} (hunit : unit ∣ c.eraseSize) (h : Fits c unit o n) (hhi : c.cbiEnd < o + n) :
    Fits c unit c.cbiEnd (o + n - c.cbiEnd) := by
  obtain ⟨ho, hn, hend⟩ := h
  have hcbi : unit ∣ c.cbiEnd := Nat.dvd_add (Nat.dvd_trans hunit c.offsetAligned) (Nat.dvd_trans hunit c.sizeAligned)
  exact ⟨hcbi, Nat.dvd_sub (Nat.dvd_add ho hn) hcbi, by omega⟩

section
variable {eff : Nat → UInt8 → UInt8} {first : Left Err UInt8} {second : Image → Left Err UInt8}

/-- What `crec_flash_write` and `crec_flash_erase` do with a request that meets the section. -/
theorem does_around (hover : checkCbiSectionOverlap c o n = true)
    (hfirst : o < c.cbiOffset → Does eff (span o (c.cbiOffset - o)) m first)
    (hsecond : c.cbiEnd < o + n → ∀ m', Does eff (span c.cbiEnd (o + n - c.cbiEnd)) m' (second m')) :
    Does eff (span o n \ c.cbi) m
      (andThen (if (o : Int) < c.cbiOffset then first else (.ok (), m)) fun m =>
        if (o : Int) + n > c.cbiOffset + c.cbiSize then second m else (.ok (), m)) := by
  rw [span_diff_cbi hover]
  have hbefore : Does eff (span o (c.cbiOffset - o)) m (if (o : Int) < c.cbiOffset then first else (.ok (), m)) := by
    apply Does.skip_or
    · intro hlo
      exact hfirst (by omega)
    · intro hlo
      have hzero : c.cbiOffset - o = 0 := by omega
      rw [hzero, span_eq_empty]
  apply hbefore.andThen _ disjoint_around
  apply Does.skip_or
  · intro hhi
    exact hsecond (by unfold Config.cbiEnd; omega) _
  · intro hhi
    have hzero : o + n - c.cbiEnd = 0 := by
      unfold Config.cbiEnd
      omega
    rw [hzero, span_eq_empty]

theorem ok_around (hfirst : o < c.cbiOffset → first.1 = .ok ())
    (hsecond : c.cbiEnd < o + n → ∀ m', (second m').1 = .ok ()) :
    (andThen (if (o : Int) < c.cbiOffset then first else (.ok (), m)) fun m =>
      if (o : Int) + n > c.cbiOffset + c.cbiSize then second m else (.ok (), m)).1 = .ok () := by
  have hbefore : (if (o : Int) < c.cbiOffset then first else (.ok (), m)).1 = .ok () := by
    split
    · exact hfirst (by omega)
    · rfl
  rw [andThen_ok hbefore]
  split
  · exact hsecond (by unfold Config.cbiEnd; omega) _
  · rfl

end

/-! ## Writing and erasing -/

/-- The driver does whatever it can be asked. -/
def Chip.Works (chip : Chip c) : Prop :=
  (∀ (o n : Nat) d m, Fits c c.writeSize o n → (chip.write o n d m).1 = .ok ()) ∧
    ∀ (o n : Nat) m, Fits c c.eraseSize o n → (chip.erase o n m).1 = .ok ()

/-- What a write of the buffer makes of the byte at an address. -/
def written (chip : Chip c) (o : Nat) (data : Data) (a : Nat) (old : UInt8) : UInt8 :=
  chip.program old (data.bytes (a - o))

theorem misaligned_iff {a b d : Nat} :
    (((a ||| b ||| d) &&& (c.writeSize - 1)) != 0) = true ↔ ¬(c.writeSize ∣ a ∧ c.writeSize ∣ b ∧ c.writeSize ∣ d) := by
  rw [bne_iff_ne, ne_eq, Config.writeSize, or_and_eq_zero]
  have hsplit : 2 ^ c.writeShift ∣ a ||| b ↔ 2 ^ c.writeShift ∣ a ∧ 2 ^ c.writeShift ∣ b := by
    rw [← or_and_eq_zero, Nat.and_two_pow_sub_one_eq_mod, Nat.dvd_iff_mod_eq_zero]
  rw [hsplit, and_assoc]

theorem physicalWrite_does {data : Data} (h : Fits c c.writeSize o n) :
    Does (written chip o data) (span o n) m (crecFlashPhysicalWrite c chip m o n data) := by
  unfold crecFlashPhysicalWrite
  split
  · exact Does.failed
  · exact chip.write_does o n data.bytes m h

theorem physicalWrite_ok {data : Data} (hworks : chip.Works) (h : Fits c c.writeSize o n)
    (haddr : c.writeSize ∣ data.addr) : (crecFlashPhysicalWrite c chip m o n data).1 = .ok () := by
  unfold crecFlashPhysicalWrite
  rw [if_neg]
  · exact hworks.1 o n data.bytes m h
  · rw [misaligned_iff, not_not]
    exact ⟨h.1, h.2.1, haddr⟩

theorem written_drop {data : Data} {a k : Nat} {old : UInt8} (hk : o ≤ k) (ha : k ≤ a) :
    written chip k (data.drop ((k : Int) - o)) a old = written chip o data a old := by
  have hindex : ((k : Int) - o).toNat + (a - k) = a - o := by omega
  simp only [written, Data.drop, hindex]

theorem cast_before (hlo : o < c.cbiOffset) : (c.cbiOffset : Int) - o = (c.cbiOffset - o : Nat) := by omega

theorem cast_after (hhi : c.cbiEnd < o + n) : (o : Int) + n - c.cbiEnd = (o + n - c.cbiEnd : Nat) := by omega

theorem cast_cbiEnd : (c.cbiOffset : Int) + c.cbiSize = c.cbiEnd := (Int.natCast_add _ _).symm

theorem crecFlashWrite_does {data : Data} (h : Fits c c.writeSize o n) :
    Does (written chip o data) (span o n \ c.cbi) m (crecFlashWrite c chip m o n data) := by
  have hrange : flashRangeOk c o n c.writeSize = true := flashRangeOk_iff.mpr ⟨o, n, rfl, rfl, h⟩
  simp only [crecFlashWrite, hrange, Bool.not_true, Bool.false_eq_true, if_false]
  cases hover : checkCbiSectionOverlap c o n with
  | false =>
    rw [if_neg Bool.false_ne_true, span_diff_cbi_of_apart hover]
    exact physicalWrite_does h
  | true =>
    rw [if_pos rfl]
    refine does_around hover (fun hlo => ?_) (fun hhi m' => ?_)
    · rw [cast_before hlo]
      exact physicalWrite_does (h.before writeSize_dvd hlo hover)
    · have hstart : o ≤ c.cbiEnd := le_of_lt (checkCbiSectionOverlap_iff.mp hover).2
      rw [cast_cbiEnd, cast_after hhi]
      refine (physicalWrite_does (h.after writeSize_dvd hhi)).congr (fun a ha => ?_) rfl
      exact written_drop hstart ha.1

theorem crecFlashWrite_ok {data : Data} (hworks : chip.Works) (h : Fits c c.writeSize o n)
    (haddr : c.writeSize ∣ data.addr) : (crecFlashWrite c chip m o n data).1 = .ok () := by
  have hrange : flashRangeOk c o n c.writeSize = true := flashRangeOk_iff.mpr ⟨o, n, rfl, rfl, h⟩
  simp only [crecFlashWrite, hrange, Bool.not_true, Bool.false_eq_true, if_false]
  cases hover : checkCbiSectionOverlap c o n with
  | false => exact physicalWrite_ok hworks h haddr
  | true =>
    refine ok_around (fun hlo => ?_) (fun hhi m' => ?_)
    · rw [cast_before hlo]
      exact physicalWrite_ok hworks (h.before writeSize_dvd hlo hover) haddr
    · have hstart : o ≤ c.cbiEnd := le_of_lt (checkCbiSectionOverlap_iff.mp hover).2
      have hafter := h.after writeSize_dvd hhi
      rw [cast_cbiEnd, cast_after hhi]
      apply physicalWrite_ok hworks hafter
      have hskip : ((c.cbiEnd : Int) - o).toNat = c.cbiEnd - o := by omega
      rw [Data.drop, hskip]
      exact Nat.dvd_add haddr (Nat.dvd_sub hafter.1 h.1)

theorem erase_passes (h : Fits c c.eraseSize o n) :
    (!c.multipleRegion && !flashRangeOk c o n c.eraseSize) = false := by
  have hrange : flashRangeOk c o n c.eraseSize = true := flashRangeOk_iff.mpr ⟨o, n, rfl, rfl, h⟩
  rw [hrange, Bool.not_true, Bool.and_false]

theorem crecFlashErase_does (h : Fits c c.eraseSize o n) :
    Does (fun _ _ => 0xff) (span o n \ c.cbi) m (crecFlashErase c chip m o n) := by
  simp only [crecFlashErase, erase_passes h, Bool.false_eq_true, if_false]
  cases hover : checkCbiSectionOverlap c o n with
  | false =>
    rw [if_neg Bool.false_ne_true, span_diff_cbi_of_apart hover]
    exact chip.erase_does o n m h
  | true =>
    rw [if_pos rfl]
    refine does_around hover (fun hlo => ?_) (fun hhi m' => ?_)
    · rw [cast_before hlo]
      exact chip.erase_does _ _ m (h.before (Nat.dvd_refl _) hlo hover)
    · rw [cast_cbiEnd, cast_after hhi]
      exact chip.erase_does _ _ m' (h.after (Nat.dvd_refl _) hhi)

theorem crecFlashErase_ok (hworks : chip.Works) (h : Fits c c.eraseSize o n) :
    (crecFlashErase c chip m o n).1 = .ok () := by
  simp only [crecFlashErase, erase_passes h, Bool.false_eq_true, if_false]
  cases hover : checkCbiSectionOverlap c o n with
  | false => exact hworks.2 o n m h
  | true =>
    refine ok_around (fun hlo => ?_) (fun hhi m' => ?_)
    · rw [cast_before hlo]
      exact hworks.2 _ _ m (h.before (Nat.dvd_refl _) hlo hover)
    · rw [cast_cbiEnd, cast_after hhi]
      exact hworks.2 _ _ m' (h.after (Nat.dvd_refl _) hhi)

/-! ## Where an accepted request changes flash -/

theorem crecFlashWrite_keeps {offset size : Int} {data : Data} {a : Nat}
    (hchanged : (crecFlashWrite c chip m offset size data).2 a ≠ m a) : 0 ≤ offset ∧ offset ≤ a ∧ a < offset + size := by
  cases hrange : flashRangeOk c offset size c.writeSize with
  | false =>
    unfold crecFlashWrite at hchanged
    rw [hrange] at hchanged
    exact absurd rfl hchanged
  | true =>
    obtain ⟨o, n, rfl, rfl, hfits⟩ := flashRangeOk_iff.mp hrange
    have hin : a ∈ span o n \ c.cbi := by
      by_contra hout
      exact hchanged ((crecFlashWrite_does hfits).frame a hout)
    have hspan := mem_span.mp hin.1
    omega

/-- An erase the driver refuses or keeps inside its range, for the part after the section
as well. -/
theorem eraseAround_keeps {offset size : Int} {a : Nat} (hbanks : c.multipleRegion = true)
    (hchanged : (crecFlashErase c chip m offset size).2 a ≠ m a) : 0 ≤ offset ∧ offset ≤ a ∧ a < offset + size := by
  simp only [crecFlashErase, hbanks, Bool.not_true, Bool.false_and, Bool.false_eq_true, if_false] at hchanged
  cases hover : checkCbiSectionOverlap c offset size with
  | false =>
    rw [hover, if_neg Bool.false_ne_true] at hchanged
    rcases chip.erase_banks hbanks offset size m with ⟨e, hrefused⟩ | ⟨ho, _, _, hkeeps⟩
    · rw [crecFlashPhysicalErase, hrefused] at hchanged
      exact absurd rfl hchanged
    · exact ⟨ho, hkeeps a hchanged⟩
  | true =>
    have hends : (c.cbiOffset : Int) < offset + size ∧ offset < c.cbiOffset + c.cbiSize := by
      simp only [checkCbiSectionOverlap, Bool.not_eq_true', Bool.or_eq_false_iff, decide_eq_false_iff_not] at hover
      omega
    rw [hover, if_pos rfl] at hchanged
    -- what the part after the section may change, whatever the part before it left
    have hafter : ∀ m', (if offset + size > c.cbiOffset + c.cbiSize then
          crecFlashPhysicalErase c chip m' (c.cbiOffset + c.cbiSize) (offset + size - (c.cbiOffset + c.cbiSize))
        else (.ok (), m')).2 a ≠ m' a → offset ≤ a ∧ a < offset + size := by
      intro m' hne
      split at hne
      · rcases chip.erase_banks hbanks (c.cbiOffset + c.cbiSize) (offset + size - (c.cbiOffset + c.cbiSize)) m' with
          ⟨e, hrefused⟩ | ⟨_, _, _, hkeeps⟩
        · rw [crecFlashPhysicalErase, hrefused] at hne
          exact absurd rfl hne
        · have hspan := hkeeps a hne
          omega
      · exact absurd rfl hne
    by_cases hlo : offset < c.cbiOffset
    · rw [if_pos hlo] at hchanged
      rcases chip.erase_banks hbanks offset (c.cbiOffset - offset) m with ⟨e, hrefused⟩ | ⟨ho, _, _, hkeeps⟩
      · rw [crecFlashPhysicalErase, hrefused] at hchanged
        exact absurd rfl hchanged
      · refine ⟨ho, ?_⟩
        by_cases hfirst : (chip.erase offset (c.cbiOffset - offset) m).2 a = m a
        · cases hresult : (chip.erase offset (c.cbiOffset - offset) m).1 with
          | error e =>
            rw [crecFlashPhysicalErase, andThen_error hresult] at hchanged
            exact absurd hfirst hchanged
          | ok u =>
            rw [crecFlashPhysicalErase, andThen_ok hresult, ← hfirst] at hchanged
            exact hafter _ hchanged
        · have hspan := hkeeps a hfirst
          omega
    · rw [if_neg hlo, andThen_ok rfl] at hchanged
      exact ⟨by omega, hafter m hchanged⟩

theorem crecFlashErase_keeps {offset size : Int} {a : Nat}
    (hchanged : (crecFlashErase c chip m offset size).2 a ≠ m a) : 0 ≤ offset ∧ offset ≤ a ∧ a < offset + size := by
  cases hbanks : c.multipleRegion with
  | true => exact eraseAround_keeps hbanks hchanged
  | false =>
    cases hrange : flashRangeOk c offset size c.eraseSize with
    | false =>
      unfold crecFlashErase at hchanged
      rw [hrange, hbanks] at hchanged
      exact absurd rfl hchanged
    | true =>
      obtain ⟨o, n, rfl, rfl, hfits⟩ := flashRangeOk_iff.mp hrange
      have hin : a ∈ span o n \ c.cbi := by
        by_contra hout
        exact hchanged ((crecFlashErase_does hfits).frame a hout)
      have hspan := mem_span.mp hin.1
      omega

/-! ## Reading -/

/-- What the buffer of a request holds after a read that worked. -/
def shown (c : Config) (m : Image) (o n : Nat) (data : Nat → UInt8) (i : Nat) : UInt8 :=
  if i < n then if c.cbiOffset ≤ o + i ∧ o + i < c.cbiEnd then 0xff else m (o + i) else data i

theorem crecFlashDataptr_of_fits (h : Fits c 1 o n) : crecFlashDataptr c m o n 1 = some fun i => m (o + i) := by
  have hrange : flashRangeOk c o n (2 ^ 0) = true := flashRangeOk_iff.mpr ⟨o, n, rfl, rfl, h⟩
  exact if_pos hrange

theorem fill_start : (max (c.cbiOffset : Int) o - o).toNat = c.cbiOffset - o := by omega

theorem fill_size (hover : checkCbiSectionOverlap c o n = true) :
    (min ((c.cbiOffset : Int) + c.cbiSize) (o + n) - max (c.cbiOffset : Int) o).toNat =
      min c.cbiEnd (o + n) - max c.cbiOffset o := by
  have hends := checkCbiSectionOverlap_iff.mp hover
  rw [cast_cbiEnd]
  omega

theorem protect_copy {data : Nat → UInt8} :
    protectCbiOverlappedSection c o n (copy data 0 n fun i => m (o + i)) = shown c m o n data := by
  funext i
  unfold protectCbiOverlappedSection shown
  cases hover : checkCbiSectionOverlap c o n with
  | false =>
    have hends : ¬(c.cbiOffset < o + n ∧ o < c.cbiEnd) := by
      rw [← checkCbiSectionOverlap_iff, hover]
      exact Bool.false_ne_true
    simp only [Bool.false_eq_true, if_false, copy, Nat.zero_le, true_and, Nat.zero_add, Nat.sub_zero]
    split
    · rw [if_neg (by omega)]
    · rfl
  | true =>
    have hends := checkCbiSectionOverlap_iff.mp hover
    simp only [if_true, fill_start, fill_size hover, fill, copy, Nat.zero_le, true_and, Nat.zero_add, Nat.sub_zero]
    split_ifs with hfill hin hcbi hin hcbi
    all_goals first | rfl | omega

theorem crecFlashRead_of_fits (h : Fits c 1 o n) (data : Nat → UInt8) :
    crecFlashRead c chip m o n data =
      if c.mapped then .ok (shown c m o n data) else (chip.read o n).map fun _ => shown c m o n data := by
  simp only [crecFlashRead, crecFlashUnprotectedRead, crecFlashDataptr_of_fits h, Int.toNat_natCast]
  cases c.mapped with
  | true => simp only [if_true, protect_copy]
  | false =>
    simp only [Bool.false_eq_true, if_false]
    cases chip.read o n with
    | error e => rfl
    | ok u => simp only [protect_copy, Except.map]

theorem shown_congr {data : Nat → UInt8} (h : ∀ a, a ∉ c.cbi → m' a = m a) : shown c m' o n data = shown c m o n data := by
  funext i
  unfold shown
  split
  · split
    · rfl
    · rename_i hout
      exact h (o + i) hout
  · rfl

/-! ## Isolation -/

/-- A read of a range in flash returns its bytes with the section hidden, and nothing of it
depends on the section; it works where storage is mapped. A write and an erase change the
bytes of the range outside the section and no other; they work if the driver does. -/
theorem cbi_section_isolated (c : Config) (chip : Chip c) (m : Image) (offset size : Int) :
    (flashRangeOk c offset size 1 = true → ∀ data,
      (∀ out, crecFlashRead c chip m offset size data = .ok out →
        ∀ i, out i =
          if i < size.toNat then
            if c.cbiOffset ≤ offset.toNat + i ∧ offset.toNat + i < c.cbiEnd then 0xff else m (offset.toNat + i)
          else data i) ∧
      (c.mapped = true → ∃ out, crecFlashRead c chip m offset size data = .ok out) ∧
      ∀ m', (∀ a, a ∉ c.cbi → m' a = m a) →
        crecFlashRead c chip m' offset size data = crecFlashRead c chip m offset size data) ∧
    (flashRangeOk c offset size c.writeSize = true → ∀ data,
      Does (written chip offset.toNat data) (span offset.toNat size.toNat \ c.cbi) m
        (crecFlashWrite c chip m offset size data) ∧
      (chip.Works → c.writeSize ∣ data.addr → (crecFlashWrite c chip m offset size data).1 = .ok ())) ∧
    (flashRangeOk c offset size c.eraseSize = true →
      Does (fun _ _ => 0xff) (span offset.toNat size.toNat \ c.cbi) m (crecFlashErase c chip m offset size) ∧
      (chip.Works → (crecFlashErase c chip m offset size).1 = .ok ())) := by
  refine ⟨fun hrange data => ?_, fun hrange data => ?_, fun hrange => ?_⟩
  · obtain ⟨o, n, rfl, rfl, hfits⟩ := (flashRangeOk_iff (k := 0)).mp hrange
    have hread : ∀ m, crecFlashRead c chip m o n data =
        if c.mapped then .ok (shown c m o n data) else (chip.read o n).map fun _ => shown c m o n data :=
      fun m => crecFlashRead_of_fits hfits data
    refine ⟨fun out hout i => ?_, fun hmapped => ⟨_, (hread m).trans (if_pos hmapped)⟩, fun m' hsame => ?_⟩
    · have hshown : out = shown c m o n data := by
        rw [hread] at hout
        cases hmapped : c.mapped with
        | true =>
          rw [hmapped, if_pos rfl] at hout
          exact (Except.ok.inj hout).symm
        | false =>
          rw [hmapped, if_neg Bool.false_ne_true] at hout
          cases hchip : chip.read o n with
          | error e =>
            rw [hchip] at hout
            cases hout
          | ok u =>
            rw [hchip] at hout
            exact (Except.ok.inj hout).symm
      exact congrFun hshown i
    · rw [hread, hread, shown_congr hsame]
  · obtain ⟨o, n, rfl, rfl, hfits⟩ := flashRangeOk_iff.mp hrange
    exact ⟨crecFlashWrite_does hfits, fun hworks haddr => crecFlashWrite_ok hworks hfits haddr⟩
  · obtain ⟨o, n, rfl, rfl, hfits⟩ := flashRangeOk_iff.mp hrange
    exact ⟨crecFlashErase_does hfits, fun hworks => crecFlashErase_ok hworks hfits⟩

/-- A chip that clears the bits it programs. -/
def clearing (c : Config) : Chip c where
  program old new := old &&& new
  read _ _ := .ok ()
  write o n d m := (.ok (), copy m o.toNat n.toNat fun i => m (o.toNat + i) &&& d i)
  erase o n m :=
    if 0 ≤ o ∧ 0 ≤ n ∧ o + n ≤ c.flashSize then (.ok (), fill m o.toNat n.toNat 0xff) else (.error .inval, m)
  write_does o n d m _ := by
    constructor
    · intro a ha
      exact if_neg ha
    · intro _ a ha
      have hback : o + (a - o) = a := Nat.add_sub_cancel' (mem_span.mp ha).1
      refine (if_pos ha).trans ?_
      simp only [Int.toNat_natCast, hback]
  erase_does o n m h := by
    obtain ⟨_, _, hend⟩ := h
    rw [if_pos ⟨by omega, by omega, by omega⟩]
    exact ⟨fun a ha => if_neg ha, fun _ a ha => if_pos ha⟩
  erase_banks _ o n m := by
    by_cases hin : 0 ≤ o ∧ 0 ≤ n ∧ o + n ≤ c.flashSize
    · obtain ⟨ho, hn, hend⟩ := hin
      refine Or.inr ⟨ho, hn, hend, fun a ha => ?_⟩
      rw [if_pos ⟨ho, hn, hend⟩] at ha
      by_contra hout
      exact ha (if_neg (by omega))
    · exact Or.inl ⟨.inval, if_neg hin⟩

theorem clearing_works : (clearing c).Works := by
  refine ⟨fun _ _ _ _ _ => rfl, fun o n m h => ?_⟩
  obtain ⟨_, _, hend⟩ := h
  exact congrArg Prod.fst (if_pos ⟨by omega, by omega, by omega⟩)

/-- Four pages of eight bytes, the second of them the section. -/
def fourPages : Config where
  flashSize := 32
  writeShift := 0
  eraseShift := 3
  mapped := false
  multipleRegion := false
  cbiOffset := 8
  cbiSize := 8
  sizeFits := by decide
  shifts := by decide
  cbiFits := by decide
  offsetAligned := by decide
  sizeAligned := by decide

/-- A request for the section and a page on either side. -/
theorem cbi_section_isolated_straddling :
    (∀ m' : Image, (∀ a, a ∉ fourPages.cbi → m' a = 5) →
      crecFlashRead fourPages (clearing fourPages) m' 0 24 (fun _ => 0) =
        crecFlashRead fourPages (clearing fourPages) (fun _ => 5) 0 24 fun _ => 0) ∧
    (crecFlashWrite fourPages (clearing fourPages) (fun _ => 5) 0 24 ⟨0, fun _ => 4⟩).1 = .ok () ∧
    Does (fun _ _ => 0xff) (span 0 24 \ fourPages.cbi) (fun _ => 5)
      (crecFlashErase fourPages (clearing fourPages) (fun _ => 5) 0 24) := by
  obtain ⟨hread, hwrite, herase⟩ := cbi_section_isolated fourPages (clearing fourPages) (fun _ => 5) 0 24
  exact ⟨(hread (by decide) fun _ => 0).2.2, (hwrite (by decide) ⟨0, fun _ => 4⟩).2 clearing_works (by decide),
    (herase (by decide)).1⟩

end ChromeEc.Flash
