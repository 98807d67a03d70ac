import Mathlib.Algebra.BigOperators.Group.List.Basic
import Mathlib.Algebra.GroupWithZero.Nat
import ChromeEc.Lib.CInt

/- The banks of flash with several regions, the part of `common/flash.c` under
  CONFIG_FLASH_MULTIPLE_REGION.

  A region is a number of banks of one size. Taken apart it is the list of the sizes of its banks
  (`banks`), and the bank of index b begins where the sizes of those before it add up to
  (`startOf`). Each of the three loops follows this list: `crec_flash_bank_size` looks a size up,
  `crec_flash_bank_start_offset` adds the first ones up, `crec_flash_bank_index` searches for
  the sum. No bank is empty, so no offset is the start of two banks.

  Correspondence (C ↔ Lean):
    `struct ec_flash_bank` ↔ `EcFlashBank`
    `flash_bank_array` ↔ `FlashBankArray`
    `flash_bank_info`, `crec_flash_bank_size`, `crec_flash_bank_count` ↔ the same in camelCase
    `crec_flash_bank_index` ↔ `crecFlashBankIndex`, its loop `indexLoop`
    `crec_flash_bank_start_offset` ↔ `crecFlashBankStartOffset`, its loop `startLoop`
  A function has no value where an `int` overflows or an ASSERT fails. -/
namespace ChromeEc.Flash
open ChromeEc.Lib

/-- The members of `struct ec_flash_bank` that these functions read. -/
structure EcFlashBank where
  count : UInt16
  sizeExp : UInt8

/-- `BIT(info->size_exp)` -/
def EcFlashBank.size (r : EcFlashBank) : Nat := 2 ^ r.sizeExp.toNat

def banks (regions : List EcFlashBank) : List Nat := regions.flatMap fun r => List.replicate r.count.toNat r.size

/-- A bank's size and the size of flash are positive `int`s. -/
structure FlashBankArray where
  regions : List EcFlashBank
  size_fits : ∀ r ∈ regions, r.size < 2 ^ 31
  total_fits : (banks regions).sum < 2 ^ 31

def flashBankInfo (regions : List EcFlashBank) (bank : Int) : Option EcFlashBank :=
  match regions with
  | [] => none
  | r :: rest => if bank < r.count.toNat then some r else flashBankInfo rest (bank - r.count.toNat)

def crecFlashBankSize (a : FlashBankArray) (bank : Int) : Option Int :=
  match flashBankInfo a.regions bank with
  | none => some (-1)
  | some info => int info.size

def indexLoop (offset bankOffset : Int) : List EcFlashBank → Option Int
  | [] => if offset ≠ 0 then some (-1) else some bankOffset
  | r :: rest => do
    let allSectorSize ← int (r.count.toNat * r.size)
    if allSectorSize ≤ offset then
      indexLoop (← int (offset - allSectorSize)) (← int (bankOffset + r.count.toNat)) rest
    else
      let sectorSize ← int r.size
      -- the bits of the offset below size_exp
      if offset % sectorSize ≠ 0 then some (-1)
      else int (bankOffset + offset / sectorSize)

def crecFlashBankIndex (a : FlashBankArray) (offset : Int) : Option Int :=
  if offset = 0 then some 0 else indexLoop offset 0 a.regions

def crecFlashBankCount (a : FlashBankArray) (offset size : Int) : Option Int := do
  let first ← crecFlashBankIndex a offset
  let last ← crecFlashBankIndex a (← int (offset + size))
  if first = -1 ∨ last = -1 then return -1
  else int (last - first)

def startLoop (a : FlashBankArray) (i : Nat) (offset : Int) : Nat → Option Int
  | 0 => some offset
  | n + 1 => do
    let bankSize ← crecFlashBankSize a i
    if bankSize < 0 then return -1
    else startLoop a (i + 1) (← int (offset + bankSize)) n

def crecFlashBankStartOffset (a : FlashBankArray) (bank : Int) : Option Int :=
  if bank < 0 then some (-1) else startLoop a 0 0 bank.toNat

/-! ## Where the banks begin -/

/-- The start of the bank of index b, and the end of flash for the number of banks. -/
def startOf (sizes : List Nat) (b : Nat) : Nat := (sizes.take b).sum

/-- A bank begins at the offset, or flash ends there. -/
def Boundary (sizes : List Nat) (offset : Nat) : Prop := ∃ b ≤ sizes.length, startOf sizes b = offset

section

variable {regions : List EcFlashBank} {sizes : List Nat} {r : EcFlashBank} {a : FlashBankArray} {b c k o : Nat}

theorem startOf_zero (sizes : List Nat) : startOf sizes 0 = 0 := by simp [startOf]

theorem startOf_succ (hb : b < sizes.length) : startOf sizes (b + 1) = startOf sizes b + sizes[b] :=
  List.sum_take_succ sizes b hb

theorem startOf_le_sum (sizes : List Nat) (b : Nat) : startOf sizes b ≤ sizes.sum := by
  have hsplit : (sizes.take b ++ sizes.drop b).sum = sizes.sum := by rw [List.take_append_drop]
  rw [List.sum_append] at hsplit
  exact Nat.le.intro hsplit

theorem banks_cons (r : EcFlashBank) (regions : List EcFlashBank) :
    banks (r :: regions) = List.replicate r.count.toNat r.size ++ banks regions := List.flatMap_cons ..

theorem size_pos (r : EcFlashBank) : 0 < r.size := Nat.two_pow_pos _

theorem pos_of_mem_banks {n : Nat} (h : n ∈ banks regions) : 0 < n := by
  obtain ⟨r, -, hr⟩ := List.mem_flatMap.mp h
  rw [List.eq_of_mem_replicate hr]
  exact size_pos r

theorem startOf_strictMono (hpos : ∀ n ∈ sizes, 0 < n) (hlt : b < c) (hc : c ≤ sizes.length) :
    startOf sizes b < startOf sizes c := by
  induction c with
  | zero => exact absurd hlt (Nat.not_lt_zero b)
  | succ c ih =>
    have hstep := startOf_succ (show c < sizes.length from hc)
    have hsize := hpos _ (List.getElem_mem (show c < sizes.length from hc))
    obtain hlt | rfl : b < c ∨ b = c := by omega
    · have hrest := ih hlt (by omega)
      omega
    · omega

theorem startOf_inj (hpos : ∀ n ∈ sizes, 0 < n) (hb : b ≤ sizes.length) (hc : c ≤ sizes.length)
    (heq : startOf sizes b = startOf sizes c) : b = c := by
  obtain hlt | rfl | hgt := Nat.lt_trichotomy b c
  · have hstart := startOf_strictMono hpos hlt hc
    omega
  · rfl
  · have hstart := startOf_strictMono hpos hgt hb
    omega

theorem startOf_first (hb : b ≤ r.count.toNat) : startOf (banks (r :: regions)) b = b * r.size := by
  rw [banks_cons, startOf, List.take_append_of_le_length (by simpa using hb), List.take_replicate,
    Nat.min_eq_left hb, List.sum_replicate_nat]

theorem startOf_rest (b : Nat) :
    startOf (banks (r :: regions)) (r.count.toNat + b) = r.count.toNat * r.size + startOf (banks regions) b := by
  have hlength : (List.replicate r.count.toNat r.size).length = r.count.toNat := List.length_replicate ..
  rw [banks_cons, startOf, List.take_append, hlength, Nat.add_sub_cancel_left, List.sum_append,
    List.take_of_length_le (by omega), List.sum_replicate_nat]
  rfl

theorem length_banks_cons : (banks (r :: regions)).length = r.count.toNat + (banks regions).length := by
  rw [banks_cons, List.length_append, List.length_replicate]

theorem sum_banks_cons : (banks (r :: regions)).sum = r.count.toNat * r.size + (banks regions).sum := by
  rw [banks_cons, List.sum_append, List.sum_replicate_nat]

theorem length_banks_le (regions : List EcFlashBank) : (banks regions).length ≤ (banks regions).sum := by
  induction regions with
  | nil => exact Nat.le_refl _
  | cons r rest ih =>
    have hsize := Nat.le_mul_of_pos_right r.count.toNat (size_pos r)
    rw [length_banks_cons, sum_banks_cons]
    omega

/-! ## The three loops -/

theorem flashBankInfo_eq (hb : b < (banks regions).length) :
    ∃ r ∈ regions, flashBankInfo regions b = some r ∧ (banks regions)[b] = r.size := by
  induction regions generalizing b with
  | nil => exact absurd hb (Nat.not_lt_zero b)
  | cons r rest ih =>
    rw [length_banks_cons] at hb
    have hlength : (List.replicate r.count.toNat r.size).length = r.count.toNat := List.length_replicate ..
    by_cases hlt : b < r.count.toNat
    · refine ⟨r, List.mem_cons_self .., ?_, ?_⟩
      · rw [flashBankInfo, if_pos (by omega)]
      · simp only [banks_cons]
        rw [List.getElem_append_left (by omega), List.getElem_replicate]
    · obtain ⟨r', hmem, hinfo, hsize⟩ := ih (b := b - r.count.toNat) (by omega)
      refine ⟨r', List.mem_cons_of_mem r hmem, ?_, ?_⟩
      · rw [flashBankInfo, if_neg (by omega), ← hinfo]
        congr 1
        omega
      · simp only [banks_cons]
        rw [List.getElem_append_right (by omega)]
        simpa only [hlength] using hsize

theorem crecFlashBankSize_eq (hb : b < (banks a.regions).length) :
    crecFlashBankSize a b = some ((banks a.regions)[b] : Int) := by
  obtain ⟨r, hmem, hinfo, hsize⟩ := flashBankInfo_eq hb
  have hfits := a.size_fits r hmem
  rw [crecFlashBankSize, hinfo, hsize]
  exact int_natCast hfits

theorem startLoop_eq {n : Nat} (hb : b + n ≤ (banks a.regions).length) :
    startLoop a b (startOf (banks a.regions) b) n = some (startOf (banks a.regions) (b + n) : Int) := by
  induction n generalizing b with
  | zero => rfl
  | succ n ih =>
    have hlt : b < (banks a.regions).length := by omega
    have hstep := startOf_succ hlt
    have hfits := Nat.lt_of_le_of_lt (startOf_le_sum (banks a.regions) (b + 1)) a.total_fits
    have hsum : int ((startOf (banks a.regions) b : Int) + (banks a.regions)[b]) =
        some (startOf (banks a.regions) (b + 1) : Int) := by
      rw [hstep] at hfits ⊢
      exact int_natCast hfits
    rw [startLoop, crecFlashBankSize_eq hlt, Option.bind_eq_bind, Option.bind_some, if_neg (by omega), hsum,
      Option.bind_some, ih (by omega), Nat.add_assoc, Nat.add_comm 1]

/-- What the search gives: the bank that begins at the offset, if one does. -/
inductive Found (sizes : List Nat) (o k : Nat) (v : Int) : Prop where
  | bank (b : Nat) (le : b ≤ sizes.length) (start : startOf sizes b = o) (value : v = k + b)
  | none (inside : ¬Boundary sizes o) (value : v = -1)

theorem boundary_rest (hle : r.count.toNat * r.size ≤ o) (h : Boundary (banks (r :: regions)) o) :
    Boundary (banks regions) (o - r.count.toNat * r.size) := by
  obtain ⟨b, hb, rfl⟩ := h
  rw [length_banks_cons] at hb
  by_cases hlt : b < r.count.toNat
  · rw [startOf_first (Nat.le_of_lt hlt)] at hle
    exact absurd (Nat.le_of_mul_le_mul_right hle (size_pos r)) (Nat.not_le_of_lt hlt)
  · obtain ⟨d, rfl⟩ : ∃ d, b = r.count.toNat + d := ⟨b - r.count.toNat, by omega⟩
    refine ⟨d, by omega, ?_⟩
    rw [startOf_rest, Nat.add_sub_cancel_left]

theorem boundary_first (hlt : o < r.count.toNat * r.size) (h : Boundary (banks (r :: regions)) o) : o % r.size = 0 := by
  obtain ⟨b, -, rfl⟩ := h
  by_cases hb : b ≤ r.count.toNat
  · rw [startOf_first hb, Nat.mul_mod_left]
  · obtain ⟨d, rfl⟩ : ∃ d, b = r.count.toNat + d := ⟨b - r.count.toNat, by omega⟩
    rw [startOf_rest] at hlt
    omega

theorem Found.first {q : Nat} (hq : q ≤ r.count.toNat) :
    Found (banks (r :: regions)) (q * r.size) k ((k + q : Nat) : Int) :=
  .bank q (by rw [length_banks_cons]; omega) (startOf_first hq) (Int.natCast_add ..)

theorem Found.rest {v : Int} (hle : r.count.toNat * r.size ≤ o)
    (h : Found (banks regions) (o - r.count.toNat * r.size) (k + r.count.toNat) v) :
    Found (banks (r :: regions)) o k v := by
  cases h with
  | bank d hd hstart hvalue =>
    refine .bank (r.count.toNat + d) (by rw [length_banks_cons]; omega) ?_ (by omega)
    rw [startOf_rest, hstart, Nat.add_sub_cancel' hle]
  | none hinside hvalue => exact .none (fun h => hinside (boundary_rest hle h)) hvalue

theorem indexLoop_found (hsize : ∀ r ∈ regions, r.size < 2 ^ 31) (hsum : (banks regions).sum < 2 ^ 31)
    (hk : k + (banks regions).length < 2 ^ 31) (ho : o < 2 ^ 31) :
    ∃ v, indexLoop o k regions = some v ∧ Found (banks regions) o k v := by
  induction regions generalizing o k with
  | nil =>
    by_cases hzero : o = 0
    · exact ⟨k, by simp [indexLoop, hzero], .bank 0 (Nat.zero_le _) (by rw [startOf_zero, hzero]) (by simp)⟩
    · refine ⟨-1, by simp [indexLoop, hzero], .none ?_ rfl⟩
      rintro ⟨b, -, hb⟩
      have hnil : startOf (banks []) b = 0 := by simp [startOf, banks]
      omega
  | cons r rest ih =>
    have hr := hsize r (List.mem_cons_self ..)
    rw [length_banks_cons] at hk
    rw [sum_banks_cons] at hsum
    have hall : int ((r.count.toNat : Int) * r.size) = some ((r.count.toNat * r.size : Nat) : Int) := by
      rw [← Int.natCast_mul]
      exact int_natCast (by omega)
    rw [indexLoop, hall, Option.bind_eq_bind, Option.bind_some]
    by_cases hle : r.count.toNat * r.size ≤ o
    · -- the search goes on behind this region
      have hoffset : int ((o : Int) - (r.count.toNat * r.size : Nat)) =
          some ((o - r.count.toNat * r.size : Nat) : Int) := by
        rw [← Int.ofNat_sub hle]
        exact int_natCast (by omega)
      have hbank : int ((k : Int) + r.count.toNat) = some ((k + r.count.toNat : Nat) : Int) := int_natCast (by omega)
      obtain ⟨v, hv, hfound⟩ := ih (o := o - r.count.toNat * r.size) (k := k + r.count.toNat)
        (fun r' h => hsize r' (List.mem_cons_of_mem r h)) (by omega) (by omega) (by omega)
      rw [if_pos (by omega), hoffset, Option.bind_some, hbank, Option.bind_some, hv]
      exact ⟨v, rfl, hfound.rest hle⟩
    · have hsector : int (r.size : Int) = some (r.size : Int) := int_natCast hr
      rw [if_neg (by omega), hsector, Option.bind_some]
      by_cases hmod : o % r.size = 0
      · obtain ⟨q, rfl⟩ : ∃ q, o = q * r.size := ⟨o / r.size, (Nat.div_mul_cancel (Nat.dvd_of_mod_eq_zero hmod)).symm⟩
        have hquot : q < r.count.toNat := Nat.lt_of_mul_lt_mul_right (Nat.lt_of_not_le hle)
        have hdiv : ((q * r.size : Nat) : Int) / r.size = q := by
          rw [← Int.natCast_ediv, Nat.mul_div_cancel q (size_pos r)]
        have hbank : int ((k : Int) + q) = some ((k + q : Nat) : Int) := int_natCast (by omega)
        rw [if_neg (by omega), hdiv, hbank]
        exact ⟨_, rfl, .first (Nat.le_of_lt hquot)⟩
      · rw [if_pos (by omega)]
        exact ⟨-1, rfl, .none (fun h => hmod (boundary_first (by omega) h)) rfl⟩

theorem crecFlashBankStartOffset_eq (hb : b ≤ (banks a.regions).length) :
    crecFlashBankStartOffset a b = some (startOf (banks a.regions) b : Int) := by
  have hloop := startLoop_eq (a := a) (b := 0) (n := b) (by omega)
  rw [startOf_zero, Nat.zero_add] at hloop
  rw [crecFlashBankStartOffset, if_neg (by omega)]
  exact hloop

theorem crecFlashBankIndex_found (ho : o < 2 ^ 31) :
    ∃ v, crecFlashBankIndex a o = some v ∧ Found (banks a.regions) o 0 v := by
  have hcount := Nat.lt_of_le_of_lt (length_banks_le a.regions) a.total_fits
  by_cases hzero : o = 0
  · exact ⟨0, by simp [crecFlashBankIndex, hzero], .bank 0 (Nat.zero_le _) (by rw [startOf_zero, hzero]) (by simp)⟩
  · rw [crecFlashBankIndex, if_neg (by omega)]
    exact indexLoop_found (k := 0) a.size_fits a.total_fits (by omega) ho

theorem crecFlashBankIndex_start (hb : b ≤ (banks a.regions).length) :
    crecFlashBankIndex a (startOf (banks a.regions) b) = some (b : Int) := by
  have hle := startOf_le_sum (banks a.regions) b
  obtain ⟨v, hv, hfound⟩ := crecFlashBankIndex_found (a := a) (Nat.lt_of_le_of_lt hle a.total_fits)
  cases hfound with
  | bank c hc hstart hvalue =>
    obtain rfl := startOf_inj (fun n hn => pos_of_mem_banks hn) hc hb hstart
    rw [hv, hvalue, Int.natCast_zero, Int.zero_add]
  | none hinside _ => exact absurd ⟨b, hb, rfl⟩ hinside

theorem crecFlashBankCount_eq (hb : b ≤ c) (hc : c ≤ (banks a.regions).length) :
    crecFlashBankCount a (startOf (banks a.regions) b)
      ((startOf (banks a.regions) c : Int) - startOf (banks a.regions) b) = some ((c : Int) - b) := by
  have hcount := Nat.lt_of_le_of_lt (length_banks_le a.regions) a.total_fits
  have hend := Nat.lt_of_le_of_lt (startOf_le_sum (banks a.regions) c) a.total_fits
  have hlast : int ((startOf (banks a.regions) b : Int) +
      ((startOf (banks a.regions) c : Int) - startOf (banks a.regions) b)) = some (startOf (banks a.regions) c : Int) := by
    rw [show (startOf (banks a.regions) b : Int) +
      ((startOf (banks a.regions) c : Int) - startOf (banks a.regions) b) = startOf (banks a.regions) c by omega]
    exact int_natCast hend
  rw [crecFlashBankCount, crecFlashBankIndex_start (Nat.le_trans hb hc), Option.bind_eq_bind, Option.bind_some, hlast,
    Option.bind_some, crecFlashBankIndex_start hc, Option.bind_some, if_neg (by omega)]
  exact int_of_nonneg (by omega) (by omega)

end

/-- The maps between banks and offsets are inverse to each other, and counts of banks add up. The three
    numbers of the last part are the ends of two ranges side by side. -/
theorem bank_map_inverts (a : FlashBankArray) :
    (∀ b ≤ (banks a.regions).length,
      ∃ o, crecFlashBankStartOffset a b = some o ∧ crecFlashBankIndex a o = some (b : Int)) ∧
    (∀ o : Nat, o ≤ (banks a.regions).sum →
      ∃ b, crecFlashBankIndex a o = some b ∧ (0 ≤ b ↔ Boundary (banks a.regions) o) ∧
        (0 ≤ b → crecFlashBankStartOffset a b = some (o : Int))) ∧
    ∀ o s₁ s₂ : Nat, o + s₁ + s₂ ≤ (banks a.regions).sum → Boundary (banks a.regions) o →
      Boundary (banks a.regions) (o + s₁) → Boundary (banks a.regions) (o + s₁ + s₂) →
      ∃ c₁ c₂ : Nat, crecFlashBankCount a o s₁ = some (c₁ : Int) ∧
        crecFlashBankCount a ((o + s₁ : Nat) : Int) s₂ = some (c₂ : Int) ∧
        crecFlashBankCount a o ((s₁ + s₂ : Nat) : Int) = some ((c₁ + c₂ : Nat) : Int) := by
  refine ⟨fun b hb => ?_, fun o ho => ?_, ?_⟩
  · exact ⟨startOf (banks a.regions) b, crecFlashBankStartOffset_eq hb, crecFlashBankIndex_start hb⟩
  · obtain ⟨v, hv, hfound⟩ := crecFlashBankIndex_found (a := a) (Nat.lt_of_le_of_lt ho a.total_fits)
    refine ⟨v, hv, ?_⟩
    cases hfound with
    | bank b hb hstart hvalue =>
      obtain rfl : v = b := by omega
      refine ⟨iff_of_true (by omega) ⟨b, hb, hstart⟩, fun _ => ?_⟩
      rw [crecFlashBankStartOffset_eq hb, hstart]
    | none hinside hvalue => exact ⟨iff_of_false (by omega) hinside, fun h => absurd h (by omega)⟩
  · rintro o s₁ s₂ - ⟨b, hb, rfl⟩ ⟨c, hc, hmid⟩ ⟨d, hd, hend⟩
    have hpos : ∀ n ∈ banks a.regions, 0 < n := fun n hn => pos_of_mem_banks hn
    have hbc : b ≤ c := Nat.le_of_not_lt fun h => by
      have hstart := startOf_strictMono hpos h hb
      omega
    have hcd : c ≤ d := Nat.le_of_not_lt fun h => by
      have hstart := startOf_strictMono hpos h hc
      omega
    have h₁ := crecFlashBankCount_eq hbc hc
    have h₂ := crecFlashBankCount_eq hcd hd
    have h₃ := crecFlashBankCount_eq (Nat.le_trans hbc hcd) hd
    refine ⟨c - b, d - c, ?_, ?_, ?_⟩
    · convert h₁ using 2 <;> omega
    · convert h₂ using 2 <;> omega
    · convert h₃ using 2 <;> omega

def stm32f412 : FlashBankArray where
  regions := [⟨4, 14⟩, ⟨1, 16⟩, ⟨3, 17⟩]
  size_fits := by decide
  total_fits := by decide

/-- The first bank of its last region. -/
theorem bank_map_inverts_stm32f412 :
    5 ≤ (banks stm32f412.regions).length ∧
      ∃ o, crecFlashBankStartOffset stm32f412 5 = some o ∧ crecFlashBankIndex stm32f412 o = some 5 :=
  ⟨by decide, (bank_map_inverts stm32f412).1 5 (by decide)⟩

example : crecFlashBankStartOffset stm32f412 5 = some 0x20000 := by decide

end ChromeEc.Flash
