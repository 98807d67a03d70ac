import ChromeEc.Lib.CInt
import ChromeEc.SpiNor.Model

/- What the driver takes from the Basic Flash Parameter Table of the chip.

  The page size is a power of two (`pageSize_eq`). The capacity is shifted as an `int`, before it
  becomes the `uint64_t` that is compared with UINT32_MAX, so 2 GiB are refused, and there is no value at all
  above that (`capacityExact_iff`).

  Correspondence (C ↔ Lean):
    `SFDP_GET_BITFIELD` ↔ `bitfield`
    `spi_nor_device_discover_sfdp_page_size` ↔ `spiNorDeviceDiscoverSfdpPageSize`
    `spi_nor_device_discover_sfdp_capacity` ↔ `spiNorDeviceDiscoverSfdpCapacity` -/
namespace ChromeEc.SpiNor

def bitfield (hi lo : Nat) (dw : BitVec 32) : Nat := dw.toNat / 2 ^ lo % 2 ^ (hi + 1 - lo)

def bfpt10Dw1WriteGranularity : BitVec 32 → Nat := bitfield 2 2
def bfpt10Dw2Gt2Gibibits : BitVec 32 → Nat := bitfield 31 31
def bfpt10Dw2N : BitVec 32 → Nat := bitfield 30 0
def bfpt15Dw11PageSize : BitVec 32 → Nat := bitfield 7 4

/-- `1 << k` of an `int`: the sign bit may be set, and there is no value for a shift by 32 or more. -/
def shiftOne (k : Nat) : Option Int := if k < 31 then some (2 ^ k) else if k = 31 then some (-2 ^ 31) else none

/-- An `int` that becomes a uint64_t. -/
def uint64 (x : Int) : Nat := (x % 2 ^ 64).toNat

section

variable {σ : Type} (b : Bus σ)

def spiNorDeviceDiscoverSfdpPageSize (majorVersion minorVersion tableOffset pageSize : Nat) (r : Run σ) :
    Int × Nat × Run σ :=
  if majorVersion = 1 ∧ minorVersion < 5 then
    let (rv, dw, r) := spiNorReadSfdpDword b tableOffset 1 r
    if rv ≠ ecSuccess then (rv, pageSize, r)
    else (ecSuccess, if bfpt10Dw1WriteGranularity dw ≠ 0 then 64 else 1, r)
  else if majorVersion = 1 then
    let (rv, dw, r) := spiNorReadSfdpDword b tableOffset 11 r
    if rv ≠ ecSuccess then (rv, pageSize, r) else (ecSuccess, 1 <<< bfpt15Dw11PageSize dw, r)
  else (ecSuccess, pageSize, r)

/-- The code and the capacity, which is `capacity` before. `none` is a shift without a value. -/
def spiNorDeviceDiscoverSfdpCapacity (majorVersion tableOffset capacity : Nat) (r : Run σ) : Option (Int × Nat) × Run σ :=
  if majorVersion = 1 then
    let (rv, dw, r) := spiNorReadSfdpDword b tableOffset 2 r
    if rv ≠ ecSuccess then (some (rv, capacity), r)
    else if bfpt10Dw2Gt2Gibibits dw ≠ 0 then
      -- N - 3 is a uint32_t, and what is shifted becomes a uint64_t
      match shiftOne ((bfpt10Dw2N dw + (2 ^ 32 - 3)) % 2 ^ 32) with
      | none => (none, r)
      | some shifted =>
        if 0xFFFFFFFF < uint64 shifted then (some (ecErrorOverflow, capacity), r)
        else (some (ecSuccess, uint64 shifted), r)
    else (some (ecSuccess, (1 + bfpt10Dw2N dw >>> 3) % 2 ^ 32), r)
  else (some (ecSuccess, capacity), r)

/-! ## The page size -/

theorem pageSize_eq {majorVersion minorVersion tableOffset : Nat} {r : Run σ} {pageSize : Nat}
    (hpow : ∃ k, pageSize = 2 ^ k) :
    ∃ k, (spiNorDeviceDiscoverSfdpPageSize b majorVersion minorVersion tableOffset pageSize r).2.1 = 2 ^ k := by
  rw [spiNorDeviceDiscoverSfdpPageSize]
  split
  · dsimp only
    split
    · exact hpow
    · dsimp only
      split
      · exact ⟨6, rfl⟩
      · exact ⟨0, rfl⟩
  · split
    · dsimp only
      split
      · exact hpow
      · exact ⟨_, Nat.one_shiftLeft _⟩
    · exact hpow

end

/-! ## The capacity -/

/-- The bytes that a word of the table means: N + 1 bits, rounded up, or 2 ^ N bits. -/
def denotedCapacity (dw : BitVec 32) : Option Nat :=
  if bfpt10Dw2Gt2Gibibits dw = 0 then some ((bfpt10Dw2N dw + 1 + 7) / 8)
  else if 3 ≤ bfpt10Dw2N dw then some (2 ^ (bfpt10Dw2N dw - 3))
  else none

/-- The capacity of the word is stored, or does not fit and is refused. -/
def CapacityExact (dw : BitVec 32) (result : Option (Int × Nat)) : Prop :=
  ∃ capacity, denotedCapacity dw = some capacity ∧
    (capacity < 2 ^ 32 ∧ result = some (ecSuccess, capacity) ∨
      2 ^ 32 ≤ capacity ∧ ∃ kept, result = some (ecErrorOverflow, kept))

section

variable {dw : BitVec 32}

theorem bfpt10Dw2N_lt (dw : BitVec 32) : bfpt10Dw2N dw < 2 ^ 31 := by
  rw [bfpt10Dw2N, bitfield]
  exact Nat.mod_lt _ (Nat.two_pow_pos _)

theorem shiftOne_of_lt {k : Nat} (hk : k < 31) : ∃ shifted, shiftOne k = some shifted ∧ uint64 shifted = 2 ^ k := by
  have hpow : 2 ^ k < 2 ^ 31 := Nat.pow_lt_pow_right (by decide) hk
  have hcast : (2 ^ k : Int) = ((2 ^ k : Nat) : Int) := by push_cast; rfl
  refine ⟨2 ^ k, if_pos hk, ?_⟩
  rw [uint64, hcast]
  generalize 2 ^ k = m at hpow
  omega

theorem shiftOne_sign : ∃ shifted, shiftOne 31 = some shifted ∧ 0xFFFFFFFF < uint64 shifted :=
  ⟨-2 ^ 31, rfl, by decide⟩

theorem discoverCapacity_eq {σ : Type} {b : Bus σ} {tableOffset capacity : Nat} {r r' : Run σ}
    (hread : spiNorReadSfdpDword b tableOffset 2 r = (ecSuccess, dw, r')) :
    (spiNorDeviceDiscoverSfdpCapacity b 1 tableOffset capacity r).1 =
      if bfpt10Dw2Gt2Gibibits dw = 0 then some (ecSuccess, (bfpt10Dw2N dw + 1 + 7) / 8)
      else if bfpt10Dw2N dw < 3 then none
      else if bfpt10Dw2N dw ≤ 33 then some (ecSuccess, 2 ^ (bfpt10Dw2N dw - 3))
      else if bfpt10Dw2N dw = 34 then some (ecErrorOverflow, capacity)
      else none := by
  have hN := bfpt10Dw2N_lt dw
  rw [spiNorDeviceDiscoverSfdpCapacity, if_pos rfl, hread]
  dsimp only
  rw [if_neg (not_not.mpr rfl)]
  generalize bfpt10Dw2N dw = n at hN ⊢
  by_cases hplain : bfpt10Dw2Gt2Gibibits dw = 0
  · rw [if_neg (not_not.mpr hplain), if_pos hplain, Nat.shiftRight_eq_div_pow,
      show (1 + n / 2 ^ 3) % 2 ^ 32 = (n + 1 + 7) / 8 by omega]
  rw [if_pos hplain, if_neg hplain]
  by_cases hsmall : n < 3
  · have hwraps : ¬(n + (2 ^ 32 - 3)) % 2 ^ 32 < 31 ∧ ¬(n + (2 ^ 32 - 3)) % 2 ^ 32 = 31 := by omega
    rw [if_pos hsmall, shiftOne, if_neg hwraps.1, if_neg hwraps.2]
  rw [if_neg hsmall, show (n + (2 ^ 32 - 3)) % 2 ^ 32 = n - 3 by omega]
  by_cases hfits : n ≤ 33
  · obtain ⟨shifted, hshifted, hvalue⟩ := shiftOne_of_lt (show n - 3 < 31 by omega)
    have hpow : 2 ^ (n - 3) ≤ 2 ^ 30 := Nat.pow_le_pow_right (by decide) (by omega)
    rw [hshifted, if_pos hfits]
    dsimp only
    rw [hvalue, if_neg (by omega)]
  rw [if_neg hfits]
  by_cases hsign : n = 34
  · obtain ⟨shifted, hshifted, hvalue⟩ := shiftOne_sign
    rw [if_pos hsign, hsign, hshifted]
    dsimp only
    rw [if_pos hvalue]
  · rw [if_neg hsign, shiftOne, if_neg (by omega), if_neg (by omega)]

/-- The capacity is taken as it is, unless the chip has 2 GiB or more (or fewer than 8 bits). -/
theorem capacityExact_iff {σ : Type} {b : Bus σ} {tableOffset capacity : Nat} {r r' : Run σ}
    (hread : spiNorReadSfdpDword b tableOffset 2 r = (ecSuccess, dw, r')) :
    CapacityExact dw (spiNorDeviceDiscoverSfdpCapacity b 1 tableOffset capacity r).1 ↔
      bfpt10Dw2Gt2Gibibits dw = 0 ∨ 3 ≤ bfpt10Dw2N dw ∧ bfpt10Dw2N dw ≤ 33 := by
  have hN := bfpt10Dw2N_lt dw
  rw [discoverCapacity_eq hread, CapacityExact, denotedCapacity]
  generalize bfpt10Dw2N dw = n at hN ⊢
  by_cases hplain : bfpt10Dw2Gt2Gibibits dw = 0
  · rw [if_pos hplain, if_pos hplain]
    refine ⟨fun _ => .inl hplain, fun _ => ⟨_, rfl, .inl ⟨by omega, rfl⟩⟩⟩
  rw [if_neg hplain, if_neg hplain]
  by_cases hsmall : n < 3
  · rw [if_pos hsmall, if_neg (Nat.not_le.mpr hsmall)]
    constructor
    · rintro ⟨capacity', hnone, -⟩
      cases hnone
    · rintro (hzero | ⟨hlow, -⟩)
      · exact absurd hzero hplain
      · omega
  rw [if_neg hsmall, if_pos (Nat.not_lt.mp hsmall)]
  by_cases hfits : n ≤ 33
  · have hpow : 2 ^ (n - 3) ≤ 2 ^ 30 := Nat.pow_le_pow_right (by decide) (by omega)
    rw [if_pos hfits]
    exact ⟨fun _ => .inr ⟨Nat.not_lt.mp hsmall, hfits⟩, fun _ => ⟨_, rfl, .inl ⟨by omega, rfl⟩⟩⟩
  rw [if_neg hfits]
  refine ⟨?_, fun h => absurd (h.resolve_left hplain).2 hfits⟩
  -- 2 GiB are refused although they fit, and above that there is no result
  rintro ⟨capacity', hdenoted, ⟨hsize, hstored⟩ | ⟨hsize, kept, hrefused⟩⟩
  · split at hstored
    · cases hstored
    · cases hstored
  · split at hrefused
    · next h34 =>
      rw [← Option.some.inj hdenoted, h34] at hsize
      exact absurd hsize (by decide)
    · cases hrefused

/-! ### A bus with one word on it -/

/-- Every transaction receives the bytes of the word. -/
def wordBus (dw : BitVec 32) : Bus Unit where
  spiTransaction _ _ n := (ecSuccess, ((List.range n).map fun i => UInt8.ofBitVec (dw.extractLsb' (8 * i) 8)), ())
  getTime _ := 0
  usleep _ := ()

/-- 256 Mbit. -/
theorem capacityExact_iff_256 :
    CapacityExact 0x0fffffff (spiNorDeviceDiscoverSfdpCapacity (wordBus 0x0fffffff) 1 0x30 0 ⟨(), []⟩).1 ↔
      bfpt10Dw2Gt2Gibibits 0x0fffffff = 0 ∨ 3 ≤ bfpt10Dw2N 0x0fffffff ∧ bfpt10Dw2N 0x0fffffff ≤ 33 :=
  @capacityExact_iff _ Unit (wordBus 0x0fffffff) 0x30 0 ⟨(), []⟩ ⟨(), [[opcodeSfdp, 0, 0, 0x34, 0]]⟩ rfl

/-- 16 Gbit are 2 GiB, which fit into 32 bits and are refused. -/
theorem capacity_refused :
    ¬CapacityExact 0x80000022 (spiNorDeviceDiscoverSfdpCapacity (wordBus 0x80000022) 1 0x30 0 ⟨(), []⟩).1 := by
  rintro ⟨capacity, hdenoted, ⟨-, hstored⟩ | ⟨hsize, -⟩⟩
  · have hrefused : (spiNorDeviceDiscoverSfdpCapacity (wordBus 0x80000022) 1 0x30 0 ⟨(), []⟩).1 =
        some (ecErrorOverflow, 0) := by
      decide
    rw [hrefused] at hstored
    cases hstored
  · have hcapacity : denotedCapacity 0x80000022 = some (2 ^ 31) := by decide
    obtain rfl := Option.some.inj (hcapacity.symm.trans hdenoted)
    exact absurd hsize (by decide)

end

end ChromeEc.SpiNor
