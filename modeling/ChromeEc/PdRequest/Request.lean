import ChromeEc.PdRequest.BestPdo

/- What `pd_build_request` asks for, against what the source offers.

  A request is within the offer when its object position is that of a PDO, its operating
  current or power is no more than this PDO advertises and the board allows, and, if charging
  is allowed, its voltage is no more than the highest one that may be requested (`Within`).
  That is so when a PDO is admissible where the best one is selected, the first PDO has a
  voltage that may be requested where it is not, and a charge-through cable does not take the
  current up again (`Sound`). -/
namespace ChromeEc.PdRequest

/-- What a PDO advertises, in mA, or in mW for a battery. -/
def advertised (pdo : Pdo) : Nat :=
  match pdoType pdo with
  | .fixed => pdoFixedCurrent pdo
  | .augmented => pdoAugMaxCurrent pdo
  | .variable => pdoVarMaxCurrent pdo
  | .battery => pdoBattMaxPower pdo

/-- The operating current or power in a request for a PDO. -/
def operating (pdo : Pdo) (rdo : BitVec 32) : Nat :=
  if pdoType pdo = .battery then rdoOperating rdo * 250 else rdoOperating rdo * 10

/-- The amount is no more than the PDO advertises and the board allows. -/
def Affords (b : Board) (pdo : Pdo) (amount mv : Nat) : Prop :=
  amount ≤ advertised pdo ∧
    if pdoType pdo = .battery then amount ≤ b.maxPowerMw
    else amount ≤ b.maxCurrentMa ∧ amount * mv ≤ b.maxPowerMw * 1000

instance {b : Board} {pdo : Pdo} {amount mv : Nat} : Decidable (Affords b pdo amount mv) :=
  inferInstanceAs (Decidable (_ ∧ if pdoType pdo = .battery then _ ≤ _ else _ ≤ _ ∧ _ ≤ _))

structure Within (b : Board) (s : Situation) (port : Nat) (r : Request) : Prop where
  place : 1 ≤ rdoPos r.rdo ∧ rdoPos r.rdo ≤ s.srcCaps.length
  amount : ∀ pdo, s.srcCaps[rdoPos r.rdo - 1]? = some pdo → Affords b pdo (operating pdo r.rdo) r.mv
  voltage : chargingAllowed s port = true → r.mv ≤ maxRequestMv s

def Selects (s : Situation) (port : Nat) : Prop := chargingAllowed s port = true ∧ s.maxRequestAllowed.getD true = true

def Requested (b : Board) (s : Situation) (port : Nat) (pdo : Pdo) : Prop :=
  (Selects s port → ∃ i, IsBest b (asInt (maxRequestMv s)) s.srcCaps i pdo) ∧ (¬Selects s port → s.srcCaps[0]? = some pdo)

/-- The amount that a current and a voltage come to in a request for a PDO. -/
def amountOf (pdo : Pdo) (ma mv : Nat) : Nat :=
  if pdoType pdo = .battery then ma * mv / 1000 / 250 * 250 else ma / 10 * 10

/-- The voltage of a PDO behind the cable. -/
def cableMv (vpdVdo : BitVec 32) (pdo : Pdo) : Nat :=
  if 0 < vpdVdo.toInt then min (volt pdo) (vpdMaxVbus vpdVdo) else volt pdo

structure Sound (b : Board) (vpdVdo : BitVec 32) (s : Situation) (port : Nat) : Prop where
  found : Selects s port → ∃ i pdo, s.srcCaps[i]? = some pdo ∧ Admissible b (asInt (maxRequestMv s)) i pdo
  first : chargingAllowed s port = true → ¬Selects s port → ∀ pdo, s.srcCaps[0]? = some pdo →
    cableMv vpdVdo pdo ≤ maxRequestMv s
  cable : 0 < vpdVdo.toInt → ∀ pdo, Requested b s port pdo →
    Affords b pdo (amountOf pdo (vpdCurrent vpdVdo (pdExtractPdoPower b pdo).ma) (cableMv vpdVdo pdo)) (cableMv vpdVdo pdo)

variable {b : Board} {pdo : Pdo} {n o m port : Nat} {f g : BitVec 32} {s : Situation} {vpdVdo : BitVec 32}

/-! ## The bits of a request -/

def IsFlags (f : BitVec 32) : Prop := f.extractLsb' 28 4 = 0 ∧ f.extractLsb' 10 10 = 0

theorem IsFlags.or (hf : IsFlags f) (hg : IsFlags g) : IsFlags (f ||| g) := by
  constructor
  · rw [BitVec.extractLsb'_or, hf.1, hg.1]
    rfl
  · rw [BitVec.extractLsb'_or, hf.2, hg.2]
    rfl

theorem isFlags_ite {c : Prop} [Decidable c] (hf : IsFlags f) : IsFlags (if c then f else 0) := by
  split
  · exact hf
  · exact ⟨rfl, rfl⟩

theorem isFlags_request {uw : Nat} : IsFlags (requestFlags s uw) :=
  ((isFlags_ite ⟨rfl, rfl⟩).or (isFlags_ite ⟨rfl, rfl⟩)).or (isFlags_ite ⟨rfl, rfl⟩)

theorem isFlags_comm : IsFlags (commFlags s) := by
  have hcomm : IsFlags rdoCommCap := ⟨rfl, rfl⟩
  exact isFlags_ite (hcomm.or (isFlags_ite ⟨rfl, rfl⟩))

theorem mask_eq (k w : Nat) (hw : w < 32) :
    (BitVec.ofNat 32 k &&& BitVec.ofNat 32 (2 ^ w - 1)) = BitVec.ofNat 32 (k % 2 ^ w) := by
  have hpow : 2 ^ w < 2 ^ 32 := Nat.pow_lt_pow_right (by decide) hw
  have hmod : k % 2 ^ w < 2 ^ w := Nat.mod_lt _ (Nat.two_pow_pos w)
  have hdvd : 2 ^ w ∣ 2 ^ 32 := Nat.pow_dvd_pow 2 hw.le
  refine BitVec.eq_of_toNat_eq ?_
  rw [BitVec.toNat_and, BitVec.toNat_ofNat, BitVec.toNat_ofNat, BitVec.toNat_ofNat, Nat.mod_eq_of_lt (hmod.trans hpow),
    Nat.mod_eq_of_lt (by omega : 2 ^ w - 1 < 2 ^ 32), Nat.and_two_pow_sub_one_eq_mod, Nat.mod_mod_of_dvd _ hdvd]

theorem toNat_field {x : BitVec 32} {k lo w : Nat} :
    ((x <<< k).extractLsb' lo w).toNat = x.toNat * 2 ^ k % 2 ^ 32 / 2 ^ lo % 2 ^ w := by
  rw [BitVec.extractLsb'_toNat, BitVec.toNat_shiftLeft, Nat.shiftLeft_eq, Nat.shiftRight_eq_div_pow]

theorem rdo_fields (hf : IsFlags f) (hg : IsFlags g) :
    let rdo := rdoObjPos n ||| f ||| ((BitVec.ofNat 32 o &&& 0x3FF) <<< 10) ||| (BitVec.ofNat 32 m &&& 0x3FF) ||| g
    rdoPos rdo = n % 16 ∧ rdoOperating rdo = o % 1024 := by
  have hn : (BitVec.ofNat 32 n &&& 0xF).toNat = n % 16 := by
    have hmask : (BitVec.ofNat 32 n &&& 0xF) = BitVec.ofNat 32 (n % 2 ^ 4) := mask_eq n 4 (by decide)
    rw [hmask, BitVec.toNat_ofNat]
    omega
  have hlow : ∀ k, (BitVec.ofNat 32 k &&& 0x3FF).toNat = k % 1024 := by
    intro k
    have hmask : (BitVec.ofNat 32 k &&& 0x3FF) = BitVec.ofNat 32 (k % 2 ^ 10) := mask_eq k 10 (by decide)
    rw [hmask, BitVec.toNat_ofNat]
    omega
  -- Each part is zero in the fields of the others.
  have hplace : (rdoObjPos n).extractLsb' 28 4 = BitVec.ofNat 4 n ∧ (rdoObjPos n).extractLsb' 10 10 = 0 := by
    constructor
    · refine BitVec.eq_of_toNat_eq ?_
      rw [rdoObjPos, toNat_field, hn, BitVec.toNat_ofNat]
      omega
    · refine BitVec.eq_of_toNat_eq ?_
      rw [rdoObjPos, toNat_field, hn]
      show n % 16 * 2 ^ 28 % 2 ^ 32 / 2 ^ 10 % 2 ^ 10 = 0
      omega
  have hop : ((BitVec.ofNat 32 o &&& 0x3FF) <<< 10).extractLsb' 28 4 = 0 ∧
      ((BitVec.ofNat 32 o &&& 0x3FF) <<< 10).extractLsb' 10 10 = BitVec.ofNat 10 o := by
    constructor
    · refine BitVec.eq_of_toNat_eq ?_
      rw [toNat_field, hlow]
      show o % 1024 * 2 ^ 10 % 2 ^ 32 / 2 ^ 28 % 2 ^ 4 = 0
      omega
    · refine BitVec.eq_of_toNat_eq ?_
      rw [toNat_field, hlow, BitVec.toNat_ofNat]
      omega
  have hmax : (BitVec.ofNat 32 m &&& 0x3FF).extractLsb' 28 4 = 0 ∧
      (BitVec.ofNat 32 m &&& 0x3FF).extractLsb' 10 10 = 0 := by
    constructor
    · refine BitVec.eq_of_toNat_eq ?_
      rw [BitVec.extractLsb'_toNat, hlow, Nat.shiftRight_eq_div_pow]
      show m % 1024 / 2 ^ 28 % 2 ^ 4 = 0
      omega
    · refine BitVec.eq_of_toNat_eq ?_
      rw [BitVec.extractLsb'_toNat, hlow, Nat.shiftRight_eq_div_pow]
      show m % 1024 / 2 ^ 10 % 2 ^ 10 = 0
      omega
  constructor
  · simp only [rdoPos, BitVec.extractLsb'_or, hplace.1, hf.1, hop.1, hmax.1, hg.1]
    simp only [BitVec.ofNat_eq_ofNat, BitVec.or_zero, BitVec.toNat_ofNat, Nat.reducePow]
  · simp only [rdoOperating, BitVec.extractLsb'_or, hplace.2, hf.2, hop.2, hmax.2, hg.2]
    simp only [BitVec.ofNat_eq_ofNat, BitVec.or_zero, BitVec.zero_or, BitVec.toNat_ofNat, Nat.reducePow]

/-! ## The current and the power -/

theorem volt_le : volt pdo ≤ 51150 := by
  unfold volt pdoVoltages
  split
  · have h := (pdo.extractLsb' 10 10).isLt
    simp only [pdoFixedVoltage]
    omega
  · have h := (pdo.extractLsb' 17 8).isLt
    simp only [pdoAugMaxVoltage]
    omega
  · have h := (pdo.extractLsb' 20 10).isLt
    simp only [pdoVarMaxVoltage]
    omega
  · have h := (pdo.extractLsb' 20 10).isLt
    simp only [pdoBattMaxVoltage]
    omega

theorem ma_zero (h : volt pdo = 0) : (pdExtractPdoPower b pdo).ma = 0 := by
  have hzero : (pdoVoltages pdo).1 = 0 := h
  have hhelper : extractPdoHelper pdo = ⟨0, 0, 0⟩ := by
    simp only [extractPdoHelper, if_pos hzero]
  simp [pdExtractPdoPower, hhelper]

/-- The current that is extracted is within what is advertised and the board's limits. -/
theorem ma_le : (pdExtractPdoPower b pdo).ma ≤ (extractPdoHelper pdo).ma ∧ (pdExtractPdoPower b pdo).ma ≤ b.maxCurrentMa ∧
    (pdExtractPdoPower b pdo).ma * volt pdo ≤ b.maxPowerMw * 1000 := by
  by_cases hzero : volt pdo = 0
  · rw [ma_zero hzero, Nat.zero_mul]
    exact ⟨Nat.zero_le _, Nat.zero_le _, Nat.zero_le _⟩
  · have hma : (pdExtractPdoPower b pdo).ma = min (extractPdoHelper pdo).ma (boardLimitMa b (volt pdo)) := by
      rw [pdExtractPdoPower]
      simp only [extractPdoHelper_maxMv, if_neg hzero]
    have hlimit : (pdExtractPdoPower b pdo).ma ≤ boardLimitMa b (volt pdo) := hma ▸ Nat.min_le_right _ _
    refine ⟨hma ▸ Nat.min_le_left _ _, hlimit.trans (Nat.min_le_left _ _), ?_⟩
    exact (Nat.le_div_iff_mul_le (Nat.pos_of_ne_zero hzero)).mp (hlimit.trans (Nat.min_le_right _ _))

theorem helper_ma_le (h : pdoType pdo ≠ .battery) : (extractPdoHelper pdo).ma ≤ advertised pdo := by
  simp only [extractPdoHelper]
  split
  · exact Nat.zero_le _
  · rw [advertised]
    cases htype : pdoType pdo with
    | battery => exact absurd htype h
    | _ => exact le_refl _

/-- The current of a battery at its highest voltage does not take more than its power. -/
theorem helper_mul_le (h : pdoType pdo = .battery) : (extractPdoHelper pdo).ma * volt pdo ≤ 1000 * advertised pdo := by
  have hadv : advertised pdo = pdoBattMaxPower pdo := by rw [advertised, h]
  simp only [extractPdoHelper, h, hadv]
  split
  · exact (Nat.zero_mul _).trans_le (Nat.zero_le _)
  · exact Nat.div_mul_le_self _ _

theorem advertised_le : advertised pdo ≤ if pdoType pdo = .battery then 255750 else 10230 := by
  rw [advertised]
  split
  · rename_i htype
    have h := (pdo.extractLsb' 0 10).isLt
    rw [htype, if_neg (by decide), pdoFixedCurrent]
    omega
  · rename_i htype
    have h := (pdo.extractLsb' 0 7).isLt
    rw [htype, if_neg (by decide), pdoAugMaxCurrent]
    omega
  · rename_i htype
    have h := (pdo.extractLsb' 0 10).isLt
    rw [htype, if_neg (by decide), pdoVarMaxCurrent]
    omega
  · rename_i htype
    have h := (pdo.extractLsb' 0 10).isLt
    rw [htype, if_pos rfl, pdoBattMaxPower]
    omega

theorem affords_ma : Affords b pdo (amountOf pdo (pdExtractPdoPower b pdo).ma (volt pdo)) (volt pdo) := by
  obtain ⟨hadv, hmax, hpower⟩ := @ma_le b pdo
  rw [Affords, amountOf]
  by_cases hbatt : pdoType pdo = .battery
  · have hmul := Nat.mul_le_mul_right (volt pdo) hadv
    have hbattery := helper_mul_le hbatt
    simp only [if_pos hbatt]
    omega
  · have hround : (pdExtractPdoPower b pdo).ma / 10 * 10 ≤ (pdExtractPdoPower b pdo).ma := Nat.div_mul_le_self _ _
    simp only [if_neg hbatt]
    refine ⟨(hround.trans hadv).trans (helper_ma_le hbatt), hround.trans hmax, ?_⟩
    exact (Nat.mul_le_mul_right _ hround).trans hpower

/-! ## The request for a PDO -/

theorem vpdCurrent_le (vdo : BitVec 32) (ma : Nat) : vpdCurrent vdo ma ≤ 5000 := by
  unfold vpdCurrent
  split
  · exact Nat.div_le_of_le_mul (by omega)
  · exact Nat.div_le_of_le_mul (by omega)

def requestMa (b : Board) (vpdVdo : BitVec 32) (pdo : Pdo) : Nat :=
  if 0 < vpdVdo.toInt then vpdCurrent vpdVdo (pdExtractPdoPower b pdo).ma else (pdExtractPdoPower b pdo).ma

theorem vpdAdjust_eq : vpdAdjust vpdVdo ((pdExtractPdoPower b pdo).ma, volt pdo) =
    (requestMa b vpdVdo pdo, cableMv vpdVdo pdo) := by
  rw [vpdAdjust, requestMa, cableMv]
  split <;> rfl

theorem cableMv_le : cableMv vpdVdo pdo ≤ volt pdo := by
  rw [cableMv]
  split
  · exact Nat.min_le_left _ _
  · exact le_refl _

theorem fits_field : (pdoType pdo = .battery → requestMa b vpdVdo pdo * cableMv vpdVdo pdo / 1000 / 250 < 1024) ∧
    (pdoType pdo ≠ .battery → requestMa b vpdVdo pdo / 10 < 1024) := by
  have hvolt := @volt_le pdo
  have hcable := vpdCurrent_le vpdVdo (pdExtractPdoPower b pdo).ma
  have hadv := @advertised_le pdo
  obtain ⟨hma, -, -⟩ := @ma_le b pdo
  constructor
  · intro hbatt
    rw [if_pos hbatt] at hadv
    have hmul : requestMa b vpdVdo pdo * cableMv vpdVdo pdo ≤ 255750000 := by
      rw [requestMa]
      split
      · exact Nat.mul_le_mul hcable (cableMv_le.trans hvolt)
      · have hpower := helper_mul_le hbatt
        have hproduct := Nat.mul_le_mul hma (@cableMv_le pdo vpdVdo)
        omega
    omega
  · intro hbatt
    rw [if_neg hbatt] at hadv
    have hcurrent := helper_ma_le hbatt
    rw [requestMa]
    split <;> omega

/-- What the request for a PDO says, and its place, which is 0 for the index -1. -/
theorem pdBuildRequest_fields {i : Int} {q : Pdo} (hreq : requestedPdo b s port = (i, q)) :
    let r := pdBuildRequest b vpdVdo s port
    rdoPos r.rdo = (i + 1).toNat % 16 ∧ operating q r.rdo = amountOf q (requestMa b vpdVdo q) (cableMv vpdVdo q) ∧
      r.mv = cableMv vpdVdo q := by
  obtain ⟨hbattery, hcurrent⟩ := @fits_field b q vpdVdo
  simp only [pdBuildRequest, hreq, pdExtractPdoPower_maxMv, vpdAdjust_eq]
  by_cases hbatt : pdoType q = .battery
  · have hfield := hbattery hbatt
    obtain ⟨hpos, hop⟩ := @rdo_fields (i + 1).toNat (requestMa b vpdVdo q * cableMv vpdVdo q / 1000 / 250)
      (((s.giveBack.map Prod.fst).getD (requestMa b vpdVdo q * cableMv vpdVdo q / 1000)) / 250) _ _
      (@isFlags_request s (requestMa b vpdVdo q * cableMv vpdVdo q)) (@isFlags_comm s)
    rw [if_pos hbatt, operating, if_pos hbatt, amountOf, if_pos hbatt]
    simp only [rdoBatt]
    rw [hpos, hop, Nat.mod_eq_of_lt hfield]
    exact ⟨rfl, rfl, trivial⟩
  · have hfield := hcurrent hbatt
    obtain ⟨hpos, hop⟩ := @rdo_fields (i + 1).toNat (requestMa b vpdVdo q / 10)
      (((s.giveBack.map Prod.snd).getD (requestMa b vpdVdo q)) / 10) _ _
      (@isFlags_request s (requestMa b vpdVdo q * cableMv vpdVdo q)) (@isFlags_comm s)
    rw [if_neg hbatt, operating, if_neg hbatt, amountOf, if_neg hbatt]
    simp only [rdoFixed]
    rw [hpos, hop, Nat.mod_eq_of_lt hfield]
    exact ⟨rfl, rfl, trivial⟩

/-- A request for a PDO that is offered is within the offer if the cable does not take the current up and the voltage may
be requested. -/
theorem within_iff {i : Nat} {q : Pdo} (hreq : requestedPdo b s port = ((i : Int), q)) (hi : i < 15)
    (hq : s.srcCaps[i]? = some q) : Within b s port (pdBuildRequest b vpdVdo s port) ↔
      (0 < vpdVdo.toInt → Affords b q (amountOf q (vpdCurrent vpdVdo (pdExtractPdoPower b q).ma) (cableMv vpdVdo q))
        (cableMv vpdVdo q)) ∧
        (chargingAllowed s port = true → cableMv vpdVdo q ≤ maxRequestMv s) := by
  obtain ⟨hplace, hop, hmv⟩ := @pdBuildRequest_fields b port s vpdVdo i q hreq
  have hpos : rdoPos (pdBuildRequest b vpdVdo s port).rdo = i + 1 := hplace.trans (by omega)
  have hlt : i < s.srcCaps.length := (List.getElem?_eq_some_iff.mp hq).1
  have hamount : Affords b q (amountOf q (requestMa b vpdVdo q) (cableMv vpdVdo q)) (cableMv vpdVdo q) ↔
      (0 < vpdVdo.toInt → Affords b q (amountOf q (vpdCurrent vpdVdo (pdExtractPdoPower b q).ma) (cableMv vpdVdo q))
        (cableMv vpdVdo q)) := by
    by_cases hvpd : 0 < vpdVdo.toInt
    · rw [requestMa, if_pos hvpd]
      exact ⟨fun h _ => h, fun h => h hvpd⟩
    · refine iff_of_true ?_ fun h => absurd h hvpd
      rw [requestMa, if_neg hvpd, cableMv, if_neg hvpd]
      exact affords_ma
  rw [← hamount]
  constructor
  · intro h
    refine ⟨?_, fun hallowed => hmv ▸ h.voltage hallowed⟩
    have hafford := h.amount q (by rw [hpos, Nat.add_sub_cancel]; exact hq)
    rwa [hop, hmv] at hafford
  · rintro ⟨hafford, hvoltage⟩
    refine ⟨by omega, fun pdo hpdo => ?_, fun hallowed => hmv ▸ hvoltage hallowed⟩
    rw [hpos, Nat.add_sub_cancel, hq] at hpdo
    obtain rfl := Option.some.inj hpdo
    rwa [hop, hmv]

/-! ## Which PDO is asked for -/

theorem asInt_le {mv : Nat} : asInt mv ≤ mv := by
  have hmod : mv % 2 ^ 32 ≤ mv := Nat.mod_le _ _
  rw [asInt, BitVec.toInt_eq_toNat_cond, BitVec.toNat_ofNat]
  split <;> omega

theorem IsBest.unique {maxMv : Int} {srcCaps : List Pdo} {i j : Nat} {q : Pdo} (h : IsBest b maxMv srcCaps i pdo)
    (h' : IsBest b maxMv srcCaps j q) : i = j ∧ pdo = q := by
  have heq : clampedUw b q = clampedUw b pdo :=
    le_antisymm (h.power j q h'.offered h'.admissible) (h'.power i pdo h.offered h.admissible)
  have hle : i ≤ j := h.first j q h'.offered h'.admissible heq (h'.voltage i pdo h.offered h.admissible heq.symm)
  have hge : j ≤ i := h'.first i pdo h.offered h.admissible heq.symm (h.voltage j q h'.offered h'.admissible heq)
  obtain rfl := le_antisymm hle hge
  exact ⟨rfl, Option.some.inj (h.offered.symm.trans h'.offered)⟩

theorem requestedPdo_best {i : Nat} (hsel : Selects s port)
    (hindex : pdSelectBestPdo b s.srcCaps (asInt (maxRequestMv s)) = (i : Nat))
    (hbest : IsBest b (asInt (maxRequestMv s)) s.srcCaps i pdo) : requestedPdo b s port = ((i : Int), pdo) := by
  have hne : (i : Int) ≠ -1 := by omega
  have hget : s.srcCaps.getD i 0 = pdo := by
    rw [List.getD_eq_getElem?_getD, hbest.offered]
    rfl
  have hboth : chargingAllowed s port = true ∧ s.maxRequestAllowed.getD true = true := hsel
  simp only [requestedPdo]
  rw [if_pos hboth, hindex, if_neg hne, Int.toNat_natCast, hget]

theorem requestedPdo_none (hsel : Selects s port) (hindex : pdSelectBestPdo b s.srcCaps (asInt (maxRequestMv s)) = -1) :
    requestedPdo b s port = (-1, s.stale) := by
  have hboth : chargingAllowed s port = true ∧ s.maxRequestAllowed.getD true = true := hsel
  simp only [requestedPdo]
  rw [if_pos hboth, hindex, if_pos rfl]

theorem requestedPdo_first (hsel : ¬Selects s port) (hfirst : s.srcCaps[0]? = some pdo) :
    requestedPdo b s port = (((0 : Nat) : Int), pdo) := by
  have hget : s.srcCaps.getD 0 0 = pdo := by
    rw [List.getD_eq_getElem?_getD, hfirst]
    rfl
  have hnot : ¬(chargingAllowed s port = true ∧ s.maxRequestAllowed.getD true = true) := hsel
  rw [requestedPdo, if_neg hnot, hget]
  rfl

/-- The request is within the offer exactly when it is sound to ask for the PDO that is to be asked for. -/
theorem request_within_iff (b : Board) (vpdVdo : BitVec 32) (s : Situation) (port : Nat)
    (hcaps : 1 ≤ s.srcCaps.length ∧ s.srcCaps.length ≤ 11) :
    Within b s port (pdBuildRequest b vpdVdo s port) ↔ Sound b vpdVdo s port := by
  by_cases hsel : Selects s port
  · obtain ⟨hnone, hsome⟩ := pdSelectBestPdo_spec b s.srcCaps (asInt (maxRequestMv s))
    by_cases hindex : pdSelectBestPdo b s.srcCaps (asInt (maxRequestMv s)) = -1
    · refine iff_of_false (fun h => ?_) fun h => ?_
      · have hzero := (@pdBuildRequest_fields b port s vpdVdo _ _ (requestedPdo_none hsel hindex)).1
        have hpos := h.place.1
        rw [hzero] at hpos
        exact absurd hpos (by decide)
      · obtain ⟨i, pdo, hoffered, hadm⟩ := h.found hsel
        exact hnone.mp hindex i pdo hoffered hadm
    · obtain ⟨i, q, hi, hbest⟩ := hsome hindex
      have hlt : i < s.srcCaps.length := (List.getElem?_eq_some_iff.mp hbest.offered).1
      rw [within_iff (requestedPdo_best hsel hi hbest) (by omega) hbest.offered]
      constructor
      · rintro ⟨hcable, -⟩
        refine ⟨fun _ => ⟨i, q, hbest.offered, hbest.admissible⟩, fun _ hnot => absurd hsel hnot, fun hvpd pdo hreq => ?_⟩
        obtain ⟨j, hbest'⟩ := hreq.1 hsel
        obtain ⟨-, rfl⟩ := hbest.unique hbest'
        exact hcable hvpd
      · intro h
        refine ⟨fun hvpd => h.cable hvpd q ⟨fun _ => ⟨i, hbest⟩, fun hnot => absurd hsel hnot⟩, fun _ => ?_⟩
        have hvolt := hbest.admissible.voltage
        have hmax := @asInt_le (maxRequestMv s)
        have hcable := @cableMv_le q vpdVdo
        omega
  · obtain ⟨q, hq⟩ : ∃ q, s.srcCaps[0]? = some q := ⟨_, List.getElem?_eq_getElem hcaps.1⟩
    rw [within_iff (requestedPdo_first hsel hq) (by decide) hq]
    constructor
    · rintro ⟨hcable, hvoltage⟩
      refine ⟨fun h => absurd h hsel, fun hallowed _ pdo hpdo => ?_, fun hvpd pdo hreq => ?_⟩
      · obtain rfl := Option.some.inj (hq.symm.trans hpdo)
        exact hvoltage hallowed
      · obtain rfl := Option.some.inj (hq.symm.trans (hreq.2 hsel))
        exact hcable hvpd
    · intro h
      exact ⟨fun hvpd => h.cable hvpd q ⟨fun hyes => absurd hyes hsel, fun _ => hq⟩,
        fun hallowed => h.first hallowed hsel q hq⟩

/-! ## Requests that are out of the offer -/

def octopus : Board := ⟨20000, 3000, 45000, false, false, false, fun _ => true, by decide⟩

def sinkWith (srcCaps : List Pdo) : Situation where
  srcCaps := srcCaps
  selectedChargePort := some none
  maxRequestAllowed := none
  maxVoltage := 20000
  dpsVoltage := none
  operatingPowerMw := 15000
  epr := false
  giveBack := none
  powerRole := .sink
  snkPdo := 0
  srcPdo := 0
  stale := 0

/-- 5 V and 9 V of 3 A, a variable supply up to 20 V of 1.2 A, and a battery up to 15 V of 20 W -/
def mixedCaps : List Pdo := [0x0001912C, 0x0002D12C, 0x99019078, 0x52C19050]

/-- 9 V are asked for behind a cable with 50 mOhm in each line. -/
theorem request_within_iff_cable :
    Within octopus (sinkWith mixedCaps) 0 (pdBuildRequest octopus 0xCE5 (sinkWith mixedCaps) 0) ∧
      (pdBuildRequest octopus 0xCE5 (sinkWith mixedCaps) 0).mv = 9000 := by
  have hselects : Selects (sinkWith mixedCaps) 0 := ⟨rfl, rfl⟩
  have hchosen : pdSelectBestPdo octopus mixedCaps (asInt (maxRequestMv (sinkWith mixedCaps))) = 1 := by decide +kernel
  have hbest : ∀ i pdo, IsBest octopus (asInt (maxRequestMv (sinkWith mixedCaps))) mixedCaps i pdo → pdo = 0x0002D12C := by
    intro i pdo h
    obtain ⟨-, hsome⟩ := pdSelectBestPdo_spec octopus mixedCaps (asInt (maxRequestMv (sinkWith mixedCaps)))
    obtain ⟨j, q, hj, hq⟩ := hsome (by rw [hchosen]; decide)
    obtain rfl : j = 1 := by omega
    exact (h.unique hq).2.trans (Option.some.inj hq.offered).symm
  refine ⟨(request_within_iff octopus 0xCE5 (sinkWith mixedCaps) 0 (by decide)).mpr ?_, by decide +kernel⟩
  refine ⟨fun _ => ⟨1, 0x0002D12C, rfl, by decide⟩, fun _ hnot => absurd hselects hnot, fun _ pdo hrequested => ?_⟩
  obtain ⟨i, h⟩ := hrequested.1 hselects
  rw [hbest i pdo h]
  decide

/-- The source has only an augmented PDO: the object position is 0. -/
theorem no_pdo_requested :
    ¬Within octopus (sinkWith [0xC0DC213C]) 0 (pdBuildRequest octopus 0 (sinkWith [0xC0DC213C]) 0) := by
  intro h
  have hpos : rdoPos (pdBuildRequest octopus 0 (sinkWith [0xC0DC213C]) 0).rdo = 0 := by decide +kernel
  exact absurd (hpos ▸ h.place.1) (by decide)

end ChromeEc.PdRequest
