import Mathlib.Data.BitVec
import Mathlib.Data.List.Basic

/- What a sink asks its source for: `common/usbc_utils.c` and `common/usb_pd_dual_role.c`.

  A board's configuration has its limits in it, and that the power limit in uW is an `int`. What
  the fields of a PDO and the limits allow fits the machine words (`ma_le`), so the currents,
  voltages and powers are natural numbers. What other modules answer is part of the
  `Situation` in which a request is built.

  Correspondence (C ↔ Lean):
    `pd_is_valid_input_voltage` ↔ `Board.isValidInputVoltage`
    `PDO_FIXED_VOLTAGE` and its kind ↔ `pdoFixedVoltage` and its kind
    `pd_select_best_pdo` ↔ `pdSelectBestPdo`, with `selectFrom` its loop
    `extract_pdo_helper`, `pd_extract_pdo_power`, `RDO_FIXED`, `RDO_BATT`,
      `pd_get_usb_comm_capable`, `pd_build_request` ↔ the same in camelCase -/
namespace ChromeEc.PdRequest

abbrev Pdo := BitVec 32

def pdMaxSprVoltage : Nat := 20000
def pdMaxVariableVoltage : Nat := 21000

structure Board where
  maxVoltageMv : Nat
  maxCurrentMa : Nat
  maxPowerMw : Nat
  onlyFixedPdos : Bool
  preferLowVoltage : Bool
  preferHighVoltage : Bool
  isValidInputVoltage : Nat → Bool
  maxPower_lt : maxPowerMw * 1000 < 2 ^ 31

/-! ## The fields of a PDO -/

inductive PdoType where
  | fixed
  | battery
  | variable
  | augmented
  deriving DecidableEq

def pdoType (pdo : Pdo) : PdoType :=
  if pdo.extractLsb' 30 2 = 0 then .fixed
  else if pdo.extractLsb' 30 2 = 1 then .battery
  else if pdo.extractLsb' 30 2 = 2 then .variable
  else .augmented

def pdoFixedVoltage (pdo : Pdo) : Nat := (pdo.extractLsb' 10 10).toNat * 50
def pdoFixedCurrent (pdo : Pdo) : Nat := (pdo.extractLsb' 0 10).toNat * 10
def pdoBattMaxVoltage (pdo : Pdo) : Nat := (pdo.extractLsb' 20 10).toNat * 50
def pdoBattMinVoltage (pdo : Pdo) : Nat := (pdo.extractLsb' 10 10).toNat * 50
def pdoBattMaxPower (pdo : Pdo) : Nat := (pdo.extractLsb' 0 10).toNat * 250
def pdoVarMaxVoltage (pdo : Pdo) : Nat := (pdo.extractLsb' 20 10).toNat * 50
def pdoVarMinVoltage (pdo : Pdo) : Nat := (pdo.extractLsb' 10 10).toNat * 50
def pdoVarMaxCurrent (pdo : Pdo) : Nat := (pdo.extractLsb' 0 10).toNat * 10
def pdoAugMaxVoltage (pdo : Pdo) : Nat := (pdo.extractLsb' 17 8).toNat * 100
def pdoAugMinVoltage (pdo : Pdo) : Nat := (pdo.extractLsb' 8 8).toNat * 100
def pdoAugMaxCurrent (pdo : Pdo) : Nat := (pdo.extractLsb' 0 7).toNat * 50

structure Power where
  ma : Nat
  maxMv : Nat
  minMv : Nat

def pdoVoltages (pdo : Pdo) : Nat × Nat :=
  match pdoType pdo with
  | .fixed => (pdoFixedVoltage pdo, pdoFixedVoltage pdo)
  | .augmented => (pdoAugMaxVoltage pdo, pdoAugMinVoltage pdo)
  | .variable => (pdoVarMaxVoltage pdo, pdoVarMinVoltage pdo)
  | .battery => (pdoBattMaxVoltage pdo, pdoBattMinVoltage pdo)

def extractPdoHelper (pdo : Pdo) : Power :=
  let mv := pdoVoltages pdo
  if mv.1 = 0 then ⟨0, 0, 0⟩
  else
    let ma :=
      match pdoType pdo with
      | .fixed => pdoFixedCurrent pdo
      | .augmented => pdoAugMaxCurrent pdo
      | .variable => pdoVarMaxCurrent pdo
      | .battery => 1000 * pdoBattMaxPower pdo / mv.1
    ⟨ma, mv.1, mv.2⟩

def boardLimitMa (b : Board) (mv : Nat) : Nat := min b.maxCurrentMa (b.maxPowerMw * 1000 / mv)

def pdExtractPdoPower (b : Board) (pdo : Pdo) : Power :=
  let x := extractPdoHelper pdo
  if x.maxMv = 0 then x else { x with ma := min x.ma (boardLimitMa b x.maxMv) }

/-! ## The best PDO -/

structure Best where
  ret : Int
  curUw : Int
  curMv : Nat

/-- It is illegal to have an EPR PDO in the first seven places. -/
def eprTooEarly (i : Nat) (pdo : Pdo) (mv : Nat) : Bool :=
  decide (i < 7) && (decide (pdoType pdo = .fixed ∧ pdMaxSprVoltage < mv) ||
    decide (pdoType pdo = .variable ∧ pdMaxVariableVoltage < mv))

def selectStep (b : Board) (maxMv : Int) (cur : Best) (i : Nat) (pdo : Pdo) : Best :=
  if b.onlyFixedPdos = true ∧ pdoType pdo ≠ .fixed then cur
  else if pdoType pdo = .augmented then cur
  else
    let x := pdExtractPdoPower b pdo
    if x.maxMv = 0 then cur
    else if eprTooEarly i pdo x.maxMv = true then cur
    else if b.isValidInputVoltage x.maxMv = false then cur
    else if maxMv < x.maxMv then cur
    else
      let uw : Int := min (x.ma * x.maxMv) (b.maxPowerMw * 1000)
      let preferCur :=
        if b.preferLowVoltage = true then decide (uw = cur.curUw ∧ x.maxMv < cur.curMv)
        else if b.preferHighVoltage = true then decide (uw = cur.curUw ∧ cur.curMv < x.maxMv)
        else false
      if preferCur = true ∨ cur.curUw < uw then ⟨i, uw, x.maxMv⟩ else cur

def selectFrom (b : Board) (maxMv : Int) : Nat → List Pdo → Best → Best
  | _, [], cur => cur
  | i, pdo :: rest, cur => selectFrom b maxMv (i + 1) rest (selectStep b maxMv cur i pdo)

/-- The index, or -1; what is at the index is stored in `selected_pdo`. -/
def pdSelectBestPdo (b : Board) (srcCaps : List Pdo) (maxMv : Int) : Int :=
  (selectFrom b (min maxMv b.maxVoltageMv) 0 srcCaps ⟨-1, -1, 0⟩).ret

/-! ## The request -/

def rdoObjPos (n : Nat) : BitVec 32 := (BitVec.ofNat 32 n &&& 0xF) <<< 28
def rdoGiveBack : BitVec 32 := 1 <<< 27
def rdoCapMismatch : BitVec 32 := 1 <<< 26
def rdoCommCap : BitVec 32 := 1 <<< 25
def rdoNoSuspend : BitVec 32 := 1 <<< 24
def rdoEprModeCapable : BitVec 32 := 1 <<< 22

def rdoFixed (n opMa maxMa : Nat) (flags : BitVec 32) : BitVec 32 :=
  rdoObjPos n ||| flags ||| ((BitVec.ofNat 32 (opMa / 10) &&& 0x3FF) <<< 10) ||| (BitVec.ofNat 32 (maxMa / 10) &&& 0x3FF)

def rdoBatt (n opMw maxMw : Nat) (flags : BitVec 32) : BitVec 32 :=
  rdoObjPos n ||| flags ||| ((BitVec.ofNat 32 (opMw / 250) &&& 0x3FF) <<< 10) ||| (BitVec.ofNat 32 (maxMw / 250) &&& 0x3FF)

def rdoPos (rdo : BitVec 32) : Nat := (rdo.extractLsb' 28 4).toNat

/-- In units of 10 mA, or of 250 mW for a battery. -/
def rdoOperating (rdo : BitVec 32) : Nat := (rdo.extractLsb' 10 10).toNat

inductive PowerRole where
  | sink
  | source
  deriving DecidableEq

structure Situation where
  srcCaps : List Pdo
  selectedChargePort : Option (Option Nat)
  /-- If `CONFIG_USB_PD_CHECK_MAX_REQUEST_ALLOWED`. -/
  maxRequestAllowed : Option Bool
  maxVoltage : BitVec 32
  dpsVoltage : Option (BitVec 32)
  operatingPowerMw : Nat
  epr : Bool
  /-- The least power and current, if `CONFIG_USB_PD_GIVE_BACK`. -/
  giveBack : Option (Nat × Nat)
  powerRole : PowerRole
  /-- The first PDO of the port as a sink, and as a source. -/
  snkPdo : Pdo
  srcPdo : Pdo
  /-- What is in `pdo` before it is stored to. -/
  stale : Pdo

def pdGetUsbCommCapable (s : Situation) : Bool :=
  match s.powerRole with
  | .sink => s.snkPdo.getLsbD 26
  | .source => s.srcPdo.getLsbD 26

def chargingAllowed (s : Situation) (port : Nat) : Bool :=
  match s.selectedChargePort with
  | none => true
  | some none => true
  | some (some chgPort) => chgPort == port

def maxRequestMv (s : Situation) : Nat :=
  match s.dpsVoltage with
  | none => s.maxVoltage.toNat
  | some mv => min s.maxVoltage.toNat mv.toNat

def asInt (mv : Nat) : Int := (BitVec.ofNat 32 mv).toInt

def vpdMaxVbus (vdo : BitVec 32) : Nat := 20000 + (vdo.extractLsb' 15 2).toNat * 10000
def vpdVbusDcr (vdo : BitVec 32) : Nat := (vdo.extractLsb' 7 6).toNat * 2
def vpdGndDcr (vdo : BitVec 32) : Nat := (vdo.extractLsb' 1 6).toNat

/-- The current that a charge-through cable can carry. -/
def vpdCurrent (vdo : BitVec 32) (ma : Nat) : Nat :=
  if 3000 < ma then 750000 / (150 + vpdVbusDcr vdo + vpdGndDcr vdo) else 750000 / (250 + vpdVbusDcr vdo + vpdGndDcr vdo)

def vpdAdjust (vdo : BitVec 32) (x : Nat × Nat) : Nat × Nat :=
  if 0 < vdo.toInt then (vpdCurrent vdo x.1, min x.2 (vpdMaxVbus vdo)) else x

def requestedPdo (b : Board) (s : Situation) (port : Nat) : Int × Pdo :=
  if chargingAllowed s port = true ∧ s.maxRequestAllowed.getD true = true then
    let i := pdSelectBestPdo b s.srcCaps (asInt (maxRequestMv s))
    (i, if i = -1 then s.stale else s.srcCaps.getD i.toNat 0)
  else (0, s.srcCaps.getD 0 0)

def requestFlags (s : Situation) (uw : Nat) : BitVec 32 :=
  (if uw < 1000 * s.operatingPowerMw then rdoCapMismatch else 0) ||| (if s.epr = true then rdoEprModeCapable else 0) |||
    (if s.giveBack.isSome = true then rdoGiveBack else 0)

def commFlags (s : Situation) : BitVec 32 :=
  if pdGetUsbCommCapable s = true then rdoCommCap ||| (if s.powerRole = .sink then rdoNoSuspend else 0) else 0

structure Request where
  rdo : BitVec 32
  ma : Nat
  mv : Nat

def pdBuildRequest (b : Board) (vpdVdo : BitVec 32) (s : Situation) (port : Nat) : Request :=
  let r := requestedPdo b s port
  let x := pdExtractPdoPower b r.2
  let y := vpdAdjust vpdVdo (x.ma, x.maxMv)
  let uw := y.1 * y.2
  let n := (r.1 + 1).toNat
  let rdo :=
    if pdoType r.2 = .battery then
      rdoBatt n (uw / 1000) ((s.giveBack.map Prod.fst).getD (uw / 1000)) (requestFlags s uw)
    else rdoFixed n y.1 ((s.giveBack.map Prod.snd).getD y.1) (requestFlags s uw)
  ⟨rdo ||| commFlags s, y.1, y.2⟩

end ChromeEc.PdRequest
