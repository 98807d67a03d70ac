import Mathlib.Data.BitVec

/- The charge control of `common/charge_state.c`: the control mode and the battery sustainer.

  A status is the number that the source has for it; a function that returns both `EC_*` and
  `EC_RES_*` codes does so here. What the charger answers, and what is known of AC and battery,
  is found outside of these functions (`Env`).

  Correspondence (C ↔ Lean):
    `sustain_soc` ↔ `St.sustainSoc`
    `local_state.chg_ctl_mode`, `.manual_*` ↔ the other fields of `St`
    `curr.ac`, `curr.batt` ↔ `Env.ac`, `Env.battPresent`, `Env.displayCharge`
    `charger_discharge_on_ac` ↔ `Env.chargerDischargeOnAc`
    `struct ec_params_charge_control` ↔ `Params` -/
namespace ChromeEc.ChargeControl

/-- `enum ec_charge_control_mode`. -/
inductive Mode where
  | normal
  | idle
  | discharge
  deriving DecidableEq

/-- A number below `CHARGE_CONTROL_COUNT` is a mode. -/
def Mode.ofNat? : Nat → Option Mode
  | 0 => some .normal
  | 1 => some .idle
  | 2 => some .discharge
  | _ => none

abbrev ecSuccess : Int := 0
abbrev ecErrorUnimplemented : Int := 2
abbrev ecErrorInval : Int := 5
abbrev ecErrorNotPowered : Int := 8
abbrev ecResUnavailable : Int := 9

/-- `enum ec_status`, as far as it is returned. -/
inductive EcStatus where
  | success
  | error
  | invalidParam
  | unavailable
  deriving DecidableEq

/-- `EC_CHARGE_CONTROL_FLAG_NO_IDLE`. -/
def flagNoIdle : BitVec 8 := 1

structure SustainSoc where
  lower : Int8
  upper : Int8
  flags : BitVec 8
  deriving DecidableEq

structure St where
  sustainSoc : SustainSoc
  chgCtlMode : Mode
  manualVoltage : Int
  manualCurrent : Int
  deriving DecidableEq

/-- `CONFIG_CHARGER_DISCHARGE_ON_AC`. -/
structure Config where
  dischargeOnAc : Bool

structure Env where
  ac : Bool
  battPresent : Bool
  /-- In tenths of a percent. -/
  displayCharge : Int
  chargerDischargeOnAc : Bool → Int

/-- After `charger_init` and `charger_setup`. -/
def St.initial : St := ⟨⟨-1, -1, 0⟩, .normal, -1, -1⟩

variable (c : Config)

/-! ## The sustainer -/

def batterySustainerEnabled (s : St) : Bool := s.sustainSoc.lower != -1 && s.sustainSoc.upper != -1

def batterySustainerSet (lower upper : Int8) (s : St) : Int × St :=
  if lower = -1 ∨ upper = -1 then
    (ecSuccess, if batterySustainerEnabled s then { s with sustainSoc := ⟨-1, -1, 0⟩ } else s)
  else if lower.toInt ≤ upper.toInt ∧ 0 ≤ lower.toInt ∧ upper.toInt ≤ 100 then
    if c.dischargeOnAc then (ecSuccess, { s with sustainSoc := { s.sustainSoc with lower, upper } })
    else (ecResUnavailable, s)
  else
    (ecErrorInval, s)

def batterySustainerDisable (s : St) : St := (batterySustainerSet c (-1) (-1) s).2

/-! ## The mode -/

/-- The `current` and the `voltage` that go with a mode. -/
def manualFor (mode : Mode) (s : St) : Int × Int :=
  match mode with
  | .normal => (-1, -1)
  | .idle => (0, 0)
  | .discharge => (s.manualCurrent, s.manualVoltage)

def setChgCtrlMode (e : Env) (mode : Nat) (s : St) : Int × St :=
  match Mode.ofNat? mode with
  | none => (ecErrorInval, s)
  | some mode =>
    if mode ≠ .normal ∧ e.ac = false then
      -- changing mode is only meaningful if AC is present
      (ecErrorNotPowered, s)
    else if mode = .discharge ∧ c.dischargeOnAc = false then
      (ecErrorUnimplemented, s)
    else
      let rv := if c.dischargeOnAc then e.chargerDischargeOnAc (mode == .discharge) else ecSuccess
      if rv ≠ ecSuccess then
        (rv, s)
      else
        let (current, voltage) := manualFor mode s
        (ecSuccess, { s with chgCtlMode := mode, manualCurrent := current, manualVoltage := voltage })

def Mode.toNat : Mode → Nat
  | .normal => 0
  | .idle => 1
  | .discharge => 2

/-- `charge_get_display_charge() / 10`. -/
def soc (e : Env) : Int := e.displayCharge.tdiv 10

def sustainSwitchMode (e : Env) (mode : Mode) (s : St) : Mode :=
  let lower := s.sustainSoc.lower.toInt
  let upper := s.sustainSoc.upper.toInt
  let noIdle := s.sustainSoc.flags &&& flagNoIdle != 0
  match mode with
  | .normal =>
    if upper < soc e then .discharge
    else if upper = soc e then if noIdle then .discharge else .idle
    else .normal
  | .idle =>
    if soc e < lower then .normal
    else if upper < soc e then .discharge
    else .idle
  | .discharge =>
    if soc e ≤ upper ∧ noIdle = false then .idle
    else if soc e < lower then .normal
    else .discharge

def sustainBatterySoc (e : Env) (s : St) : St :=
  if e.ac = false ∨ e.battPresent = false ∨ batterySustainerEnabled s = false then
    s
  else
    let newMode := sustainSwitchMode e s.chgCtlMode s
    if newMode = s.chgCtlMode then s else (setChgCtrlMode c e newMode.toNat s).2

/-! ## The host command -/

/-- `enum ec_charge_control_cmd`. -/
inductive Cmd where
  | set
  | get
  | other

structure Params where
  mode : Nat
  cmd : Cmd
  flags : BitVec 8
  lower : Int8
  upper : Int8

/-- What `EC_CHARGE_CONTROL_CMD_GET` answers. -/
structure Response where
  mode : Mode
  lower : Int8
  upper : Int8
  flags : Option (BitVec 8)

def setSustainer (version : Nat) (p : Params) (s : St) : Option EcStatus × St :=
  if p.mode = 0 then
    let (rv, s) := batterySustainerSet c p.lower p.upper s
    if rv = ecResUnavailable then (some .unavailable, s)
    else if rv ≠ ecSuccess then (some .invalidParam, s)
    else if version = 2 then
      if s.sustainSoc.lower.toInt < s.sustainSoc.upper.toInt then
        (none, { s with sustainSoc := { s.sustainSoc with flags := flagNoIdle } })
      else
        (none, s)
    else
      (none, { s with sustainSoc := { s.sustainSoc with flags := p.flags } })
  else
    (none, batterySustainerDisable c s)

def chargeCommandChargeControl (e : Env) (version : Nat) (p : Params) (s : St) : EcStatus × Option Response × St :=
  match p.cmd with
  | .set =>
    match setSustainer c version p s with
    | (some status, s) => (status, none, s)
    | (none, s) =>
      let (rv, s) := setChgCtrlMode c e p.mode s
      (if rv ≠ ecSuccess then .error else .success, none, s)
  | .get =>
    let flags := if 2 < version then some s.sustainSoc.flags else none
    (.success, some ⟨s.chgCtlMode, s.sustainSoc.lower, s.sustainSoc.upper, flags⟩, s)
  | .other => (.invalidParam, none, s)

end ChromeEc.ChargeControl
