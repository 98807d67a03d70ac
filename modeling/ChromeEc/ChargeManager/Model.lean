import Mathlib.Algebra.Group.Int.Defs
import Mathlib.Algebra.Group.Nat.Defs
import Mathlib.Data.Int.Basic

/- The charge manager, `common/charge_manager.c`, in a build without the task `CHG_RAMP`,
  to which the limit would go instead of to the charger.

  `charge_manager_refresh` hunts for a charge port: it takes the best one and offers it
  to the board, and when the board rejects it clears the charge of the port and tries
  again. The loop has no bound in the source, so `hunt` has fuel and says with `none`
  that it ran out of it. Every iteration asks anew, so the answers are a sequence.

  `CHARGE_PORT_NONE` and `CHARGE_SUPPLIER_NONE` are `none`. The source uses -1, and
  nothing keeps it from being an index: what an access with it yields is an answer of
  `Env`, like the answers of the board, the battery and the rest of power delivery.

  Left out are the log of `CONFIG_USB_PD_LOGGING`, the host events of the two timers
  and the calls that only tell others that something has changed.

  Correspondence (C ↔ Lean):
    `charge_manager_get_best_port` ↔ `getBestPort`, with the loops in `scan`
    the `while (1)` of `charge_manager_refresh` ↔ `hunt`
    the rest of `charge_manager_refresh` ↔ `applyChoice`
    `chg_ramp_allowed`, `chg_ramp_max` ↔ `chgRampAllowed`, `chgRampMax`
    `charge_manager_make_change` ↔ `updateCharge`, `updateDualrole`
    `hook_call_deferred` of a refresh ↔ `St.refreshDeferred` -/
namespace ChromeEc.ChargeManager

structure Config where
  usbPdPortMaxCount : Nat
  dedicatedChargePortCount : Nat
  dedicatedChargePort : Nat
  /-- `board_get_usb_pd_port_count()`, which may leave a hole below the dedicated port. -/
  usbPdPortCount : Nat
  usbPdPortCount_le : usbPdPortCount ≤ usbPdPortMaxCount
  supplierCount : Nat
  supplierPriority : Nat → Int
  battery : Bool
  drpCharging : Bool
  usbPdDps : Bool
  usbPdcPowerMgmt : Bool
  /-- The requested voltage and current can be asked for. -/
  requestedPowerKnown : Bool
  chargerDefaultCurrentLimit : Int
  powerSwapTimeout : Nat
  chargeRampHw : Bool := false
  /-- `usb_charger_ramp_allowed` and `usb_charger_ramp_max` by port and supplier. The drivers of
  the build decide, and without `CONFIG_USB_CHARGER` there are none. -/
  usbChargerRampAllowed : Option Nat → Option Nat → Bool := fun _ _ => false
  usbChargerRampMax : Option Nat → Option Nat → Int → Int := fun _ _ _ => 0

def Config.chargePortCount (c : Config) : Nat := c.usbPdPortMaxCount + c.dedicatedChargePortCount

def chargeSupplierPd : Nat := 0

def chargeSupplierTypec : Nat := 1

def chargeSupplierTypecDts : Nat := 2

/-- `CHARGE_CURRENT_UNINITIALIZED` and `CHARGE_VOLTAGE_UNINITIALIZED`. -/
def chargeUninitialized : Int := -1

def chargeCeilNone : Int := -1

structure ChargePortInfo where
  current : Int
  voltage : Int
  deriving DecidableEq

inductive DualroleCapabilities where
  | unknown
  | dualrole
  | dedicated
  deriving DecidableEq

inductive CeilRequestor where
  | pd
  | host
  deriving DecidableEq

/-- A port, `OVERRIDE_OFF` or `OVERRIDE_DONT_CHARGE`. -/
inductive Override where
  | off
  | dontCharge
  | port (p : Nat)
  deriving DecidableEq

inductive BatteryPresent where
  | no
  | yes
  | notSure
  deriving DecidableEq

inductive BatteryCutoffStates where
  | normal
  | inProgress
  | cutOff
  | scheduled
  deriving DecidableEq

structure Env where
  boardSetActiveChargePort : Option Nat → Bool
  batteryIsPresent : BatteryPresent
  batteryIsCutOff : BatteryCutoffStates
  dpsGetChargePort : Option Nat
  dpsIsEnabled : Bool
  roLocked : Bool
  notRwLocked : Bool
  isSink : Nat → Bool
  getPdPortMaxPower : Nat → Int
  requested : Nat → ChargePortInfo
  /-- What `pd_select_best_pdo` offers on a port. -/
  bestPdo : Nat → ChargePortInfo
  /-- What is read where `available_charge` does not reach. -/
  outside : Option Nat → Option Nat → ChargePortInfo
  now : Nat

inductive Event where
  | setActiveChargePort (port : Option Nat)
  | setHwRamp (enable : Bool)
  | setChargeLimit (port supplier : Option Nat) (current uncapped voltage : Int)
  | setNewPowerRequest (port : Nat)
  | requestPowerSwap (port : Nat)
  | powerSupplyChange

structure St where
  /-- By supplier and port. -/
  availableCharge : Nat → Nat → ChargePortInfo
  chargeCeil : Nat → CeilRequestor → Int
  dualroleCapability : Nat → DualroleCapabilities
  chargePort : Option Nat
  chargeSupplier : Option Nat
  chargeCurrent : Int
  chargeCurrentUncapped : Int
  chargeVoltage : Int
  chargePdCurrentUncapped : Int
  overridePort : Override
  delayedOverridePort : Option Nat
  delayedOverrideDeadline : Nat
  leftSafeMode : Bool
  activeChargePortInitialized : Bool
  isSeeded : Bool
  refreshDeferred : Bool
  events : List Event

def emit (ev : Event) (s : St) : St := { s with events := s.events ++ [ev] }

section

variable (c : Config) (e : Env) (s : St)

/-! ## Ports -/

def isPdPort (port : Nat) : Bool := port < c.usbPdPortCount

def isValidPort (port : Nat) : Bool :=
  port < c.chargePortCount && !(c.usbPdPortCount ≤ port && port < c.usbPdPortMaxCount)

/-- `available_charge[supplier][port]`. -/
def chargeAt (supplier port : Option Nat) : ChargePortInfo :=
  match supplier, port with
  | some i, some p => s.availableCharge i p
  | _, _ => e.outside supplier port

def clearPort (port : Nat) (s : St) : St :=
  { s with availableCharge := fun i p =>
      if i < c.supplierCount ∧ p = port then ⟨0, 0⟩ else s.availableCharge i p }

def isSeededNow : Bool :=
  s.isSeeded || (List.range c.supplierCount).all fun i =>
    (List.range c.chargePortCount).all fun p => !isValidPort c p ||
      ((s.availableCharge i p).current != chargeUninitialized &&
        (s.availableCharge i p).voltage != chargeUninitialized)

/-- A refresh is deferred once all ports and suppliers have reported. -/
def refreshIfSeeded (s : St) : St :=
  if isSeededNow c s then { s with isSeeded := true, refreshDeferred := true } else s

/-! ## The best port -/

/-- `POWER`, a product of type `int`. -/
def power (i : ChargePortInfo) : Int := (i.current * i.voltage).bmod (2 ^ 32)

def getCandidatePortPower (supplier port : Nat) : Int :=
  let candidate := power (s.availableCharge supplier port)
  if c.usbPdcPowerMgmt && isPdPort c port then max (e.getPdPortMaxPower port) candidate
  else candidate

def chargeManagerSpoofDualroleCapability : Bool := e.roLocked || !s.leftSafeMode

def isDualroleChargingCapable (port : Nat) : Bool :=
  c.drpCharging || s.dualroleCapability port == .dedicated || s.overridePort == .port port ||
    chargeManagerSpoofDualroleCapability e s

def isBatteryDisconnected : Bool :=
  c.battery && (e.batteryIsPresent == .no || e.batteryIsPresent == .notSure ||
    (e.batteryIsPresent == .yes && e.batteryIsCutOff != .normal))

/-- The best supplier and port so far. -/
structure Best where
  supplier : Option Nat
  port : Option Nat
  power : Int

/-- A candidate that is not skipped is better than the best one so far. -/
def isBetter (supplier port : Nat) (candidate : Int) (b : Best) : Bool :=
  match b.supplier with
  | none => true
  | some best =>
    c.supplierPriority supplier < c.supplierPriority best ||
      (s.overridePort == .port port && b.port != some port) ||
      (c.supplierPriority supplier == c.supplierPriority best &&
        (candidate > b.power || (candidate == b.power && s.chargePort == some port)))

/-- `override_port` is the best port, and `port` is another one. -/
def isOverridden (port : Nat) (b : Best) : Bool :=
  match s.overridePort with
  | .port o => b.port == some o && o != port
  | _ => false

/-- The inner loop. A port that DPS has selected ends it. -/
def scanPorts (supplier : Nat) : List Nat → Best → Best
  | [], b => b
  | port :: ports, b =>
    if !isValidPort c port then scanPorts supplier ports b
    else if (s.availableCharge supplier port).current == 0 ||
        (s.availableCharge supplier port).voltage == 0 then
      scanPorts supplier ports b
    else if isOverridden s port b then scanPorts supplier ports b
    else if !isDualroleChargingCapable c e s port then scanPorts supplier ports b
    else
      let candidate := getCandidatePortPower c e s supplier port
      if c.usbPdDps && s.overridePort == .off && supplier == chargeSupplierPd &&
          e.dpsGetChargePort == some port then
        { b with supplier := some supplier, port := some port }
      else if isBetter c s supplier port candidate b then
        scanPorts supplier ports ⟨some supplier, some port, candidate⟩
      else scanPorts supplier ports b

def scan : Best :=
  (List.range c.supplierCount).foldl
    (fun b supplier => scanPorts c e s supplier (List.range c.chargePortCount) b) ⟨none, none, -1⟩

/-- The charge port is kept although another one is better, because there is no
battery. -/
def keepsPort (b : Best) : Bool :=
  s.chargePort.isSome && s.chargePort != b.port && isBatteryDisconnected c e

def getBestPort : Option Nat × Option Nat :=
  if s.overridePort == .dontCharge then (none, none)
  else
    let b := scan c e s
    if keepsPort c e s b then
      let info := chargeAt e s s.chargeSupplier s.chargePort
      (s.chargePort,
        if info.current != 0 || info.voltage != 0 then s.chargeSupplier else b.supplier)
    else (b.port, b.supplier)

end

/-! ## Refresh -/

/-- How the hunt for a charge port ends. -/
inductive HuntEnd where
  /-- In safe mode no port is not an option, and the function returns. -/
  | safeMode (s : St)
  | selected (port supplier : Option Nat) (s : St)
  | assertFailed

/-- The loop, for at most as many iterations as there is fuel. Iteration `k` is answered by
`e k`. -/
def hunt (c : Config) : (Nat → Env) → Nat → St → Option HuntEnd
  | _, 0, _ => none
  | e, n + 1, s =>
    let best := getBestPort c (e 0) s
    if !s.leftSafeMode && best.1 == none then some (.safeMode s)
    else if s.activeChargePortInitialized && best.1 == s.chargePort && best.2 == s.chargeSupplier then
      some (.selected best.1 best.2 s)
    else
      let s := emit (.setActiveChargePort best.1) s
      if (e 0).boardSetActiveChargePort best.1 then some (.selected best.1 best.2 s)
      else
        match best.1 with
        | none => some .assertFailed
        | some port => hunt c (fun k => e (k + 1)) n (clearPort c port s)

section

variable (c : Config) (e : Env)

def chargeManagerGetCeil (s : St) (port : Option Nat) : Int :=
  match port with
  | none => chargeCeilNone
  | some p =>
    if !isValidPort c p then chargeCeilNone
    else
      [CeilRequestor.pd, .host].foldl
        (fun ceil r =>
          let val := s.chargeCeil p r
          if val != chargeCeilNone && (ceil == chargeCeilNone || val < ceil) then val else ceil)
        chargeCeilNone

/-- `locked`: the image is not RW and the system is locked. -/
def chgRampAllowed (locked : Bool) (port supplier : Option Nat) : Bool :=
  if locked then false
  else if supplier == some chargeSupplierTypecDts then true
  else if supplier == some chargeSupplierPd || supplier == some chargeSupplierTypec then false
  else c.usbChargerRampAllowed port supplier

def chgRampMax (port supplier : Option Nat) (supCurr : Int) : Int :=
  if supplier == some chargeSupplierPd || supplier == some chargeSupplierTypec then 0
  else if supplier == some chargeSupplierTypecDts then supCurr
  else c.usbChargerRampMax port supplier supCurr

/-- The current that a supplier offers, or how far the hardware may ramp it up. -/
def uncappedCurrent (locked : Bool) (port supplier : Option Nat) (offered : Int) : Int :=
  if c.chargeRampHw && chgRampAllowed c locked port supplier then chgRampMax c port supplier offered
  else offered

/-- The new charge current, before and after the ceiling, and the voltage. -/
def newCharge (s : St) (port supplier : Option Nat) : Int × Int × Int :=
  match supplier with
  | none => (c.chargerDefaultCurrentLimit, c.chargerDefaultCurrentLimit, 0)
  | some _ =>
    let info := chargeAt e s supplier port
    let uncapped := uncappedCurrent c e.notRwLocked port supplier info.current
    let ceil := chargeManagerGetCeil c s port
    (uncapped, if s.leftSafeMode && ceil != chargeCeilNone then min ceil uncapped else uncapped,
      info.voltage)

/-- The ramp is switched before the limit is set. -/
def hwRamp (port supplier : Option Nat) : List Event :=
  if c.chargeRampHw then [.setHwRamp (chgRampAllowed c e.notRwLocked port supplier)] else []

def chargeManagerSwitchToSource (port : Nat) (s : St) : St :=
  if isPdPort c port && s.dualroleCapability port == .dualrole && e.isSink port then
    emit (.requestPowerSwap port) s
  else s

/-- A power request is signalled if it is different from what was requested, or if more
power can be had. -/
def signalNewPort (port : Nat) (s : St) : St :=
  if !isPdPort c port then s
  else if !c.requestedPowerKnown then emit (.setNewPowerRequest port) s
  else if e.requested port != ⟨s.chargeCurrentUncapped, s.chargeVoltage⟩ ||
      (!(c.usbPdDps && e.dpsIsEnabled) &&
        e.bestPdo port != ⟨s.chargeCurrentUncapped, s.chargeVoltage⟩) then
    emit (.setNewPowerRequest port) s
  else s

def signalOldPort (port : Nat) (s : St) : St :=
  if isPdPort c port then emit (.setNewPowerRequest port) s else s

/-- The part of `charge_manager_refresh` after the hunt. -/
def applyChoice (port supplier : Option Nat) (s : St) : St :=
  let s := { s with
    activeChargePortInitialized := true
    overridePort :=
      match s.overridePort with
      | .port o => if port == some o then .port o else .off
      | other => other }
  let (uncapped, current, voltage) := newCharge c e s port supplier
  let s := { s with
    chargePdCurrentUncapped :=
      if supplier == some chargeSupplierPd then uncapped else chargeUninitialized }
  let powerChanged := port != s.chargePort || current != s.chargeCurrent || supplier != s.chargeSupplier
  let s := if powerChanged then
      emit (.setChargeLimit port supplier current uncapped voltage)
        { s with events := s.events ++ hwRamp c e port supplier }
    else s
  let updatedNew := port != s.chargePort || uncapped != s.chargeCurrentUncapped ||
    voltage != s.chargeVoltage
  let updatedOld := if s.chargePort != port then s.chargePort else none
  let s := match updatedOld with
    | some old => chargeManagerSwitchToSource c e old s
    | none => s
  let s := { s with
    chargeCurrent := current
    chargeCurrentUncapped := uncapped
    chargeVoltage := voltage
    chargeSupplier := supplier
    chargePort := port }
  let s := match port with
    | some p => if updatedNew then signalNewPort c e p s else s
    | none => s
  let s := match updatedOld with
    | some old => signalOldPort c old s
    | none => s
  if powerChanged then emit .powerSupplyChange s else s

/-- `charge_manager_refresh` ends with this state. -/
def HuntEnd.finish : HuntEnd → Option St
  | .safeMode s => some s
  | .selected port supplier s => some (applyChoice c e port supplier s)
  | .assertFailed => none

/-! ## Changes -/

/-- `charge_manager_set_override`. The result says whether it was accepted. -/
def chargeManagerSetOverride (port : Override) (s : St) : Bool × St :=
  let set : St := if s.overridePort != port then refreshIfSeeded c { s with overridePort := port } else s
  if s.delayedOverridePort != none then (false, s)
  else
    match port with
    | .port p =>
      if e.isSink p then (true, set)
      else if s.dualroleCapability p == .dualrole then
        (true, emit (.requestPowerSwap p)
          { s with
            delayedOverrideDeadline := e.now + c.powerSwapTimeout
            delayedOverridePort := some p })
      else (false, s)
    | _ => (true, set)

def removeOverride (port : Nat) (s : St) : St :=
  if s.overridePort != .port port && s.overridePort != .dontCharge &&
      (c.drpCharging || s.dualroleCapability port == .dedicated) then
    { s with overridePort := .off, delayedOverridePort := none }
  else s

/-- `charge_manager_update_charge`. -/
def updateCharge (supplier port : Nat) (charge : ChargePortInfo) (s : St) : St :=
  if !isValidPort c port then s
  else
    let old := s.availableCharge supplier port
    if old == charge then s
    else
      let s := if charge.current > 0 && old.current == 0 then removeOverride c port s else s
      let s := { s with availableCharge := fun i p =>
        if i = supplier ∧ p = port then charge else s.availableCharge i p }
      let s :=
        if s.delayedOverridePort == some port && charge.current > 0 && e.isSink port &&
            e.now < s.delayedOverrideDeadline then
          (chargeManagerSetOverride c e (.port port) { s with delayedOverridePort := none }).2
        else s
      refreshIfSeeded c s

/-- `charge_manager_update_dualrole`. -/
def updateDualrole (port : Nat) (cap : DualroleCapabilities) (s : St) : St :=
  if !isPdPort c port then s
  else if s.dualroleCapability port == cap then s
  else
    let s := { s with dualroleCapability := fun p => if p = port then cap else s.dualroleCapability p }
    if !isValidPort c port then s
    -- With DRP charging the condition is compiled out, and the return stays.
    else if c.drpCharging || cap != .dedicated then s
    else if (List.range c.supplierCount).any fun i => (s.availableCharge i port).current > 0 then
      refreshIfSeeded c (removeOverride c port s)
    else s

def chargeManagerLeaveSafeMode (s : St) : St :=
  if s.leftSafeMode then s else refreshIfSeeded c { s with leftSafeMode := true }

def chargeManagerSetCeil (port : Nat) (requestor : CeilRequestor) (ceil : Int) (s : St) : St :=
  if !isValidPort c port then s
  else if s.chargeCeil port requestor == ceil then s
  else
    let s := { s with chargeCeil := fun p r =>
      if p = port ∧ r = requestor then ceil else s.chargeCeil p r }
    if s.chargePort == some port then refreshIfSeeded c s else s

def chargeManagerForceCeil (port : Nat) (ceil : Int) (s : St) : St :=
  if s.leftSafeMode && s.chargePort == some port && ceil < s.chargeCurrent then
    emit (.setChargeLimit (some port) (some chargeSupplierPd) ceil s.chargeCurrentUncapped s.chargeVoltage)
      { s with
        chargeCurrent := ceil
        chargeCeil := fun p r => if p = port ∧ r = .pd then ceil else s.chargeCeil p r }
  else chargeManagerSetCeil c port .pd ceil s

/-- `charge_manager_set_supplier`, which names the port that supplies power at boot. -/
def chargeManagerSetSupplier (port supplier : Nat) (s : St) : St :=
  if s.chargeSupplier != none || s.chargePort != none then s
  else { s with chargePort := some port, chargeSupplier := some supplier }

/-! ## Runs -/

/-- Static data after `charge_manager_init`. `CHARGE_SUPPLIER_DEDICATED` is the last
supplier, if there is a dedicated port. In a build without safe mode it has been left from
the start. -/
def initial (leftSafeMode : Bool) : St where
  availableCharge i p :=
    if isValidPort c p &&
        !(0 < c.dedicatedChargePortCount && (p == c.dedicatedChargePort) != (i + 1 == c.supplierCount)) then
      ⟨chargeUninitialized, chargeUninitialized⟩
    else ⟨0, 0⟩
  chargeCeil p _ := if isValidPort c p then chargeCeilNone else 0
  dualroleCapability p := if isValidPort c p && !isPdPort c p then .dedicated else .unknown
  chargePort := none
  chargeSupplier := none
  chargeCurrent := chargeUninitialized
  chargeCurrentUncapped := chargeUninitialized
  chargeVoltage := 0
  chargePdCurrentUncapped := chargeUninitialized
  overridePort := .off
  delayedOverridePort := none
  delayedOverrideDeadline := 0
  leftSafeMode := leftSafeMode
  activeChargePortInitialized := false
  isSeeded := false
  refreshDeferred := false
  events := []

end

/-- What can happen. The suppliers are those of the enumeration, and the port that
supplies power at boot is a port of power delivery. -/
inductive Input (c : Config) where
  | updateCharge (supplier : Fin c.supplierCount) (port : Nat) (charge : ChargePortInfo)
  | updateDualrole (port : Nat) (cap : DualroleCapabilities)
  | leaveSafeMode
  | setCeil (port : Nat) (requestor : CeilRequestor) (ceil : Int)
  | forceCeil (port : Nat) (ceil : Int)
  | setOverride (port : Override)
  | overrideTimeout
  | setSupplier (port : Fin c.usbPdPortCount) (supplier : Fin c.supplierCount)

def step (c : Config) (e : Env) (s : St) : Input c → St
  | .updateCharge supplier port charge => updateCharge c e supplier port charge s
  | .updateDualrole port cap => updateDualrole c port cap s
  | .leaveSafeMode => chargeManagerLeaveSafeMode c s
  | .setCeil port requestor ceil => chargeManagerSetCeil c port requestor ceil s
  | .forceCeil port ceil => chargeManagerForceCeil c port ceil s
  | .setOverride port => (chargeManagerSetOverride c e port s).2
  | .overrideTimeout => { s with delayedOverridePort := none }
  | .setSupplier port supplier => chargeManagerSetSupplier port supplier s

/-- The deferred refresh runs, and its hunt ends after at most `n` iterations. What is asked
after the hunt is answered by `e n`. -/
def Refreshes (c : Config) (e : Nat → Env) (n : Nat) (s s' : St) : Prop :=
  s.refreshDeferred = true ∧
    ∃ r, hunt c e n { s with refreshDeferred := false } = some r ∧ r.finish c (e n) = some s'

inductive Reachable (c : Config) : St → Prop
  | initial (leftSafeMode : Bool) : Reachable c (initial c leftSafeMode)
  | step {s : St} (e : Env) (i : Input c) : Reachable c s → Reachable c (step c e s i)
  | refresh {s s' : St} (e : Nat → Env) (n : Nat) : Reachable c s → Refreshes c e n s s' → Reachable c s'

end ChromeEc.ChargeManager
