import Mathlib.Data.BitVec

/- The software ramp of the input current limit: `common/charge_ramp_sw.c`.

  The ramp task takes one statement at a time, and `Pc` is the statement that is next: a
  supplier may change between any two of them. What a board answers about VBUS and about the
  current drawn, and the time, come with each step. A port that is not one has cells of
  `oc_info` of its own here, which the array does not have.

  Correspondence (C ↔ Lean):
    `enum chg_ramp_state`, `struct oc_info` ↔ `ChgRampState`, `OcInfo`
    `oc_info`, `oc_info_idx`, `active_port`,
    `active_sup`, `active_icl`, `active_vtg`,
    `reg_time`, `stablize_port`,
    `stablize_sup`, `max_icl`, `min_icl`,
    `ramp_st` ↔ the first fields of `St`
    the variables of `chg_ramp_task` ↔ its last fields
    `ACTIVE_OC_INFO` ↔ `St.activeOcInfo`
    `chg_ramp_charge_supplier_change` ↔ `chgRampChargeSupplierChange`
    `chg_ramp_get_current_limit` ↔ `chgRampGetCurrentLimit`
    `chg_ramp_task` ↔ `chgRampTask` (one statement)
    `board_set_charge_limit` ↔ the statement `apply`
  How long the task waits, prints, logs and events to the host are left out. -/
namespace ChromeEc.ChargeRamp

abbrev Time := BitVec 64

abbrev second : Nat := 1000000
abbrev msec : Nat := 1000

def ocRecoverMaxTime : Time := BitVec.ofNat 64 second
def rampCurrIncrMa : Int := 64
def rampCurrStartMa : Int := 500
def rampIclBackoff : Int := 2 * rampCurrIncrMa
def chargeDetectDelay : Time := BitVec.ofNat 64 (2 * second)

def chargePortNone : Int := -1
def chargeSupplierNone : Int := -1

inductive ChgRampState where
  | disconnected
  | chargeDetectDelay
  | overcurrentDetect
  | ramp
  | stabilize
  | stable
  deriving DecidableEq

structure OcInfo where
  ts : Time
  ocDetected : Bool
  sup : Int
  icl : Int

structure Board where
  chgRampAllowed : Int → Int → Bool
  chgRampMax : Int → Int → Int → Int

/-- The statements of the task, in its order. -/
inductive Pc where
  /-- Asleep until a supplier changes for the first time. -/
  | asleep
  | copySt
  | copyIcl
  | switch
  | detectDelay
  | setLastPort
  | checkRegTime
  | setDetected
  | clearDetected (i : Fin 3)
  | setEndTime
  | checkEndTime
  | overcurrentDetect
  | skipRamp
  | checkDrawing
  | compareOc (i : Fin 3)
  | takeThreshold
  | startRamp
  | ramp
  | checkSagging
  | backOff
  | setStablizePort
  | setStablizeSup
  | checkMax
  | checkIncrement
  | setMax
  | increment
  | stabilize
  | restart
  | stable
  | monitor
  | lowerMax
  | reRamp
  | savePrev
  | storeSt
  | storeIcl
  | checkStable
  | getLimit
  | apply
  deriving DecidableEq

structure St where
  rampSt : ChgRampState
  ocInfo : Int → Fin 3 → OcInfo
  ocInfoIdx : Int → Fin 3
  activePort : Int
  activeSup : Int
  activeIcl : Int
  activeVtg : Int
  regTime : Time
  stablizePort : Int
  stablizeSup : Int
  maxIcl : Int
  minIcl : Int
  pc : Pc
  rampStPrev : ChgRampState
  rampStNew : ChgRampState
  activeIclNew : Int
  lastActivePort : Int
  detectEndTimeUs : Time
  lim : Int

/-- The suppliers of the first events are cleared before the task sleeps. -/
def St.initial : St where
  rampSt := .disconnected
  ocInfo _ i := ⟨0, false, if i = 0 then chargeSupplierNone else 0, 0⟩
  ocInfoIdx _ := 0
  activePort := chargePortNone
  activeSup := 0
  activeIcl := 0
  activeVtg := 0
  regTime := 0
  stablizePort := 0
  stablizeSup := 0
  maxIcl := 0
  minIcl := 0
  pc := .asleep
  rampStPrev := .disconnected
  rampStNew := .disconnected
  activeIclNew := 0
  lastActivePort := chargePortNone
  detectEndTimeUs := 0
  lim := 0

def St.activeOcInfo (s : St) : OcInfo := s.ocInfo s.activePort (s.ocInfoIdx s.activePort)

def St.setOcInfo (s : St) (port : Int) (i : Fin 3) (f : OcInfo → OcInfo) : St :=
  { s with ocInfo := fun p j => if p = port ∧ j = i then f (s.ocInfo p j) else s.ocInfo p j }

/-! ## Suppliers -/

structure Change where
  port : Int
  supplier : Int
  current : Int
  registrationTime : Time
  voltage : Int

/-- The last port may have had an over-current. -/
def noteOc (now : Time) (s : St) : St :=
  let s := { s with ocInfoIdx := fun p => if p = s.activePort then
    (if s.ocInfoIdx p = 2 then 0 else s.ocInfoIdx p + 1) else s.ocInfoIdx p }
  s.setOcInfo s.activePort (s.ocInfoIdx s.activePort) fun oc =>
    { oc with ts := now, sup := s.activeSup, icl := s.activeIcl }

def setSupplier (b : Board) (c : Change) (s : St) : St :=
  let s := { s with activePort := c.port, activeSup := c.supplier, activeVtg := c.voltage }
  let s :=
    if b.chgRampAllowed s.activePort s.activeSup then
      { s with minIcl := rampCurrStartMa, maxIcl := b.chgRampMax s.activePort s.activeSup c.current }
    else { s with minIcl := c.current, maxIcl := c.current }
  { s with regTime := c.registrationTime }

/-- The ramp starts over, and the task wakes up. -/
def resetRamp (s : St) : St :=
  if s.rampSt ≠ .stabilize then
    { s with
      rampSt := if s.activePort = chargePortNone then .disconnected else .chargeDetectDelay
      pc := if s.pc = .asleep then .copySt else s.pc }
  else s

def chgRampChargeSupplierChange (b : Board) (c : Change) (now : Time) (s : St) : St :=
  let s := if s.activePort ≠ chargePortNone ∧ c.port ≠ s.activePort then noteOc now s else s
  resetRamp (setSupplier b c s)

/-! ## The task -/

/-- The active limit is used when ramping or stable. -/
def ChgRampState.Ramped : ChgRampState → Prop
  | .ramp => True
  | .stabilize => True
  | .stable => True
  | _ => False

instance : DecidablePred ChgRampState.Ramped
  | .disconnected => isFalse not_false
  | .chargeDetectDelay => isFalse not_false
  | .overcurrentDetect => isFalse not_false
  | .ramp => isTrue trivial
  | .stabilize => isTrue trivial
  | .stable => isTrue trivial

def chgRampGetCurrentLimit (s : St) : Int := if s.rampSt.Ramped then s.activeIcl else s.minIcl

structure Env where
  now : Time
  consumingFullInputCurrent : Bool
  vbusTooLow : Bool

def ChgRampState.start : ChgRampState → Pc
  | .disconnected => .savePrev
  | .chargeDetectDelay => .detectDelay
  | .overcurrentDetect => .overcurrentDetect
  | .ramp => .ramp
  | .stabilize => .stabilize
  | .stable => .stable

def chgRampTask (b : Board) (env : Env) (s : St) : Option St :=
  match s.pc with
  | .asleep => none
  | .copySt => some { s with rampStNew := s.rampSt, pc := .copyIcl }
  | .copyIcl => some { s with activeIclNew := s.activeIcl, pc := .switch }
  | .switch => some { s with pc := s.rampSt.start }
  -- on entry to the state, or if the port changes
  | .detectDelay =>
    some { s with pc := if s.rampStPrev ≠ s.rampSt ∨ s.activePort ≠ s.lastActivePort then .setLastPort else .checkEndTime }
  | .setLastPort => some { s with lastActivePort := s.activePort, pc := .checkRegTime }
  | .checkRegTime =>
    some { s with pc := if s.regTime < s.activeOcInfo.ts + ocRecoverMaxTime then .setDetected else .clearDetected 0 }
  | .setDetected =>
    some { s.setOcInfo s.activePort (s.ocInfoIdx s.activePort) fun oc => { oc with ocDetected := true } with
      pc := .setEndTime }
  | .clearDetected i =>
    some { s.setOcInfo s.activePort i fun oc => { oc with ocDetected := false } with
      pc := if i = 2 then .setEndTime else .clearDetected (i + 1) }
  | .setEndTime => some { s with detectEndTimeUs := env.now + ChargeRamp.chargeDetectDelay, pc := .savePrev }
  | .checkEndTime =>
    if env.now < s.detectEndTimeUs then some { s with pc := .savePrev }
    else some { s with rampStNew := .overcurrentDetect, pc := .overcurrentDetect }
  | .overcurrentDetect =>
    some { s with pc := if b.chgRampAllowed s.activePort s.activeSup then .checkDrawing else .skipRamp }
  | .skipRamp => some { s with activeIclNew := s.minIcl, rampStNew := .stable, pc := .savePrev }
  | .checkDrawing => some { s with pc := if env.consumingFullInputCurrent then .compareOc 0 else .savePrev }
  | .compareOc i =>
    let oc := s.ocInfo s.activePort i
    some { s with pc :=
      if oc.sup ≠ s.activeSup ∨ oc.ocDetected = false then .startRamp
      else if i = 2 then .takeThreshold else .compareOc (i + 1) }
  | .takeThreshold =>
    some { s with activeIclNew := s.activeOcInfo.icl - rampIclBackoff, rampStNew := .stable, pc := .savePrev }
  | .startRamp => some { s with activeIclNew := s.minIcl, rampStNew := .ramp, pc := .savePrev }
  | .ramp => some { s with pc := if env.consumingFullInputCurrent then .checkSagging else .savePrev }
  | .checkSagging => some { s with pc := if env.vbusTooLow then .backOff else .checkMax }
  | .backOff =>
    some { s with
      activeIclNew := max s.minIcl (s.activeIcl - rampIclBackoff), rampStNew := .stabilize, pc := .setStablizePort }
  | .setStablizePort => some { s with stablizePort := s.activePort, pc := .setStablizeSup }
  | .setStablizeSup => some { s with stablizeSup := s.activeSup, pc := .savePrev }
  | .checkMax =>
    if s.activeIcl = s.maxIcl then some { s with rampStNew := .stable, pc := .savePrev }
    else some { s with pc := .checkIncrement }
  | .checkIncrement => some { s with pc := if s.activeIcl + rampCurrIncrMa > s.maxIcl then .setMax else .increment }
  | .setMax => some { s with activeIclNew := s.maxIcl, pc := .savePrev }
  | .increment => some { s with activeIclNew := s.activeIcl + rampCurrIncrMa, pc := .savePrev }
  | .stabilize =>
    if s.activePort = s.stablizePort ∧ s.activeSup = s.stablizeSup then
      some { s with rampStNew := .stable, pc := .savePrev }
    else some { s with pc := .restart }
  | .restart =>
    some { s with
      rampStNew := if s.activePort = chargePortNone then .disconnected else .chargeDetectDelay, pc := .savePrev }
  | .stable => some { s with pc := if b.chgRampAllowed s.activePort s.activeSup then .monitor else .savePrev }
  | .monitor => some { s with pc := if env.vbusTooLow then .lowerMax else .savePrev }
  | .lowerMax => some { s with maxIcl := max s.minIcl (s.maxIcl - rampIclBackoff), pc := .reRamp }
  | .reRamp => some { s with activeIclNew := s.minIcl, rampStNew := .ramp, pc := .savePrev }
  | .savePrev => some { s with rampStPrev := s.rampSt, pc := .storeSt }
  | .storeSt => some { s with rampSt := s.rampStNew, pc := .storeIcl }
  | .storeIcl => some { s with activeIcl := s.activeIclNew, pc := .checkStable }
  -- a limit that is stable twice in a row is not set again
  | .checkStable => some { s with pc := if s.rampStPrev ≠ .stable ∨ s.rampSt ≠ .stable then .getLimit else .copySt }
  | .getLimit => some { s with lim := chgRampGetCurrentLimit s, pc := .apply }
  | .apply => some { s with pc := .copySt }

/-! ## Steps in any order -/

inductive Call where
  | change (c : Change) (now : Time)
  | task (env : Env)

def step (b : Board) : Call → St → Option St
  | .change c now, s => some (chgRampChargeSupplierChange b c now s)
  | .task env, s => chgRampTask b env s

end ChromeEc.ChargeRamp
