import Mathlib.Logic.Function.Basic

/- The UCSI platform policy manager, subsys/ucsi/ppm_common.c.

  The PPM thread holds ppm_lock except while it waits for the condition variable and while the PD
  driver executes a command. A function that calls the driver is cut there: what comes before the
  call gives the place where the thread is, and what comes after it is a function of what the
  driver returns. The OPM and the drivers' alerts come in between. -/
namespace ChromeEc.Ucsi

inductive PpmState where
  | notReady
  | idle
  | idleNotify
  | processingCommand
  | waitingCcAck
  | waitingAsyncEvAck
  deriving DecidableEq

def PpmState.upToIdleNotify : PpmState → Bool
  | .notReady | .idle | .idleNotify => true
  | _ => false

inductive LastErrorType where
  | lpm
  | ppm
  deriving DecidableEq

def ucsiPpmReset : BitVec 8 := 0x01
def ucsiCancel : BitVec 8 := 0x02
def ucsiAckCcCi : BitVec 8 := 0x04
def ucsiSetNotificationEnable : BitVec 8 := 0x05
def ucsiGetErrorStatus : BitVec 8 := 0x13
def ucsiSetSinkPath : BitVec 8 := 0x1c
def ucsiCmdMax : BitVec 8 := 0x23

structure Control where
  command : BitVec 8
  commandSpecific : BitVec 48
  deriving DecidableEq

/-- What memset leaves. -/
def Control.zero : Control := ⟨0, 0⟩

def Control.connectorChangeAck (c : Control) : Bool := c.commandSpecific.getLsbD 0

def Control.commandCompleteAck (c : Control) : Bool := c.commandSpecific.getLsbD 1

/-- The bits of union cci_event_t that are set here. -/
structure Cci where
  connectorChange : Nat
  dataLen : Nat
  notSupported : Bool
  cancelCompleted : Bool
  resetCompleted : Bool
  busy : Bool
  acknowledgeCommand : Bool
  error : Bool
  commandCompleted : Bool
  deriving DecidableEq

def Cci.zero : Cci := ⟨0, 0, false, false, false, false, false, false, false⟩

/-- The bits of union error_status_t that are set here. -/
structure ErrorStatus where
  unrecognizedCommand : Bool
  nonExistentConnectorNumber : Bool
  invalidCommandSpecificParam : Bool
  ppmPolicyConflict : Bool
  setSinkPathRejected : Bool
  deriving DecidableEq

def ErrorStatus.zero : ErrorStatus := ⟨false, false, false, false, false⟩

inductive Errno where
  | notsup
  | busy
  | timedout
  | range
  | inval
  | other
  deriving DecidableEq

abbrev DriverResult := Except Errno Nat

/-- struct ucsi_ppm_device. A port's status is its change bits. -/
structure Device where
  ppmState : PpmState
  asyncEvent : Bool
  command : Bool
  perPortStatus : Nat → BitVec 16
  lastConnectorChanged : Nat
  alertedConnectorsMap : BitVec 8
  cci : Cci
  control : Control
  lastError : LastErrorType
  ppmErrorResult : ErrorStatus
  changeMask : BitVec 16
  /-- A callback is registered. -/
  opmNotify : Bool
  /-- The CCI at every call of the callback -/
  notified : List Cci
  /-- The ports that ppm_common_handle_async_event has notified the OPM of -/
  reported : List Nat

def clearCciExceptConnector (dev : Device) : Device :=
  { dev with cci := { Cci.zero with connectorChange := dev.lastConnectorChanged % 128 } }

def clearLastError (dev : Device) : Device := { dev with lastError := .lpm, ppmErrorResult := .zero }

def setCciBusy (dev : Device) : Device := { dev with cci := { Cci.zero with busy := true } }

def setCciError (dev : Device) : Device :=
  let dev := clearCciExceptConnector dev
  { dev with cci := { dev.cci with error := true, commandCompleted := true } }

def setCciNotSupported (dev : Device) : Device :=
  let dev := clearCciExceptConnector dev
  { dev with cci := { dev.cci with notSupported := true, commandCompleted := true } }

def setAcknowledged (dev : Device) : Device :=
  let dev := clearCciExceptConnector dev
  { dev with cci := { dev.cci with acknowledgeCommand := true } }

def ppmCommonOpmNotify (dev : Device) : Device :=
  if dev.opmNotify then { dev with notified := dev.notified ++ [dev.cci] } else dev

def matchPendingCommand (dev : Device) (command : BitVec 8) : Bool := dev.command && dev.control.command == command

def clearPendingCommand (dev : Device) : Device := { dev with command := false }

def connStatusMaskFromNotification (notify : BitVec 32) : BitVec 16 :=
  (notify &&& 0xDBEE#32).setWidth 16 ||| (if notify.getLsbD 16 then 1#16 <<< 13 else 0)

/-! ## Asynchronous events -/

/-- The place of the lowest bit, from 1, or 0. -/
def findLsbSet (map : BitVec 8) : Nat := ((List.range 8).find? (map.getLsbD ·)).elim 0 (· + 1)

def clearAsyncEvent (dev : Device) : Device := { dev with asyncEvent := false }

def changed (dev : Device) (port : Nat) : Bool := dev.changeMask &&& dev.perPortStatus port != 0

def setConnectorChange (dev : Device) (port : Nat) : Device :=
  { dev with
    lastConnectorChanged := port + 1
    cci := { dev.cci with connectorChange := (port + 1) % 128 }
    reported := dev.reported ++ [port] }

def notifyConnector (dev : Device) (port : Nat) : Device :=
  { ppmCommonOpmNotify (setConnectorChange dev port) with ppmState := .waitingAsyncEvAck }

/-- The port that ppm_common_handle_async_event tells the OPM of. `alertPort` is the one that it has just
    read if the OPM has yet to acknowledge it. -/
def portToAlert (numPorts : Nat) (dev : Device) (alertPort : Option Nat) : Option Nat :=
  if dev.lastConnectorChanged = 0 then (List.range numPorts).find? (changed dev) else alertPort

/-- ppm_common_handle_async_event from where it looks for a change. -/
def finishAsyncEvent (numPorts : Nat) (dev : Device) (alertPort : Option Nat) : Device :=
  match portToAlert numPorts dev alertPort with
  | some port => clearAsyncEvent (notifyConnector dev port)
  | none => clearAsyncEvent dev

def statusWritten (dev : Device) (port : Nat) (status : BitVec 16) : Device :=
  { dev with perPortStatus := Function.update dev.perPortStatus port status }

def clearAlert (dev : Device) (port : Nat) : Device :=
  { dev with alertedConnectorsMap := dev.alertedConnectorsMap &&& ~~~(1#8 <<< port) }

/-- ppm_common_handle_async_event after the driver call. -/
def statusRead (numPorts : Nat) (dev : Device) (port : Nat) (status : BitVec 16) : Device :=
  let alertPort := if port + 1 = dev.lastConnectorChanged then some port else none
  finishAsyncEvent numPorts (clearAlert (statusWritten dev port status) port) alertPort

inductive Pc where
  /-- The driver executes the PPM_RESET of ppm_common_task. -/
  | starting
  /-- At the start of ppm_common_taskloop, with the lock -/
  | loop
  /-- In k_condvar_wait -/
  | waiting
  | woken
  /-- The driver reads the status of a port for ppm_common_handle_async_event. -/
  | readStatus (port : Nat)
  /-- The driver executes a command. `acking` is whether the thread waited for an acknowledgement. -/
  | executing (command : BitVec 8) (ackCi : Bool) (acking : Bool)
  deriving DecidableEq

def handleAsyncEvent (numPorts : Nat) (dev : Device) : Device × Pc :=
  if !dev.asyncEvent then (dev, .loop)
  else if dev.ppmState = .notReady ∨ dev.ppmState = .idle then (clearAsyncEvent dev, .loop)
  else if dev.alertedConnectorsMap ≠ 0 then
    let port := findLsbSet dev.alertedConnectorsMap - 1
    (statusWritten dev port 0, .readStatus port)
  else (finishAsyncEvent numPorts dev none, .loop)

/-! ## Commands -/

def ppmCommonResetData (dev : Device) : Device :=
  { clearLastError dev with
    lastConnectorChanged := 0
    alertedConnectorsMap := 0
    changeMask := 0
    asyncEvent := false
    command := false
    perPortStatus := fun _ => 0 }

/-- What an acknowledgement of a connector change does. The asynchronous event looks for the next change. -/
def connectorAcknowledged (dev : Device) : Device :=
  { dev with
    perPortStatus := Function.update dev.perPortStatus (dev.lastConnectorChanged - 1) 0
    lastConnectorChanged := 0
    asyncEvent := true }

def completedCci (dev : Device) (ucsiCommand : BitVec 8) (ret : Int) : Cci :=
  let cci := (clearCciExceptConnector dev).cci
  if ucsiCommand = ucsiPpmReset then { cci with resetCompleted := true }
  else if dev.control.command = ucsiCancel then { cci with commandCompleted := true, cancelCompleted := true }
  else { cci with dataLen := (ret % 256).toNat, commandCompleted := true }

/-- The end of ppm_common_execute_pending_cmd for a command that succeeds. -/
def succeed (dev : Device) (ucsiCommand : BitVec 8) (ackCi : Bool) (ret : Int) : Device :=
  let dev := if ackCi then connectorAcknowledged dev else dev
  { dev with cci := completedCci dev ucsiCommand ret }

/-- The errors of the driver that the PPM reports itself. -/
def errorStatus (ucsiCommand : BitVec 8) : Errno → Option ErrorStatus
  | .notsup => some { ErrorStatus.zero with unrecognizedCommand := true }
  | .busy | .timedout => some { ErrorStatus.zero with ppmPolicyConflict := true }
  | .range => some { ErrorStatus.zero with nonExistentConnectorNumber := true }
  | .inval =>
    if ucsiCommand = ucsiSetSinkPath then some { ErrorStatus.zero with setSinkPathRejected := true }
    else some { ErrorStatus.zero with invalidCommandSpecificParam := true }
  | .other => none

inductive Execution where
  | done (ok : Bool) (dev : Device)
  | call (ackCi : Bool)

/-- ppm_common_execute_pending_cmd up to the driver call. -/
def executePendingCmd (dev : Device) : Execution :=
  let ucsiCommand := dev.control.command
  if ucsiCommand = 0 ∨ ucsiCmdMax ≤ ucsiCommand then .done false (setCciNotSupported dev)
  else if ucsiCommand = ucsiAckCcCi then .call dev.control.connectorChangeAck
  else if ucsiCommand = ucsiGetErrorStatus ∧ dev.lastError = .ppm then .done true (succeed dev ucsiCommand false 4)
  else if ucsiCommand = ucsiPpmReset then .done true (succeed (ppmCommonResetData dev) ucsiCommand false 0)
  else if ucsiCommand = ucsiSetNotificationEnable then
    let notify := dev.control.commandSpecific.setWidth 32
    .done true (succeed { dev with changeMask := connStatusMaskFromNotification notify } ucsiCommand false 0)
  else if ucsiCommand = ucsiCancel then .done true (succeed dev ucsiCommand false (-1))
  else .call false

/-- ppm_common_execute_pending_cmd after the driver call. -/
def executed (dev : Device) (ucsiCommand : BitVec 8) (ackCi : Bool) (r : DriverResult) : Bool × Device :=
  let dev := { dev with control := .zero }
  match r with
  | .ok ret => (true, succeed dev ucsiCommand ackCi ret)
  | .error e =>
    match errorStatus ucsiCommand e with
    | some status => (false, setCciError { clearLastError dev with lastError := .ppm, ppmErrorResult := status })
    | none => (false, setCciError (clearLastError dev))

/-- ppm_common_handle_pending_command after ppm_common_execute_pending_cmd, processing a command. -/
def completeProcessing (dev : Device) (nextCommand : BitVec 8) (ok : Bool) : Device :=
  if !ok then ppmCommonOpmNotify { dev with ppmState := .waitingCcAck }
  else if nextCommand = ucsiPpmReset then ppmCommonOpmNotify (clearLastError { dev with ppmState := .idle })
  else if nextCommand = ucsiAckCcCi then ppmCommonOpmNotify (setAcknowledged { dev with ppmState := .idleNotify })
  else ppmCommonOpmNotify { dev with ppmState := .waitingCcAck }

/-- The same where an acknowledgement was awaited. -/
def completeAck (dev : Device) (nextCommand : BitVec 8) (ok : Bool) : Device :=
  if ok && nextCommand == ucsiPpmReset then ppmCommonOpmNotify { dev with ppmState := .idle }
  else if ok then ppmCommonOpmNotify (setAcknowledged { dev with ppmState := .idleNotify })
  else ppmCommonOpmNotify dev

/-- The pending command is cleared unless it is still processed. -/
def clearProcessed (dev : Device) : Device :=
  if dev.ppmState ≠ .processingCommand then clearPendingCommand dev else dev

/-- ppm_common_handle_pending_command after ppm_common_execute_pending_cmd. -/
def complete (dev : Device) (nextCommand : BitVec 8) (acking ok : Bool) : Device :=
  clearProcessed (if acking then completeAck dev nextCommand ok else completeProcessing dev nextCommand ok)

def execute (dev : Device) (acking : Bool) : Device × Pc :=
  match executePendingCmd dev with
  | .done ok dev' => (complete dev' dev.control.command acking ok, .loop)
  | .call ackCi => (dev, .executing dev.control.command ackCi acking)

def handlePendingCommand (dev : Device) : Device × Pc :=
  if !dev.command then (dev, .loop)
  else
    match dev.ppmState with
    | .idle | .idleNotify => execute (setCciBusy { dev with ppmState := .processingCommand }) false
    | .processingCommand => execute dev false
    | .waitingCcAck | .waitingAsyncEvAck => execute dev true
    | .notReady => (clearPendingCommand dev, .loop)

def isInvalidAck (dev : Device) : Bool :=
  let ack := dev.control
  !((ack.commandCompleteAck || ack.connectorChangeAck) &&
    (if ack.connectorChangeAck then dev.lastConnectorChanged != 0 else true) &&
    (if ack.commandCompleteAck then dev.ppmState == .waitingCcAck else true))

def invalidAckNotify (dev : Device) : Device :=
  let result := { ErrorStatus.zero with invalidCommandSpecificParam := true }
  let dev := { clearLastError dev with lastError := .ppm, ppmErrorResult := result }
  ppmCommonOpmNotify (clearPendingCommand (setCciError dev))

/-! ## The PPM thread -/

/-- ppm_common_taskloop waits for the condition variable. -/
def mustWait (dev : Device) : Bool :=
  dev.ppmState != .processingCommand && !dev.command && !(dev.ppmState.upToIdleNotify && dev.asyncEvent)

/-- ppm_common_taskloop after it has waited. -/
def taskloop (numPorts : Nat) (dev : Device) : Device × Pc :=
  let isPpmReset := matchPendingCommand dev ucsiPpmReset
  match dev.ppmState with
  | .notReady => (dev, .loop)
  | .idle =>
    if dev.command then
      if matchPendingCommand dev ucsiSetNotificationEnable || isPpmReset then handlePendingCommand dev
      else (clearPendingCommand dev, .loop)
    else if dev.asyncEvent then handleAsyncEvent numPorts dev
    else (dev, .loop)
  | .idleNotify =>
    if matchPendingCommand dev ucsiAckCcCi && isInvalidAck dev then (invalidAckNotify dev, .loop)
    else if dev.command then handlePendingCommand dev
    else if dev.asyncEvent then handleAsyncEvent numPorts dev
    else (dev, .loop)
  | .processingCommand => handlePendingCommand dev
  | .waitingCcAck =>
    if dev.command then
      if !isPpmReset && (!matchPendingCommand dev ucsiAckCcCi || isInvalidAck dev) then (invalidAckNotify dev, .loop)
      else handlePendingCommand dev
    else (dev, .loop)
  | .waitingAsyncEvAck =>
    if dev.command then
      let isAck := matchPendingCommand dev ucsiAckCcCi
      if !isPpmReset && isAck && isInvalidAck dev then (invalidAckNotify dev, .loop)
      else handlePendingCommand (if isAck then dev else { dev with ppmState := .idleNotify })
    else (dev, .loop)

/-- ppm_common_task after its driver call. -/
def started (dev : Device) (r : DriverResult) : Device :=
  match r with
  | .ok _ => { dev with ppmState := .idle, cci := .zero }
  | .error _ => dev

/-! ## The other contexts -/

/-- ucsi_ppm_lpm_alert for a connector that there is -/
def lpmAlert (dev : Device) (lpmId : Nat) : Device :=
  { dev with asyncEvent := true, alertedConnectorsMap := dev.alertedConnectorsMap ||| (1#8 <<< (lpmId - 1)) }

structure State where
  dev : Device
  pc : Pc
  /-- The control message that ppm_common_handle_control_message has checked and is about to write. -/
  opm : Option Control

def start : State where
  dev :=
    { ppmState := .notReady, asyncEvent := false, command := false, perPortStatus := fun _ => 0, lastConnectorChanged := 0,
      alertedConnectorsMap := 0, cci := .zero, control := ⟨ucsiPpmReset, 0⟩, lastError := .lpm, ppmErrorResult := .zero,
      changeMask := 0, opmNotify := false, notified := [], reported := [] }
  pc := .starting
  opm := none

/-- Nobody holds ppm_lock. -/
def Pc.unlocked (pc : Pc) : Bool := pc != .loop

/-- k_condvar_signal -/
def Pc.signal : Pc → Pc
  | .waiting => .woken
  | pc => pc

inductive Action where
  | run
  | driverReturn (r : DriverResult) (status : BitVec 16)
  | lpmAlert (lpmId : Nat)
  /-- ppm_common_handle_control_message checks a message. -/
  | check (c : Control)
  /-- ppm_common_handle_control_message writes the message. -/
  | write
  | registerNotify

def step (numPorts : Nat) (a : Action) (s : State) : Option State :=
  match a with
  | .run =>
    match s.pc with
    | .loop =>
      if mustWait s.dev then some { s with pc := .waiting }
      else some ⟨(taskloop numPorts s.dev).1, (taskloop numPorts s.dev).2, s.opm⟩
    | .woken => some ⟨(taskloop numPorts s.dev).1, (taskloop numPorts s.dev).2, s.opm⟩
    | _ => none
  | .driverReturn r status =>
    match s.pc with
    | .starting => some { s with dev := started s.dev r, pc := .loop }
    | .readStatus port => some { s with dev := statusRead numPorts s.dev port status, pc := .loop }
    | .executing command ackCi acking =>
      let (ok, dev) := executed s.dev command ackCi r
      some { s with dev := complete dev command acking ok, pc := .loop }
    | _ => none
  | .lpmAlert lpmId =>
    if s.pc.unlocked then
      if lpmId ≠ 0 ∧ lpmId ≤ numPorts then some { s with dev := lpmAlert s.dev lpmId, pc := s.pc.signal }
      else some s
    else none
  | .check c =>
    if s.pc.unlocked ∧ s.opm = none then
      let busy := s.dev.command || s.dev.cci.busy
      if busy ≠ (c.command == ucsiCancel) then some s else some { s with opm := some c }
    else none
  | .write =>
    match s.opm with
    | some c =>
      if s.pc.unlocked then
        some { dev := { s.dev with control := c, command := true }, pc := s.pc.signal, opm := none }
      else none
    | none => none
  | .registerNotify => some { s with dev := { s.dev with opmNotify := true } }

end ChromeEc.Ucsi
