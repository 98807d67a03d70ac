import Mathlib.Data.BitVec

/- The alert handler of a Type-C port controller: driver/tcpm/tcpci.c.

  The handler talks to the controller in register accesses, one after the other, and other
  things happen between two of them: the controller sets alerts and receives messages, and
  the PD task takes messages out of the cache. All of that is read off a script, one entry
  before each access. After the script nothing happens any more and no access fails.

  In ALERT the bit RX_STATUS is set as long as there is a message that was not given up; the
  other bits stay set until they are written. Everything that the handler reports, and every
  write to ALERT with what it cleared, is kept in two lists. -/
namespace ChromeEc.Tcpci

/-- The build and the driver's flags for the port. -/
structure Config where
  /-- TCPC_FLAGS_TCPCI_REV2_0 -/
  rev2 : Bool
  /-- CONFIG_USB_PD_DECODE_SOP -/
  decodeSop : Bool
  /-- CONFIG_USB_PD_DUAL_ROLE_AUTO_TOGGLE -/
  dualRoleAutoToggle : Bool
  /-- CONFIG_USB_PD_EVENT_DRIVEN_CC_STATE -/
  eventDrivenCcState : Bool
  /-- TCPC_FLAGS_VSAFE0V -/
  vsafe0v : Bool
  /-- USB_PD_VBUS_DETECT_TCPC -/
  vbusDetectTcpc : Bool
  /-- CONFIG_USB_CHARGER -/
  usbCharger : Bool
  /-- tcpm_tcpc_has_frs_control -/
  frsControl : Bool
  /-- CONFIG_USBC_OCP with TCPC_REG_DEV_CAP_1_VBUS_OCP_REPORTING -/
  ocpReporting : Bool
  faultHandler : Bool
  /-- The driver has get_bist_test_mode. -/
  bistSupport : Bool
  hardResetReinit : Bool

/-! ## Registers -/

abbrev Word := BitVec 16

def alertExtBit : Word := .twoPow 16 14
def alertExtStatus : Word := .twoPow 16 13
def alertRxBufOvf : Word := .twoPow 16 10
def alertFault : Word := .twoPow 16 9
def alertTxSuccess : Word := .twoPow 16 6
def alertTxDiscarded : Word := .twoPow 16 5
def alertTxFailed : Word := .twoPow 16 4
def alertRxHardRst : Word := .twoPow 16 3
def alertRxStatus : Word := .twoPow 16 2
def alertPowerStatus : Word := .twoPow 16 1
def alertCcStatus : Word := .twoPow 16 0
def alertTxComplete : Word := alertTxSuccess ||| alertTxDiscarded ||| alertTxFailed

def has (word bits : Word) : Bool := word &&& bits != 0#16

/-- A bit of a register of up to 16 bits. -/
def bit (value : Nat) (k : Nat) : Bool := value.testBit k

def alertMaskAll : Nat := 0xffff
def powerStatusMaskAll : Nat := 0xff

abbrev Events := BitVec 32

def pdEventCc : Events := .twoPow 32 4
def pdEventTcpcReset : Events := .twoPow 32 5
def pdEventRxHardReset : Events := .twoPow 32 11
def taskEventWake : Events := .twoPow 32 29

inductive TransmitComplete where
  | success
  | discarded
  | failed
  deriving DecidableEq

/-! ## Messages -/

/-- A message in the controller: RX_BYTE_CNT, RX_BUF_FRAME_TYPE, RX_HDR and RX_DATA. -/
structure Message where
  byteCount : UInt8
  frameType : UInt8
  header : Word
  data : List UInt8
  deriving DecidableEq

structure CachedTcpmMessage where
  header : BitVec 32
  payload : List UInt8
  deriving DecidableEq

/-- sizeof(cached_tcpm_message.payload) -/
def payloadSize : Nat := 28

def blank : CachedTcpmMessage := { header := 0, payload := List.replicate payloadSize 0 }

/-- The cache between the interrupt task and the PD task. -/
structure CachedMessages where
  head : BitVec 32
  tail : BitVec 32
  buffer : Nat → CachedTcpmMessage

def cacheDepth : BitVec 32 := 8
def cacheDepthMask : BitVec 32 := cacheDepth - 1

def CachedMessages.slot (counter : BitVec 32) : Nat := (counter &&& cacheDepthMask).toNat

def CachedMessages.full (q : CachedMessages) : Bool := q.head - q.tail == cacheDepth

def CachedMessages.put (q : CachedMessages) (m : CachedTcpmMessage) : CachedMessages :=
  { q with buffer := Function.update q.buffer (CachedMessages.slot q.head) m }

def CachedMessages.publish (q : CachedMessages) : CachedMessages := { q with head := q.head + 1 }

/-- The PD task takes out up to `n` messages. -/
def CachedMessages.consume (q : CachedMessages) (n : Nat) : CachedMessages :=
  { q with tail := q.tail + BitVec.ofNat 32 (min n (q.head - q.tail).toNat) }

/-! ## The world of the handler -/

/-- What happens before a register access, and how the access goes. -/
structure Interference where
  raised : Word
  received : List Message
  dequeued : Nat
  fails : Bool
  /-- What a register reads that is not about alerts and messages. If the access fails it is what
      the variable holds. -/
  value : Nat

def quiet : Interference := { raised := 0, received := [], dequeued := 0, fails := false, value := 0 }

/-- Why the handler writes to ALERT. -/
inductive Cause where
  | read (m : CachedTcpmMessage)
  /-- The attempt to read a message failed. -/
  | unreadable
  | full
  | fault
  | handled (bistMode : Bool)
  deriving DecidableEq

/-- A write to ALERT: the bits that it cleared and the message that it gave up. -/
structure Clear where
  cause : Cause
  bits : Word
  dropped : Option Message
  deriving DecidableEq

/-- What the handler tells the rest of the system. -/
inductive Report where
  | enqueued (m : CachedTcpmMessage)
  | transmitComplete (status : TransmitComplete)
  | overcurrent
  | vbusChange (present : Bool)
  | frsSignal
  | suspend
  | ccOpen
  | setEvent (events : Events)
  deriving DecidableEq

structure World where
  /-- ALERT without RX_STATUS -/
  alert : Word
  /-- The messages that wait in the controller. -/
  rx : List Message
  cache : CachedMessages
  /-- tcpc_vbus: the bits VBUS_PRESENT and VBUS_SAFE0V -/
  vbusPresent : Bool
  vbusSafe0v : Bool
  script : List Interference
  clears : List Clear
  reports : List Report

def World.alertWord (w : World) : Word := if w.rx.isEmpty then w.alert else w.alert ||| alertRxStatus

def World.report (w : World) (r : Report) : World := { w with reports := w.reports ++ [r] }

def nextAccess (w : World) : Interference × World :=
  match w.script with
  | [] => (quiet, w)
  | x :: rest =>
    (x, { w with
      alert := w.alert ||| (x.raised &&& ~~~alertRxStatus)
      rx := w.rx ++ x.received
      cache := w.cache.consume x.dequeued
      script := rest })

/-! ## Register accesses -/

/-- The value of a register other than ALERT and the RX registers. -/
def tcpcRead (w : World) : Bool × Nat × World :=
  let (x, w) := nextAccess w
  (!x.fails, x.value, w)

def tcpcWrite (w : World) : Bool × World :=
  let (x, w) := nextAccess w
  (!x.fails, w)

/-- The RX registers show the first message that waits. -/
def rxRead (w : World) : Bool × Option Message × World :=
  let (x, w) := nextAccess w
  (!x.fails, w.rx.head?, w)

/-- A failed read leaves the variable as it was. -/
def tcpmAlertStatus (alert : Word) (w : World) : Bool × Word × World :=
  let (x, w) := nextAccess w
  (!x.fails, if x.fails then alert else w.alertWord, w)

/-- The bits that are written are cleared. With RX_STATUS the first message is given up. -/
def writeAlert (cause : Cause) (bits : Word) (w : World) : Bool × World :=
  let (x, w) := nextAccess w
  if x.fails then (false, w)
  else if has bits alertRxStatus then
    (true, { w with
      alert := w.alert &&& ~~~bits
      rx := w.rx.tail
      clears := w.clears ++ [{ cause := cause, bits := w.alertWord &&& bits, dropped := w.rx.head? }] })
  else
    (true, { w with
      alert := w.alert &&& ~~~bits
      clears := w.clears ++ [{ cause := cause, bits := w.alertWord &&& bits, dropped := none }] })

/-! ## Messages into the cache -/

/-- The return values that the handler tells apart. -/
inductive Rv where
  | success
  | errorOverflow
  | errorUnknown
  deriving DecidableEq

/-- A message in the cache: the address in bits 31 to 28 of the header, and the data with zeros behind it. -/
def headerSop (frm : UInt8) : BitVec 32 := BitVec.ofNat 32 (frm.toNat % 16) <<< 28

def block (m : Message) (cnt : Nat) : List UInt8 := (m.data ++ List.replicate cnt 0).take cnt

def padded (bytes : List UInt8) : List UInt8 := bytes ++ List.replicate (payloadSize - bytes.length) 0

/-- What a message looks like when all of it was read. -/
def Message.cached (cfg : Config) (m : Message) : CachedTcpmMessage where
  header := m.header.zeroExtend 32 ||| (if cfg.rev2 || cfg.decodeSop then headerSop m.frameType else 0)
  payload := padded (block m (m.byteCount.toNat - 3))

/-- What the RX registers read when no message waits. -/
def noMessage : Message := { byteCount := 0, frameType := 0, header := 0, data := [] }

def World.store (w : World) (slot : CachedTcpmMessage) : World := { w with cache := w.cache.put slot }

/-- The end of get_message_raw: whatever came out, RX_STATUS is cleared. -/
def finishRead (complete : Bool) (rv : Rv) (slot : CachedTcpmMessage) (w : World) : Rv × World :=
  (rv, (writeAlert (if complete then .read slot else .unreadable) alertRxStatus (w.store slot)).2)

/-- The data behind a header that was read. A failed block read is not noticed. -/
def readPayload (header : BitVec 32) (cnt : Nat) (w : World) : Rv × World :=
  if cnt = 0 then finishRead true .success { blank with header := header } w
  else
    let (ok, m, w) := rxRead w
    let payload := if ok then padded (block (m.getD noMessage) cnt) else blank.payload
    finishRead ok .success { header := header, payload := payload } w

def tcpciRev10TcpmGetMessageRaw (cfg : Config) (w : World) : Rv × World :=
  let (ok, m, w) := rxRead w
  let byteCnt := (m.getD noMessage).byteCount.toNat
  if !ok || byteCnt < 3 || payloadSize < byteCnt - 3 then finishRead false .errorUnknown blank w
  else
    let (ok, frm, w) := if cfg.decodeSop then rxRead w else (true, none, w)
    if !ok then finishRead false .errorUnknown blank w
    else
      let sop := if cfg.decodeSop then headerSop (frm.getD noMessage).frameType else 0
      let (ok, hdr, w) := rxRead w
      if !ok then finishRead false .errorUnknown { blank with header := sop } w
      else readPayload ((hdr.getD noMessage).header.zeroExtend 32 ||| sop) (byteCnt - 3) w

/-- The header is read even if the byte count makes no sense, and the data even if the header was not read. -/
def tcpciRev20TcpmGetMessageRaw (w : World) : Rv × World :=
  let (ok, m, w) := rxRead w
  if !ok then finishRead false .errorUnknown blank w
  else
    let byteCnt := (m.getD noMessage).byteCount.toNat
    let sop := headerSop (m.getD noMessage).frameType
    let (ok, hdr, w) := rxRead w
    let header := if ok then (hdr.getD noMessage).header.zeroExtend 32 ||| sop else sop
    if byteCnt < 3 || payloadSize < byteCnt - 3 then finishRead false .errorUnknown { blank with header := header } w
    else if ok then readPayload header (byteCnt - 3) w
    else if byteCnt = 3 then finishRead false .errorUnknown { blank with header := header } w
    else
      let (ok, m, w) := rxRead w
      let payload := if ok then padded (block (m.getD noMessage) (byteCnt - 3)) else blank.payload
      finishRead false .errorUnknown { header := header, payload := payload } w

def tcpciTcpmGetMessageRaw (cfg : Config) (w : World) : Rv × World :=
  if cfg.rev2 then tcpciRev20TcpmGetMessageRaw w else tcpciRev10TcpmGetMessageRaw cfg w

/-- The message in the slot at head is for the PD task. -/
def publishMessage (w : World) : World :=
  let m := w.cache.buffer (CachedMessages.slot w.cache.head)
  ({ w with cache := w.cache.publish }.report (.enqueued m)).report (.setEvent taskEventWake)

def tcpmEnqueueMessage (cfg : Config) (w : World) : Rv × World :=
  if w.cache.full then (.errorOverflow, w)
  else
    let (rv, w) := tcpciTcpmGetMessageRaw cfg (w.store blank)
    if rv ≠ .success then (rv, w) else (.success, publishMessage w)

/-! ## The handler -/

def maxAllowFailedRxReads : Nat := 10

inductive Pulled where
  | finished (alert : Word)
  /-- Too many attempts failed, and the port is suspended for a while. -/
  | suspended

/-- The loop that pulls all messages. In BIST test mode there is nothing to read. -/
def pullMessages (cfg : Config) (bistMode : Bool) : Nat → Nat → Word → World → Option (Pulled × World)
  | 0, _, _, _ => none
  | fuel + 1, failedAttempts, alert, w =>
    if !has alert alertRxStatus || bistMode then some (.finished alert, w)
    else
      let (retval, w) := tcpmEnqueueMessage cfg w
      let failedAttempts := if retval ≠ .success then failedAttempts + 1 else failedAttempts
      let (ok, alert, w) := tcpmAlertStatus alert w
      let failedAttempts := if ok then failedAttempts else failedAttempts + 1
      let w := if retval = .errorOverflow then (writeAlert .full (alertRxStatus ||| alertRxBufOvf) w).2 else w
      if maxAllowFailedRxReads ≤ failedAttempts then some (.suspended, w.report .suspend)
      else pullMessages cfg bistMode fuel failedAttempts alert w

def tcpciHandleFault (cfg : Config) (fault : Nat) (w : World) : Bool × World :=
  let w := if cfg.ocpReporting && bit fault 3 then w.report .overcurrent else w
  if cfg.faultHandler then tcpcWrite w else (true, w)

def tcpciClearFault (w : World) : Bool × World :=
  let (ok, w) := tcpcWrite w
  if ok then writeAlert .fault alertFault w else (false, w)

def clearPendingFaults (cfg : Config) (alert : Word) (w : World) : World :=
  if has alert alertFault then
    let (ok, fault, w) := tcpcRead w
    if ok && fault != 0 then
      let (ok, w) := tcpciHandleFault cfg fault w
      if ok then (tcpciClearFault w).2 else w
    else w
  else w

def txStatus (alert : Word) : TransmitComplete :=
  if has alert alertTxSuccess then .success else if has alert alertTxDiscarded then .discarded else .failed

def pdTransmitComplete (alert : Word) (w : World) : World :=
  if has alert alertTxComplete then w.report (.transmitComplete (txStatus alert)) else w

/-- A failed read leaves what was on the stack. -/
def tcpcGetBistTestMode (cfg : Config) (w : World) : Bool × World :=
  if cfg.bistSupport then
    let (_, val, w) := tcpcRead w
    (bit val 1, w)
  else (false, w)

/-- The voltages on both lines, open if a read fails. -/
def tcpciTcpmGetCc (w : World) : (Nat × Nat) × World :=
  let (ok, role, w) := tcpcRead w
  if !ok then ((0, 0), w)
  else
    let (ok, status, w) := tcpcRead w
    if !ok then ((0, 0), w)
    else
      let present := fun cc roleCc =>
        if cc = 0 then 0
        else if bit role 6 then status / 16 % 2
        else if roleCc = 2 then 1
        else 0
      let cc1 := status % 4
      let cc2 := status / 4 % 4
      ((cc1 + 4 * present cc1 (role % 4), cc2 + 4 * present cc2 (role / 4 % 4)), w)

def checkCc (cfg : Config) (alert : Word) (w : World) : Events × World :=
  if has alert alertCcStatus then
    if cfg.dualRoleAutoToggle && !cfg.eventDrivenCcState then
      let (cc, w) := tcpciTcpmGetCc w
      if cc.1 ≠ 0 ∨ cc.2 ≠ 0 then (pdEventCc, w) else (0, w.report .ccOpen)
    else (pdEventCc, w)
  else (0, w)

def checkSafe0v (cfg : Config) (alert : Word) (w : World) : World :=
  if cfg.vsafe0v && has alert alertExtStatus then
    let (ok, extStatus, w) := tcpcRead w
    if ok && bit extStatus 0 then { w with vbusSafe0v := true, vbusPresent := false } else w
  else w

def tcpciCheckVbusChanged (cfg : Config) (alert : Word) (w : World) : Events × World :=
  let w := checkSafe0v cfg alert w
  if has alert alertPowerStatus then
    let (ok, pwrStatus, w) := tcpcRead w
    let w :=
      if ok && bit pwrStatus 2 then { w with vbusPresent := true, vbusSafe0v := false }
      else if cfg.vsafe0v then { w with vbusPresent := false }
      else { w with vbusSafe0v := true, vbusPresent := false }
    let w := if cfg.vbusDetectTcpc && cfg.usbCharger then w.report (.vbusChange w.vbusPresent) else w
    (if cfg.vbusDetectTcpc then taskEventWake else 0, w)
  else (0, w)

/-- tcpci_hard_reset_reinit writes the masks again. -/
def tcpmHardResetReinit (cfg : Config) (w : World) : World :=
  if cfg.hardResetReinit then
    let w := (tcpcWrite w).2
    let (ok, w) := tcpcWrite w
    if ok && cfg.frsControl then (tcpcWrite w).2 else w
  else w

def checkHardReset (cfg : Config) (alert : Word) (w : World) : Events × World :=
  if has alert alertRxHardRst then (pdEventRxHardReset, tcpmHardResetReinit cfg w) else (0, w)

/-- The masks read as they do after a reset of the controller. -/
def registerMaskReset (w : World) : Bool × World :=
  let (ok, mask, w) := tcpcRead w
  if ok && mask = alertMaskAll then (true, w)
  else
    let (ok, mask, w) := tcpcRead w
    (ok && mask = powerStatusMaskAll, w)

def checkReset (bistMode : Bool) (w : World) : Events × World :=
  if bistMode then (0, w)
  else
    let (reset, w) := registerMaskReset w
    (if reset then pdEventTcpcReset else 0, w)

/-- ALERT_EXTENDED goes first, it keeps its bit in ALERT set. -/
def clearAlerts (bistMode : Bool) (alert : Word) (alertExt : Nat) (w : World) : World :=
  let w := if alertExt ≠ 0 then (tcpcWrite w).2 else w
  if alert ≠ 0 then (writeAlert (.handled bistMode) alert w).2 else w

/-- The events for the PD task are set when the accesses are done. -/
def handleAlerts (cfg : Config) (bistMode : Bool) (alert : Word) (alertExt : Nat) (w : World) : World :=
  let w := clearAlerts bistMode alert alertExt w
  let (cc, w) := checkCc cfg alert w
  let (vbus, w) := tcpciCheckVbusChanged cfg alert w
  let (hardReset, w) := checkHardReset cfg alert w
  let w := if cfg.frsControl && bit alertExt 0 then w.report .frsSignal else w
  let (reset, w) := checkReset bistMode w
  let pdEvent := cc ||| vbus ||| hardReset ||| reset
  if pdEvent ≠ 0 then w.report (.setEvent pdEvent) else w

/-- `fuel` bounds the loop that pulls messages. -/
def tcpciTcpcAlert (cfg : Config) (fuel : Nat) (w : World) : Option World :=
  let (ok, alert, w) := tcpmAlertStatus 0 w
  if !ok then some w
  else
    let (alertExt, w) :=
      if has alert alertExtBit then
        let (ok, value, w) := tcpcRead w
        (if ok then value else 0, w)
      else (0, w)
    let w := pdTransmitComplete alert (clearPendingFaults cfg alert w)
    let (bistMode, w) := tcpcGetBistTestMode cfg w
    match pullMessages cfg bistMode fuel 0 alert w with
    | none => none
    | some (.suspended, w) => some w
    | some (.finished alert, w) => some (handleAlerts cfg bistMode alert alertExt w)

end ChromeEc.Tcpci
