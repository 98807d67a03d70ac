import ChromeEc.OneWireUart.Wire
import Mathlib.Data.BitVec

/- Two endpoints of the one-wire link: `zephyr/drivers/one_wire_uart/one_wire_uart.c`.

  The endpoints have the ids 0 and 1, here `false` and `true`. Between them frames keep their
  order and may get lost at any time; a frame that arrives damaged is one that got lost, so is
  one that was cut because `tx_ring_buf` had no room for all of it, and one that comes to an
  endpoint that is not enabled. A frame is on the wire once its last byte has left
  `tx_ring_buf`, and it arrives as a whole. What an endpoint hears of itself is not for it
  (`rxFifo_own`).

  Each call is a step: a round of the loop of `process_packet`, an interrupt that loads the
  next message, one that sends it, one that receives. `recovery` says that
  `start_error_recovery` is to be called. `ackNo` is the number of the message whose
  acknowledgement set `ack`, and a side has lists of what was queued, of what was given up as
  acknowledged and of what its callback got: the code has none of these.

  Correspondence (C ↔ Lean):
    `struct one_wire_uart_data` ↔ `Data`
    `k_msgq_put`, `one_wire_uart_send`, `one_wire_uart_send_reset`, `gen_ack_response`, `load_next_message`,
      `load_rx_fifo`, `one_wire_uart_reset`, `one_wire_uart_enable`, `one_wire_uart_disable` ↔ the same in
      camelCase
    `process_packet` ↔ `processPacket` (one round)
    `process_rx_fifo` ↔ `processRxFifo`, `rxMessage`
  Calls that wake the transmitter, prints and the wrap of `msg_id` after 2^31 messages without
  a reset are left out. -/
namespace ChromeEc.OneWireUart

abbrev Time := BitVec 64

def queueSize : Nat := 32
def rxRingSize : Nat := 128
def retryInterval : BitVec 32 := 2500
def maxRetry : Nat := 100

structure Data where
  msgReceivedCb : Bool
  msgId : Nat
  lastReceivedMsgId : Int
  txRingBuf : List Message
  rxRingBuf : List UInt8
  txQueue : List Message
  rxQueue : List Message
  ack : Int
  ackNo : Option Nat
  resendCache : Message
  msgPending : Bool
  lastSendTime : Time
  retryCount : Nat
  enabled : Bool
  recovery : Bool

inductive Ret where
  | zero
  | eshutdown
  | einval
  | enomsg
  deriving DecidableEq

def kMsgqPut (msg : Message) (queue : List Message) : Option (List Message) :=
  if queue.length < queueSize then some (queue ++ [msg]) else none

/-! ## Sending -/

/-- The message that `one_wire_uart_send` builds. -/
def dataMessage (id : Bool) (no : Nat) (cmd : UInt8) (payload : List UInt8) (d : Data) : Message :=
  { no := no, sender := id, reset := false, ack := false, msgId := d.msgId % 32, payload := cmd :: payload }

/-- The number is used up whether or not there is room for the message. -/
def oneWireUartSend (id : Bool) (no : Nat) (cmd : UInt8) (payload : List UInt8) (d : Data) : Ret × Data :=
  if d.enabled = false then (.eshutdown, d)
  else if maxPayloadSize < payload.length then (.einval, d)
  else
    match kMsgqPut (dataMessage id no cmd payload d) d.txQueue with
    | some queue => (.zero, { d with msgId := d.msgId + 1, txQueue := queue })
    | none => (.enomsg, { d with msgId := d.msgId + 1 })

def resetMessage (id : Bool) (no : Nat) : Message :=
  { no := no, sender := id, reset := true, ack := false, msgId := 0, payload := [] }

/-- The messages that were queued come first. -/
def oneWireUartSendReset (id : Bool) (no : Nat) (d : Data) : List Message × Data :=
  if d.enabled = false then ([], d)
  else
    match kMsgqPut (resetMessage id no) d.txQueue with
    | some queue => ([resetMessage id no], { d with txQueue := queue })
    | none => ([], d)

def oneWireUartReset (d : Data) : Data :=
  { d with
    lastReceivedMsgId := -1, ack := -1, ackNo := none, msgPending := false, msgId := 0
    txQueue := [], rxQueue := [], txRingBuf := [], rxRingBuf := [] }

/-- The message under way has been acknowledged. -/
def Acked (d : Data) : Prop := d.txRingBuf = [] ∧ d.msgPending = true ∧ d.ack = d.resendCache.msgId

instance {d : Data} : Decidable (Acked d) := inferInstanceAs (Decidable (_ ∧ _ ∧ _))

def takeAck (d : Data) : Data :=
  if d.msgPending = true ∧ d.ack = d.resendCache.msgId then { d with ack := -1, ackNo := none, msgPending := false } else d

def takeNext (d : Data) : Data :=
  if d.msgPending = true then d
  else
    match d.txQueue with
    | [] => { d with retryCount := 0 }
    | msg :: queue => { d with resendCache := msg, msgPending := true, txQueue := queue, retryCount := 0 }

def canSend (now : Time) (d : Data) : Prop := d.retryCount = 0 ∨ retryInterval ≤ (now - d.lastSendTime).setWidth 32

instance {now : Time} {d : Data} : Decidable (canSend now d) := inferInstanceAs (Decidable (_ ∨ _))

def sendPending (now : Time) (d : Data) : Data :=
  if d.msgPending = false then d
  else if canSend now d then
    if maxRetry ≤ d.retryCount then
      { oneWireUartReset d with recovery := if d.resendCache.reset = true then d.recovery else true }
    else
      { d with txRingBuf := d.txRingBuf ++ [d.resendCache], lastSendTime := now, retryCount := d.retryCount + 1 }
  else d

def loadNextMessage (now : Time) (d : Data) : Data :=
  if d.txRingBuf ≠ [] then { d with lastSendTime := now } else sendPending now (takeNext (takeAck d))

def oneWireUartEnable (id : Bool) (no : Nat) (d : Data) : List Message × Data :=
  if d.enabled = true then ([], d) else oneWireUartSendReset id no (oneWireUartReset { d with enabled := true })

def oneWireUartDisable (d : Data) : Data := if d.enabled = false then d else oneWireUartReset { d with enabled := false }

/-! ## Receiving -/

/-- The first message in `rx_queue`, with what the callback gets. -/
def processPacket (d : Data) : Option (List Message × Data) :=
  match d.rxQueue with
  | [] => none
  | msg :: queue =>
    some
      (if d.lastReceivedMsgId ≠ msg.msgId ∧ d.msgReceivedCb = true then [msg] else [],
        { d with rxQueue := queue, lastReceivedMsgId := msg.msgId })

def genAckResponse (id : Bool) (msg : Message) : Message :=
  { no := msg.no, sender := id, reset := false, ack := true, msgId := msg.msgId, payload := [] }

def rxMessage (id : Bool) (msg : Message) (d : Data) : Data :=
  if msg.ack = true then { d with ack := msg.msgId, ackNo := some msg.no }
  else
    let d :=
      if msg.reset = true then oneWireUartReset d else { d with rxQueue := (kMsgqPut msg d.rxQueue).getD d.rxQueue }
    { d with txRingBuf := d.txRingBuf ++ [genAckResponse id msg] }

/-- The rounds of `process_rx_fifo`, each of which leaves at least a byte behind. -/
def rxLoop (id : Bool) (no : Nat) : Nat → Data → Data
  | 0, d => d
  | rounds + 1, d =>
    let d := { d with rxRingBuf := findHeader d.rxRingBuf }
    match scan no d.rxRingBuf with
    | .incomplete => d
    | .bad => rxLoop id no rounds { d with rxRingBuf := d.rxRingBuf.drop 1 }
    | .packet msg =>
      let d := if msg.sender ≠ id then rxMessage id msg d else d
      rxLoop id no rounds { d with rxRingBuf := d.rxRingBuf.drop (msgLen msg) }

def processRxFifo (id : Bool) (no : Nat) (d : Data) : Data := rxLoop id no (d.rxRingBuf.length + 1) d

def loadRxFifo (bytes : List UInt8) (d : Data) : Data := { d with rxRingBuf := (d.rxRingBuf ++ bytes).take rxRingSize }

/-- A frame arrives. -/
def rxFifo (id : Bool) (msg : Message) (d : Data) : Data := processRxFifo id msg.no (loadRxFifo msg.frame d)

/-! ## The link -/

/-- An endpoint with the frames on their way to it, and what happened at it. -/
structure Side where
  data : Data
  wire : List Message
  queued : List Message
  retired : List Message
  handed : List Message

inductive Call where
  | enable
  | disable
  | setCallback
  | send (cmd : UInt8) (payload : List UInt8)
  | load (now : Time)
  | transmit
  | lose (k : Nat)
  | receive
  | process
  | recover

/-- What a call does at the endpoint, and the frames it puts on the wire. -/
def call (id : Bool) : Call → Side → Option (List Message × Side)
  | .enable, x =>
    let r := oneWireUartEnable id x.queued.length x.data
    some ([], { x with data := r.2, queued := x.queued ++ r.1 })
  | .disable, x => some ([], { x with data := oneWireUartDisable x.data })
  | .setCallback, x => some ([], { x with data := { x.data with msgReceivedCb := true } })
  | .send cmd payload, x =>
    let r := oneWireUartSend id x.queued.length cmd payload x.data
    let queued := if r.1 = .zero then [dataMessage id x.queued.length cmd payload x.data] else []
    some ([], { x with data := r.2, queued := x.queued ++ queued })
  | .load now, x =>
    let retired := if Acked x.data ∧ x.data.resendCache.reset = false then [x.data.resendCache] else []
    some ([], { x with data := loadNextMessage now x.data, retired := x.retired ++ retired })
  | .transmit, x =>
    match x.data.txRingBuf with
    | [] => none
    | msg :: ring => some ([msg], { x with data := { x.data with txRingBuf := ring } })
  | .lose k, x => if k < x.wire.length then some ([], { x with wire := x.wire.eraseIdx k }) else none
  | .receive, x =>
    match x.wire with
    | [] => none
    | msg :: wire =>
      some ([], { x with wire := wire, data := if x.data.enabled = true then rxFifo id msg x.data else x.data })
  | .process, x => (processPacket x.data).map fun r => ([], { x with data := r.2, handed := x.handed ++ r.1 })
  | .recover, x =>
    if x.data.recovery = true then
      let r := oneWireUartSendReset id x.queued.length { x.data with recovery := false }
      some ([], { x with data := r.2, queued := x.queued ++ r.1 })
    else none

structure System where
  zero : Side
  one : Side

def System.side (s : System) : Bool → Side
  | false => s.zero
  | true => s.one

def System.set (s : System) (x : Side) : Bool → System
  | false => { s with zero := x }
  | true => { s with one := x }

def Side.hear (x : Side) (frames : List Message) : Side := { x with wire := x.wire ++ frames }

def step (i : Bool × Call) (s : System) : Option System :=
  (call i.1 i.2 (s.side i.1)).map fun r => (s.set r.2 i.1).set ((s.side !i.1).hear r.1) (!i.1)

def Data.initial : Data where
  msgReceivedCb := false
  msgId := 0
  lastReceivedMsgId := -1
  txRingBuf := []
  rxRingBuf := []
  txQueue := []
  rxQueue := []
  ack := -1
  ackNo := none
  resendCache := ⟨0, false, false, false, 0, []⟩
  msgPending := false
  lastSendTime := 0
  retryCount := 0
  enabled := false
  recovery := false

def Side.initial : Side := ⟨Data.initial, [], [], [], []⟩

def System.initial : System := ⟨Side.initial, Side.initial⟩

/-- The messages for which `one_wire_uart_send` returned 0. -/
def Side.sent (x : Side) : List Message := x.queued.filter fun msg => !msg.reset

end ChromeEc.OneWireUart
