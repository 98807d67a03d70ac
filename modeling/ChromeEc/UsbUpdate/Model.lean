import ChromeEc.UpdateFw.Model
import ChromeEc.Lib.Ring

/- The USB receiver of the firmware updater, `common/usb_update.c`.

  The receiver is called with each chunk that USB has put into its queue. The
  queue is the list of its bytes. `block_buffer` is a memory from its first byte
  on, which does not end where the buffer does, so that a copy past the end can be
  seen. What a call does beside changing the state is a list of events.

  Correspondence (C ↔ Lean):
    `rx_state_`, `block_buffer`,
    `block_size`, `block_index`,
    `prev_activity_timestamp`,
    `data_was_transferred` ↔ `State`
    `QUEUE_REMOVE_UNITS` ↔ `removeUnits`
    `fetch_transfer_start`, `try_vendor_command`, `send_error_reset`, `update_out_handler` ↔ the same in
      camelCase
  What a vendor command does once it is verified is not modelled: it is an event,
  and leaves the receiver alone. `fw_update_complete` is empty. -/
namespace ChromeEc.UsbUpdate
open Lib UpdateFw

inductive RxState where
  | idle
  | insideBlock
  | outsideBlock
  deriving DecidableEq

/-- The configuration of the updater, whose blocks are far from filling the
address space. -/
structure Config extends UpdateFw.Config where
  pduSize_lt : pduSize.toNat < 2 ^ 31

/-- `sizeof(block_buffer)`. -/
def Config.bufferSize (cfg : Config) : Nat := sizeofCommand + cfg.pduSize.toNat

/-- `sizeof(struct update_frame_header)`. -/
def sizeofHeader : Nat := 12

/-- `USB_MAX_PACKET_SIZE`. -/
def maxPacketSize : Nat := 64

def UPDATE_DONE : U32 := 0xb007ab1e

def UPDATE_EXTRA_CMD : U32 := 0xb007ab1f

/-- The state of the receiver, with the queue from USB and the section of the
updater. -/
structure State where
  rxState : RxState
  blockBuffer : Nat → UInt8
  blockSize : U32
  blockIndex : U32
  prevActivityTimestamp : BitVec 64
  dataWasTransferred : Bool
  queue : List UInt8
  updateSection : Section

/-- What a call does: bytes written to `block_buffer`, a subtraction from
`block_size`, a call of the updater, its effect on flash, a reply to the host, a
vendor command. -/
inductive Event where
  | write (offset len : Nat)
  | subtract (size amount : U32)
  | handler (body : List UInt8)
  | flash (ops : List FlashOp)
  | reply (bytes : List UInt8)
  | vendor (frame : List UInt8)
  deriving DecidableEq

/-! ## Bytes -/

def be32 (x : U32) : List UInt8 :=
  [UInt8.ofNat (x.toNat / 2 ^ 24), UInt8.ofNat (x.toNat / 2 ^ 16), UInt8.ofNat (x.toNat / 2 ^ 8),
    UInt8.ofNat x.toNat]

def be16 (x : Nat) : List UInt8 := [UInt8.ofNat (x / 2 ^ 8), UInt8.ofNat x]

def pduBytes (pdu : FirstResponsePdu) : List UInt8 :=
  be32 (BitVec.ofNat 32 pdu.returnValue) ++ be16 pdu.headerType ++ be16 pdu.protocolVersion ++
    be32 pdu.maximumPduSize ++ be32 pdu.flashProtection ++ be32 pdu.offset ++
    pdu.version.take 32 ++ be32 pdu.minRollback ++ be32 pdu.keyVersion

/-- The bytes that a response leaves at the start of the block. -/
def responseBytes : Response → List UInt8
  | .code c => [UInt8.ofNat c.toNat]
  | .first pdu => pduBytes pdu

def asMem (bytes : List UInt8) : Nat → UInt8 := fun i => bytes.getD i 0

/-! ## `usb_update.c` -/

/-- The bytes that `QUEUE_REMOVE_UNITS` copies, and the queue without them. -/
def removeUnits (queue : List UInt8) (n : Nat) : List UInt8 × List UInt8 :=
  (queue.take n, queue.drop n)

/-- The loop of `fetch_transfer_start`: `i` bytes are left to drain, and each round
overwrites the start of the frame. -/
def drainQueue (queue frame : List UInt8) (i : Nat) : List UInt8 × List UInt8 :=
  if i = 0 then
    (queue, frame)
  else
    let r := removeUnits queue (min i sizeofHeader)
    drainQueue r.2 (r.1 ++ frame.drop r.1.length) (i - sizeofHeader)
termination_by i
decreasing_by
  simp only [sizeofHeader]
  omega

/-- `fetch_transfer_start`: the queue after it, and the frame if the count is
right. The frame is not initialized before. -/
def fetchTransferStart (queue : List UInt8) (count : Nat) : List UInt8 × Option (List UInt8) :=
  let r := drainQueue queue (List.replicate sizeofHeader 0) count
  (r.1, if count ≠ sizeofHeader then none else some r.2)

section
variable (cfg : Config) (sha256 : List UInt8 → List UInt8)

/-- `try_vendor_command`: the queue and the event of a command that is processed. -/
def tryVendorCommand (queue : List UInt8) (count : Nat) : Option (List UInt8 × Event) :=
  if count < sizeofHeader ∨ maxPacketSize < count then
    none
  else if be32toh queue 8 ≠ UPDATE_EXTRA_CMD then
    none
  else if (be32toh queue 0).toNat ≠ count then
    none
  else if updatePduValid cfg.toConfig sha256 ((queue.take count).drop 4) then
    some (queue.drop count, .vendor (queue.take count))
  else
    none

def sendErrorReset (s : State) (resp : Code) : State × List Event :=
  ({ s with rxState := .idle, dataWasTransferred := false },
    [.reply [UInt8.ofNat resp.toNat]])

/-- `rx_idle`: the payload must be an update initiating PDU. -/
def receiveIdle (env : Env) (s : State) (count : Nat) : State × List Event :=
  match tryVendorCommand cfg sha256 s.queue count with
  | some (queue, event) => ({ s with queue := queue }, [event])
  | none =>
    let fetched := fetchTransferStart s.queue count
    let s := { s with queue := fetched.1 }
    match fetched.2 with
    | none => sendErrorReset s .genError
    | some upfr =>
      if (be32toh upfr 0).toNat ≠ sizeofHeader ∨ be32toh upfr 4 ≠ 0 ∨ be32toh upfr 8 ≠ 0 then
        sendErrorReset s .genError
      else
        let body := upfr.drop 4
        let r := fwUpdateCommandHandler cfg.toConfig sha256 s.updateSection env body
        let s := { s with updateSection := r.2.2 }
        let s :=
          if be32toh (responseBytes r.1) 0 = 0 then
            { s with rxState := .outsideBlock, dataWasTransferred := false }
          else
            s
        (s, [.handler body, .flash r.2.1, .reply (responseBytes r.1)])

/-- `rx_outside_block` past the check for `UPDATE_DONE`. -/
def receiveBlockStart (s : State) (count : Nat) : State × List Event :=
  let fetched := fetchTransferStart s.queue count
  let s := { s with queue := fetched.1 }
  match fetched.2 with
  | none => sendErrorReset s .genError
  | some upfr =>
    let declared := be32toh upfr 0
    let s := { s with blockSize := declared - 4 }
    if s.blockSize.toNat ≤ sizeofCommand ∨ cfg.bufferSize < s.blockSize.toNat then
      let r := sendErrorReset s .genError
      (r.1, .subtract declared 4 :: r.2)
    else
      ({ s with
          blockIndex := 8
          blockBuffer := blit s.blockBuffer 0 (asMem (upfr.drop 4)) 8
          blockSize := s.blockSize - 8
          rxState := .insideBlock },
        [.subtract declared 4, .write 0 8, .subtract s.blockSize 8])

/-- `rx_outside_block`: the beginning of a block, or the end of the update. -/
def receiveOutside (s : State) (count : Nat) : State × List Event :=
  if count = 4 then
    let r := removeUnits s.queue 4
    let s := { s with queue := r.2 }
    if be32toh r.1 0 = UPDATE_DONE then
      ({ s with rxState := .idle, dataWasTransferred := false }, [.reply [0]])
    else
      receiveBlockStart cfg s count
  else
    receiveBlockStart cfg s count

/-- A block is complete: it goes to the updater, which answers in its place. -/
def blockReceived (env : Env) (s : State) : State × List Event :=
  let body := window s.blockBuffer 0 s.blockIndex.toNat
  let r := fwUpdateCommandHandler cfg.toConfig sha256 s.updateSection env body
  let response := responseBytes r.1
  let s := { s with
    updateSection := r.2.2
    blockBuffer := blit s.blockBuffer 0 (asMem response) response.length
    dataWasTransferred := true
    rxState := .outsideBlock }
  (s, [.handler body, .flash r.2.1, .write 0 response.length, .reply [s.blockBuffer 0]])

/-- `rx_inside_block`. -/
def receiveInside (env : Env) (s : State) (count : Nat) : State × List Event :=
  let r := removeUnits s.queue count
  let events : List Event :=
    [.write s.blockIndex.toNat r.1.length, .subtract s.blockSize (BitVec.ofNat 32 count)]
  let s := { s with
    queue := r.2
    blockBuffer := blit s.blockBuffer s.blockIndex.toNat (asMem r.1) r.1.length
    blockIndex := s.blockIndex + BitVec.ofNat 32 count
    blockSize := s.blockSize - BitVec.ofNat 32 count }
  if s.blockSize ≠ 0 then
    if count ≤ sizeofHeader then
      let r := sendErrorReset s .genError
      (r.1, events ++ r.2)
    else
      (s, events)
  else
    let r := blockReceived cfg sha256 env s
    (r.1, events ++ r.2)

/-- The receiver's state once the time since the last call has been looked at. -/
def afterTimeout (now : BitVec 64) (s : State) : RxState :=
  if 5000000 < now - s.prevActivityTimestamp then .idle else s.rxState

def updateOutHandler (env : Env) (now : BitVec 64) (s : State) (count : Nat) :
    State × List Event :=
  let s := { s with
    rxState := afterTimeout now s
    prevActivityTimestamp :=
      s.prevActivityTimestamp + (now - s.prevActivityTimestamp) }
  match s.rxState with
  | .idle => receiveIdle cfg sha256 env s count
  | .outsideBlock => receiveOutside cfg s count
  | .insideBlock => receiveInside cfg sha256 env s count

/-! ## Runs -/

def resetState : State where
  rxState := .idle
  blockBuffer _ := 0
  blockSize := 0
  blockIndex := 0
  prevActivityTimestamp := 0
  dataWasTransferred := false
  queue := []
  updateSection := noSection

/-- A USB chunk: no more bytes than the queue has room for. -/
structure Chunk where
  bytes : List UInt8
  length_le : bytes.length ≤ maxPacketSize

/-- A chunk that arrives at a time, or a reset. -/
inductive Input where
  | chunk (env : Env) (now : BitVec 64) (c : Chunk)
  | reset

def step (s : State) : Input → State × List Event
  | .chunk env now c =>
    updateOutHandler cfg sha256 env now { s with queue := s.queue ++ c.bytes } c.bytes.length
  | .reset => (resetState, [])

def run : State → List Input → State × List Event
  | s, [] => (s, [])
  | s, input :: inputs =>
    let r := step cfg sha256 s input
    let rest := run r.1 inputs
    (rest.1, r.2 ++ rest.2)

end

end ChromeEc.UsbUpdate
