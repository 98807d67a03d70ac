import ChromeEc.HostCommand.Model
import ChromeEc.Lib.Memory

/- Host commands over USB: `common/usb_host_command.c`.

  A byte from the host carries the number of bytes that were received up to it, and a byte of
  a response the number of the response and its place in it, so that bytes of one value can be
  told apart. Nothing depends on these numbers. The buffers are memories that do not end where
  the arrays do, and a write tells where it went. A response is written to `out_msg` by the
  command that is running, and any number of them may be, since a request that is
  given up may be followed by another.

  Correspondence (C ↔ Lean):
    `enum usbhc_state` ↔ `UsbhcState`
    `usb_to_hostcmd` ↔ `rxQueue`
    `hostcmd_to_usb` ↔ `txQueue`
    `host_request_expected_size`, `usbhc_read`, `usbhc_send_response_packet`, `usbhc_process_packet`,
      `usbhc_written` ↔ the same in camelCase
  The branches of `usbhc_written` for the first chunk of a request and for the next ones are
  `startRequest` and `continueRequest`. Prints are left out. -/
namespace ChromeEc.UsbHostCommand
open Lib

abbrev U32 := BitVec 32

abbrev second : Nat := 1000000

/-- The number of bytes of each of the queues. -/
def bufferUnits : Nat := 64

/-- `USBHC_MAX_REQUEST_SIZE`. -/
def maxRequestSize : Nat := 0x200

/-- `USBHC_MAX_RESPONSE_SIZE`. -/
def maxResponseSize : Nat := 0x100

inductive UsbhcState where
  | readyToRx
  | receiving
  | processing
  | sending
  | rxBad
  deriving DecidableEq

/-- A byte from the host. -/
structure Received where
  value : UInt8
  number : Nat
  deriving DecidableEq, Inhabited

/-- A byte of a response. -/
structure Prepared where
  value : UInt8
  response : Nat
  index : Nat
  deriving DecidableEq, Inhabited

structure St where
  state : UsbhcState
  inMsg : Nat → Received
  outMsg : Nat → Prepared
  outSize : U32
  outIndex : U32
  blockIndex : U32
  expectedSize : U32
  prevActivityTimestamp : BitVec 64
  rxQueue : List Received
  txQueue : List Prepared
  received : Nat
  responses : Nat
  running : Nat

def St.initial : St := ⟨.readyToRx, fun _ => default, fun _ => default, 0, 0, 0, 0, 0, [], [], 0, 0, 0⟩

/-- What a call did: a write to `in_msg`, a packet passed on, bytes put in the queue to the host. -/
structure Outcome where
  wrote : Option (Nat × Nat)
  given : Option (List Received)
  put : List Prepared

def Outcome.nothing : Outcome := ⟨none, none, []⟩

/-! ## Responses -/

/-- The bytes that are next for the host, and `len`. -/
def pieceLen (count : Nat) (s : St) : Nat := min count (min bufferUnits (s.outSize - s.outIndex).toNat)

def usbhcRead (count : Nat) (s : St) : List Prepared × St :=
  let len := pieceLen count s
  if s.state ≠ .sending then ([], s)
  else
    -- what the queue has no room for is dropped
    let put := Memory.read s.outMsg s.outIndex.toNat (min len (bufferUnits - s.txQueue.length))
    let s := { s with txQueue := s.txQueue ++ put, outIndex := s.outIndex + BitVec.ofNat 32 len }
    if s.outIndex < s.outSize then (put, s)
    else (put, { s with outIndex := 0, state := .readyToRx })

def usbhcSendResponsePacket (responseSize : U32) (s : St) : List Prepared × St :=
  if s.state ≠ .processing then ([], s)
  else if maxResponseSize < responseSize.toNat then ([], s)
  else usbhcRead bufferUnits { s with outSize := responseSize, state := .sending }

/-- The response of a command, as its bytes are told apart. -/
def prepared (number : Nat) (bytes : List UInt8) : List Prepared :=
  bytes.zipIdx.map fun b => ⟨b.1, number, b.2⟩

def prepare (bytes : List UInt8) (s : St) : St :=
  { s with
    outMsg := Memory.copy s.outMsg 0 (min bytes.length maxResponseSize) fun i =>
      ((prepared (s.responses + 1) bytes)[i]?).getD default
    responses := s.responses + 1
    running := s.running - 1 }

/-! ## Requests -/

/-- The bytes of a memory of received bytes. -/
def values (m : Nat → Received) : HostCommand.Mem := fun i => (m i).value

def hostRequestExpectedSize (r : HostCommand.Mem) : Nat :=
  if HostCommand.structVersion r 0 ≠ HostCommand.EC_HOST_REQUEST_VERSION then 0
  else if HostCommand.reserved r 0 ≠ 0 then 0
  else HostCommand.HEADER_SIZE + (HostCommand.dataLen r 0).toNat

/-- A command starts to run. -/
def usbhcProcessPacket (pktSize : U32) (s : St) : List Received × St :=
  (Memory.read s.inMsg 0 pktSize.toNat, { s with running := s.running + 1 })

/-- `QUEUE_REMOVE_UNITS` to `in_msg`. -/
def removeUnits (offset count : Nat) (s : St) : St :=
  { s with
    inMsg := Memory.copy s.inMsg offset (min count s.rxQueue.length) fun i => (s.rxQueue[i]?).getD default
    rxQueue := s.rxQueue.drop count }

def startRequest (count : Nat) (s : St) : Outcome × St :=
  let s := removeUnits 0 count { s with blockIndex := 0 }
  if (s.inMsg 0).value ≠ HostCommand.EC_HOST_REQUEST_VERSION then (⟨some (0, count), none, []⟩, s)
  else
    let s := { s with
      blockIndex := s.blockIndex + BitVec.ofNat 32 count
      expectedSize := BitVec.ofNat 32 (hostRequestExpectedSize (values s.inMsg)) }
    if s.blockIndex < s.expectedSize then (⟨some (0, count), none, []⟩, { s with state := .receiving })
    else if maxRequestSize < s.expectedSize.toNat then (⟨some (0, count), none, []⟩, { s with state := .rxBad })
    else
      let (packet, s) := usbhcProcessPacket s.blockIndex { s with state := .processing }
      (⟨some (0, count), some packet, []⟩, s)

def continueRequest (count : Nat) (s : St) : Outcome × St :=
  if maxRequestSize < (s.blockIndex + BitVec.ofNat 32 count).toNat then (.nothing, { s with state := .rxBad })
  else
    let wrote := (s.blockIndex.toNat, count)
    let s := removeUnits s.blockIndex.toNat count s
    let s := { s with blockIndex := s.blockIndex + BitVec.ofNat 32 count }
    if s.blockIndex < s.expectedSize then (⟨some wrote, none, []⟩, s)
    else if s.expectedSize < s.blockIndex then (⟨some wrote, none, []⟩, { s with state := .rxBad })
    else
      let (packet, s) := usbhcProcessPacket s.blockIndex { s with state := .processing }
      (⟨some wrote, some packet, []⟩, s)

/-- The state that a chunk finds: one that comes too long after the last one starts over. -/
def recovered (now : BitVec 64) (s : St) : UsbhcState :=
  if 5 * second < (now - s.prevActivityTimestamp).toNat ∧ s.state ≠ .readyToRx then .readyToRx else s.state

def usbhcWritten (count : Nat) (now : BitVec 64) (s : St) : Outcome × St :=
  let s := { s with state := recovered now s, prevActivityTimestamp := now }
  match s.state with
  | .readyToRx => startRequest count s
  | .receiving => continueRequest count s
  | .rxBad => (.nothing, { s with rxQueue := s.rxQueue.drop count })
  | .processing => (.nothing, s)
  | .sending => (.nothing, s)

/-! ## Calls in any order -/

inductive Call where
  | chunk (bytes : List UInt8) (now : BitVec 64)
  | hostRead (count : Nat)
  | complete (response : List UInt8)

def numbered (received : Nat) (bytes : List UInt8) : List Received :=
  bytes.zipIdx.map fun b => ⟨b.1, received + 1 + b.2⟩

def arrive (bytes : List UInt8) (s : St) : St :=
  { s with rxQueue := s.rxQueue ++ numbered s.received bytes, received := s.received + bytes.length }

/-- The stream takes a chunk when all of it has room, and takes from the other queue what the host reads. A command
completes only while it runs, and its response has a size. -/
def call : Call → St → Option (Outcome × St)
  | .chunk bytes now, s =>
    if 0 < bytes.length ∧ bytes.length ≤ bufferUnits - s.rxQueue.length then
      some (usbhcWritten bytes.length now (arrive bytes s))
    else none
  | .hostRead count, s =>
    let transfer := min count s.txQueue.length
    let s := { s with txQueue := s.txQueue.drop transfer }
    if transfer = 0 then some (.nothing, s)
    else
      let (put, s) := usbhcRead transfer s
      some (⟨none, none, put⟩, s)
  | .complete response, s =>
    if 0 < s.running ∧ response.length < 2 ^ 32 then
      let (put, s) := usbhcSendResponsePacket (BitVec.ofNat 32 response.length) (prepare response s)
      some (⟨none, none, put⟩, s)
    else none

def step (c : Call) (s : St) : Option St := (call c s).map Prod.snd

end ChromeEc.UsbHostCommand
