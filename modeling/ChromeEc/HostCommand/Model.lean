import ChromeEc.Lib.Checksum
import ChromeEc.Lib.Steps

/- Host command packets, protocol version 3, of `common/host_command_task.c`.

  Buffers are addresses of one memory, so that a response may overlay its request. A
  `uint16_t` is a `BitVec 16`; sums with a `sizeof` are made in a wider unsigned type. The
  list of commands, whether the code runs in an interrupt and whether a reset returns are
  inputs of a step (`Env`). A result of `none` is an EC that stopped: a failed `ASSERT`, or a
  reset. `received` and `sent` only record the commands passed on and the packets sent.

  Correspondence (C ↔ Lean):
    `struct ec_host_request` ↔ `structVersion`, `command`, `commandVersion`, `dataLen`
    `struct ec_host_response` ↔ `responseHeader`
    `struct host_packet` ↔ `Packet`
    `host_send_response`, `host_command_received`, `host_packet_respond`, `host_packet_receive`,
      `host_command_process` ↔ the same in camelCase
    `host_command_task` ↔ `hostCommandTask` (one turn)
  The code at `host_packet_bad` is `hostPacketBad`. Prints, rate limiting and the commands
  for a second EC (`CONFIG_HOSTCMD_PD`) are left out. -/
namespace ChromeEc.HostCommand
open ChromeEc.Lib ChromeEc.Lib.Memory ChromeEc.Lib.Checksum ChromeEc.Lib.Steps

abbrev U16 := BitVec 16

abbrev Mem := Nat → UInt8

def EC_RES_SUCCESS : U16 := 0
def EC_RES_INVALID_COMMAND : U16 := 1
def EC_RES_ERROR : U16 := 2
def EC_RES_INVALID_VERSION : U16 := 6
def EC_RES_INVALID_CHECKSUM : U16 := 7
def EC_RES_IN_PROGRESS : U16 := 8
def EC_RES_UNAVAILABLE : U16 := 9
def EC_RES_INVALID_HEADER : U16 := 12
def EC_RES_REQUEST_TRUNCATED : U16 := 13
def EC_RES_RESPONSE_TOO_BIG : U16 := 14

def EC_HOST_REQUEST_VERSION : UInt8 := 3
def EC_HOST_RESPONSE_VERSION : UInt8 := 3

def EC_CMD_GET_COMMS_STATUS : U16 := 0x0009
def EC_CMD_REBOOT : U16 := 0x00D1

/-- `sizeof(struct ec_host_request)`, and of `struct ec_host_response`. -/
def HEADER_SIZE : Nat := 8

/-! ## Headers -/

/-- A little-endian `uint16_t`. -/
def le16 (m : Mem) (p : Nat) : U16 := (m (p + 1)).toBitVec ++ (m p).toBitVec

def structVersion (m : Mem) (r : Nat) : UInt8 := m r
def command (m : Mem) (r : Nat) : U16 := le16 m (r + 2)
def commandVersion (m : Mem) (r : Nat) : UInt8 := m (r + 4)
def reserved (m : Mem) (r : Nat) : UInt8 := m (r + 5)
def dataLen (m : Mem) (r : Nat) : U16 := le16 m (r + 6)

def responseHeader (result dataLen : U16) (i : Nat) : UInt8 :=
  match i with
  | 0 => EC_HOST_RESPONSE_VERSION
  | 2 => .ofBitVec (result.extractLsb' 0 8)
  | 3 => .ofBitVec (result.extractLsb' 8 8)
  | 4 => .ofBitVec (dataLen.extractLsb' 0 8)
  | 5 => .ofBitVec (dataLen.extractLsb' 8 8)
  | _ => 0

/-! ## The state -/

/-- `struct host_packet`. -/
structure Packet where
  request : Nat
  requestTemp : Option Nat
  requestMax : U16
  requestSize : U16
  response : Nat
  responseMax : U16
  responseSize : U16
  driverResult : U16
  deriving DecidableEq

/-- `struct host_cmd_handler_args`. -/
structure Args where
  command : U16
  version : UInt8
  params : Nat
  paramsSize : U16
  response : Nat
  responseMax : U16
  responseSize : U16
  result : U16
  deriving DecidableEq

/-- What a handler returns and leaves. -/
structure Reply where
  result : U16
  responseSize : U16
  mem : Mem

/-- `struct host_command`. -/
structure Command where
  versionMask : BitVec 32
  handler : Args → Mem → Reply

structure Env where
  interrupt : Bool
  findHostCommand : U16 → Option Command
  resetReturns : Bool

/-- A packet given to the driver's `send_response`, with its bytes. -/
structure Sent where
  packet : Packet
  bytes : List UInt8

structure State where
  mem : Mem
  pkt0 : Packet
  args0 : Args
  pendingArgs : Bool
  commandPending : Bool
  savedResult : U16
  received : List Args
  sent : List Sent

/-! ## Responses -/

def checksumLoop (m : Mem) : Nat → Nat → Nat → Nat
  | _, 0, csum => csum
  | p, n + 1, csum => checksumLoop m (p + 1) n (csum + (m p).toNat)

def hostPacketRespond (s : State) : State :=
  let args :=
    if s.args0.result ≠ 0 then { s.args0 with responseSize := 0 }
    -- the difference is one of unsigned words
    else if s.args0.responseSize.setWidth 32 > s.pkt0.responseMax.setWidth 32 - 8#32 then
      { s.args0 with result := EC_RES_RESPONSE_TOO_BIG, responseSize := 0 }
    else s.args0
  let r := s.pkt0.response
  let m := copy s.mem r HEADER_SIZE (responseHeader args.result args.responseSize)
  let csum := checksumLoop m r HEADER_SIZE 0
  let csum := checksumLoop m (r + HEADER_SIZE) args.responseSize.toNat csum
  let m := store m (r + 1) (-UInt8.ofNat csum)
  let pkt := { s.pkt0 with responseSize := BitVec.ofNat 16 HEADER_SIZE + args.responseSize, driverResult := args.result }
  { s with
    mem := m, args0 := args, pkt0 := pkt, sent := s.sent ++ [⟨pkt, Memory.read m r pkt.responseSize.toNat⟩] }

/-- `host_send_response`; `status` is `CONFIG_HOST_COMMAND_STATUS`. -/
def hostSendResponse (status : Bool) (env : Env) (s : State) : State :=
  if status && !env.interrupt then
    if s.commandPending then
      { s with
        savedResult := if s.args0.responseSize ≠ 0 then EC_RES_UNAVAILABLE else s.args0.result, commandPending := false }
    else if s.args0.result = EC_RES_IN_PROGRESS then hostPacketRespond { s with commandPending := true }
    else hostPacketRespond s
  else hostPacketRespond s

/-! ## Commands -/

/-- "Pre-emptively clear the entire response buffer". -/
def clearResponse (s : State) : State :=
  { s with mem := fill s.mem s.args0.response s.args0.responseMax.toNat 0 }

def hostCommandProcess (env : Env) (s : State) : State :=
  let s := clearResponse s
  match env.findHostCommand s.args0.command with
  | none => { s with args0 := { s.args0 with result := EC_RES_INVALID_COMMAND } }
  | some cmd =>
    if !cmd.versionMask.getLsbD s.args0.version.toNat then
      { s with args0 := { s.args0 with result := EC_RES_INVALID_VERSION } }
    else
      let reply := cmd.handler s.args0 s.mem
      { s with mem := reply.mem, args0 := { s.args0 with result := reply.result, responseSize := reply.responseSize } }

def hostCommandReceived (status : Bool) (env : Env) (s : State) : Option State :=
  let s := { s with received := s.received ++ [s.args0] }
  if s.args0.command = EC_CMD_REBOOT && !env.resetReturns then none
  else
    -- "Reset should never return; if it does, post an error"
    let s := if s.args0.command = EC_CMD_REBOOT then { s with args0 := { s.args0 with result := EC_RES_ERROR } } else s
    if s.args0.result ≠ 0 then some (hostSendResponse status env s)
    else if status && s.args0.command = EC_CMD_GET_COMMS_STATUS then
      some (hostSendResponse status env (hostCommandProcess env s))
    else some { s with pendingArgs := true }

/-- One turn of `host_command_task`, woken by `TASK_EVENT_CMD_PENDING`. -/
def hostCommandTask (status : Bool) (env : Env) (s : State) : State :=
  hostSendResponse status env (hostCommandProcess env { s with pendingArgs := false })

/-! ## Requests -/

def hostPacketBad (s : State) (result : U16) : Option State :=
  some (hostPacketRespond { s with args0 := { s.args0 with result := result } })

/-- `*itmp = *in++; csum += *itmp++`, `n` times. -/
def copyLoop : Mem → Nat → Nat → Nat → Nat → Mem × Nat
  | m, _, _, 0, csum => (m, csum)
  | m, src, itmp, n + 1, csum =>
    let m := store m itmp (m src)
    copyLoop m (src + 1) (itmp + 1) n (csum + (m itmp).toNat)

/-- A loop over `n` bytes of the request: copied to the temporary buffer if there is one. -/
def takeIn (m : Mem) (src : Nat) (itmp : Option Nat) (n csum : Nat) : Mem × Nat :=
  match itmp with
  | some itmp => copyLoop m src itmp n csum
  | none => (m, checksumLoop m src n csum)

def hostPacketReceive (status : Bool) (env : Env) (pkt : Packet) (s : State) : Option State :=
  let s := { s with pkt0 := pkt }
  if pkt.driverResult ≠ 0 then hostPacketBad s pkt.driverResult
  else if pkt.requestSize.toNat < HEADER_SIZE then hostPacketBad s EC_RES_REQUEST_TRUNCATED
  else if pkt.requestSize > pkt.requestMax then hostPacketBad s EC_RES_REQUEST_TRUNCATED
  else if pkt.responseMax.toNat < HEADER_SIZE then none -- the `ASSERT`
  else
    let (m, csum) := takeIn s.mem pkt.request pkt.requestTemp HEADER_SIZE 0
    let s := { s with mem := m }
    let r := pkt.requestTemp.getD pkt.request
    if structVersion m r ≠ EC_HOST_REQUEST_VERSION then hostPacketBad s EC_RES_INVALID_HEADER
    else if pkt.requestSize.toNat < HEADER_SIZE + (dataLen m r).toNat then hostPacketBad s EC_RES_REQUEST_TRUNCATED
    else
      let (m, csum) := takeIn m (pkt.request + HEADER_SIZE)
        (pkt.requestTemp.map (· + HEADER_SIZE)) (dataLen m r).toNat csum
      let s := { s with mem := m, args0 := { s.args0 with params := r + HEADER_SIZE } }
      if UInt8.ofNat csum ≠ 0 then hostPacketBad s EC_RES_INVALID_CHECKSUM
      else
        hostCommandReceived status env
          { s with
            args0 := { s.args0 with
              command := command m r, version := commandVersion m r, paramsSize := dataLen m r,
              response := pkt.response + HEADER_SIZE, responseMax := pkt.responseMax - BitVec.ofNat 16 HEADER_SIZE,
              responseSize := 0, result := EC_RES_SUCCESS } }

/-! ## Steps -/

/-- A driver hands over a packet in buffers it has filled, or the task is woken. -/
inductive Action where
  | receive (env : Env) (mem : Mem) (pkt : Packet)
  | task (env : Env)

def step (status : Bool) : Action → State → Option State
  | .receive env mem pkt, s => hostPacketReceive status env pkt { s with mem := mem }
  | .task env, s => if s.pendingArgs then some (hostCommandTask status env s) else none

def initial (mem : Mem) : State where
  mem := mem
  pkt0 := ⟨0, none, 0, 0, 0, 0, 0, 0⟩
  args0 := ⟨0, 0, 0, 0, 0, 0, 0, 0⟩
  pendingArgs := false
  commandPending := false
  savedResult := EC_RES_UNAVAILABLE
  received := []
  sent := []

end ChromeEc.HostCommand
