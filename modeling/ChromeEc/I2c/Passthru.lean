import ChromeEc.Lib.Memory

/- The I2C passthrough, `common/i2c_passthru.c`.

  A request is a header, a descriptor for each message, and the bytes of all the writes one after the
  other. `check_i2c_params` adds up the lengths and `i2c_command_passthru` walks over the same
  messages with running offsets; both are here with the offsets of the bytes that they read or hand
  on. On a restricted build the check looks at the first byte of each write, before it knows whether
  the request has that byte: `passthru_bounds_iff` says when that stays inside the request. What is
  handed on does so always (`passMsgs_inside`).

  What the I2C drivers and `virtual_battery_handler` do with a message is a parameter (`Outside`):
  they get the place and the length of what they may read or write. The sums of the lengths, of at
  most 255 messages with 16 bits each, do not overflow. -/
namespace ChromeEc.I2c
open ChromeEc.Lib.Memory

/-- What the functions use of struct host_cmd_handler_args. -/
structure Args where
  params : Nat → UInt8
  paramsSize : Nat
  responseMax : Nat

def le16 (m : Nat → UInt8) (p : Nat) : BitVec 16 := (m (p + 1)).toBitVec ++ (m p).toBitVec

namespace Args

variable (args : Args)

def port : UInt8 := args.params 0

def numMsgs : Nat := (args.params 1).toNat

/-- params->msg[i].addr_flags -/
def addrFlags (i : Nat) : BitVec 16 := le16 args.params (2 + i * 4)

/-- params->msg[i].len -/
def len (i : Nat) : Nat := (le16 args.params (4 + i * 4)).toNat

/-- addr_flags & EC_I2C_FLAG_READ -/
def isRead (i : Nat) : Bool := (args.addrFlags i).getLsbD 15

/-- The header and the descriptors. -/
def size : Nat := 2 + args.numMsgs * 4

end Args

/-- struct i2c_port_t. `none` is a function that is not defined. -/
structure I2cPort where
  passthruAllowed : Option (BitVec 16 → Bool)

structure Board where
  /-- CONFIG_I2C_PASSTHRU_RESTRICTED -/
  restricted : Bool
  boardAllowI2cPassthru : UInt8 → BitVec 16 → UInt8 → Bool
  /-- i2c_get_port_from_remote_port on Zephyr, and no change elsewhere -/
  portFromRemotePort : UInt8 → UInt8
  getI2cPort : UInt8 → Option I2cPort
  /-- The port and the address are those of the virtual battery. -/
  isVirtualBattery : UInt8 → BitVec 16 → Bool

structure Sys where
  systemIsLocked : Bool
  /-- CONFIG_BATTERY_CUT_OFF, and the battery is cut off. -/
  batteryIsCutOff : Bool
  portProtected : UInt8 → Bool

inductive EcStatus where
  | success
  | invalidParam
  | accessDenied
  deriving DecidableEq

/-! ## The check -/

/-- The variables of the loop of check_i2c_params. -/
structure Locals where
  readLen : Nat
  writeLen : Nat
  cmdId : UInt8
  /-- The places of the request that were read. -/
  accesses : List Nat

/-- Where addr_flags and len are. -/
def descriptor (i : Nat) : List Nat := [2 + i * 4, 3 + i * 4, 4 + i * 4, 5 + i * 4]

section

variable (b : Board) (sys : Sys) (args : Args)

/-- The first byte of a write is looked at on a restricted build. -/
def peek (l : Locals) : Locals :=
  if b.restricted then
    { l with cmdId := args.params (args.size + l.writeLen), accesses := l.accesses ++ [args.size + l.writeLen] }
  else l

def countMsg (msgnum : Nat) (l : Locals) : Locals :=
  let l := { l with accesses := l.accesses ++ descriptor msgnum }
  if args.isRead msgnum then { l with readLen := l.readLen + args.len msgnum }
  else
    let l := peek b args l
    { l with writeLen := l.writeLen + args.len msgnum }

end

/-! ## The messages -/

/-- What is handed on for a message. `out` is a place of the request, `inLen` one of resp->data. -/
structure Transfer where
  addrFlags : BitVec 16
  out : Nat
  writeLen : Nat
  inLen : Nat
  readLen : Nat
  /-- I2C_XFER_STOP -/
  stop : Bool
  /-- I2C_XFER_RESTART -/
  restart : Bool

/-- What i2c_xfer_unlocked returns. -/
inductive Xfer where
  | success
  | timeout
  | error

/-- What virtual_battery_handler does: it fails, it sets EC_I2C_STATUS_NAK, or it leaves the message to
the bus. -/
structure HandlerAnswer where
  failed : Bool
  nak : Bool
  leaves : Bool

/-- What is outside of the function, for each message. -/
structure Outside where
  i2cXferUnlocked : Nat → Transfer → Xfer
  virtualBatteryHandler : Nat → Transfer → HandlerAnswer

/-- struct ec_response_i2c_passthru and in_len. -/
structure Response where
  i2cStatus : BitVec 8
  numMsgs : Nat
  inLen : Nat
  /-- What was handed on. -/
  transfers : List Transfer

def ecI2cStatusNak : BitVec 8 := 1
def ecI2cStatusTimeout : BitVec 8 := 2

section

variable (b : Board) (sys : Sys) (o : Outside) (args : Args) (port : UInt8)

def busAnswer (i : Nat) (t : Transfer) (i2cStatus : BitVec 8) : Bool × BitVec 8 :=
  match o.i2cXferUnlocked i t with
  | .success => (true, i2cStatus)
  | .timeout => (false, ecI2cStatusTimeout)
  | .error => (false, ecI2cStatusNak)

/-- Whether the loop goes on after a message, and i2c_status. -/
def answer (i : Nat) (t : Transfer) (i2cStatus : BitVec 8) : Bool × BitVec 8 :=
  if b.isVirtualBattery port t.addrFlags then
    let a := o.virtualBatteryHandler i t
    let i2cStatus := if a.nak then ecI2cStatusNak else i2cStatus
    if a.failed then (false, i2cStatus)
    else if a.leaves then busAnswer o i t i2cStatus
    else (true, i2cStatus)
  else busAnswer o i t i2cStatus

def nextTransfer (i out inLen : Nat) : Transfer where
  addrFlags := args.addrFlags i &&& 0x3ff
  out := out
  writeLen := if args.isRead i then 0 else args.len i
  inLen := inLen
  readLen := if args.isRead i then args.len i else 0
  stop := i + 1 == args.numMsgs
  restart := 0 < i

end

/-! ## What the request says -/

namespace Args

variable (args : Args)

def writeLen (i : Nat) : Nat := if args.isRead i then 0 else args.len i

def readLen (i : Nat) : Nat := if args.isRead i then args.len i else 0

def written : Nat → Nat
  | 0 => 0
  | i + 1 => written i + args.writeLen i

def received : Nat → Nat
  | 0 => 0
  | i + 1 => received i + args.readLen i

/-- The first byte of the last write before message `i`. -/
def lastCmd : Nat → UInt8
  | 0 => 0xff
  | i + 1 => if args.isRead i then lastCmd i else args.params (args.size + args.written i)

/-- What is to be handed on for message `i`: it has its place behind those of the messages before. -/
def transfer (i : Nat) : Transfer := nextTransfer args i (args.size + args.written i) (args.received i)

/-- The bytes of the request that a message writes. -/
def payload (t : Transfer) : List UInt8 := read args.params t.out t.writeLen

end Args

/-- A locked system does not allow message `i`. -/
def Refused (b : Board) (sys : Sys) (args : Args) (port : UInt8) (i : Nat) : Prop :=
  b.restricted ∧ sys.systemIsLocked ∧ ¬b.boardAllowI2cPassthru port (args.addrFlags i) (args.lastCmd (i + 1))

/-- What was handed on is in its place, in order, and inside the request and the response. -/
structure HandedOnInside (args : Args) (r : Response) : Prop where
  order : r.transfers = (List.range r.transfers.length).map args.transfer
  count : r.transfers.length ≤ args.numMsgs
  writes : ∀ t ∈ r.transfers, args.size ≤ t.out ∧ t.out + t.writeLen ≤ args.paramsSize
  reads : ∀ t ∈ r.transfers, 2 + (t.inLen + t.readLen) ≤ args.responseMax
  consumed : r.transfers.flatMap args.payload = read args.params args.size (args.written r.transfers.length)
  response : 2 + r.inLen ≤ args.responseMax
  complete : r.numMsgs = args.numMsgs → r.transfers.length = args.numMsgs

variable {b : Board} {sys : Sys} {o : Outside} {args : Args} {port : UInt8} {l l' : Locals} {i n : Nat}

structure Locals.At (b : Board) (args : Args) (i : Nat) (l : Locals) : Prop where
  read : l.readLen = args.received i
  written : l.writeLen = args.written i
  cmd : b.restricted → l.cmdId = args.lastCmd i

/-- The places that were read lie inside the request. -/
def Locals.Inside (args : Args) (l : Locals) : Prop := ∀ a ∈ l.accesses, a < args.paramsSize

theorem countMsg_readLen : (countMsg b args i l).readLen = l.readLen + args.readLen i := by
  unfold countMsg peek Args.readLen
  split
  · rfl
  · split <;> rfl

theorem countMsg_writeLen : (countMsg b args i l).writeLen = l.writeLen + args.writeLen i := by
  unfold countMsg peek Args.writeLen
  split
  · rfl
  · split <;> rfl

theorem countMsg_cmdId (hb : b.restricted = true) :
    (countMsg b args i l).cmdId = if args.isRead i then l.cmdId else args.params (args.size + l.writeLen) := by
  simp only [countMsg, peek, hb, if_true]
  split <;> rfl

theorem Locals.At.countMsg (h : l.At b args i) : (countMsg b args i l).At b args (i + 1) where
  read := by rw [countMsg_readLen, h.read, Args.received]
  written := by rw [countMsg_writeLen, h.written, Args.written]
  cmd hb := by rw [countMsg_cmdId hb, h.cmd hb, h.written, Args.lastCmd]

theorem Locals.At.start : Locals.At b args 0 ⟨0, 0, 0xff, [1]⟩ := ⟨rfl, rfl, fun _ => rfl⟩

theorem Args.written_mono {i j : Nat} (h : i ≤ j) : args.written i ≤ args.written j := by
  induction h with
  | refl => exact Nat.le_refl _
  | step _ ih => exact Nat.le_trans ih (Nat.le_add_right _ _)

theorem Args.received_mono {i j : Nat} (h : i ≤ j) : args.received i ≤ args.received j := by
  induction h with
  | refl => exact Nat.le_refl _
  | step _ ih => exact Nat.le_trans ih (Nat.le_add_right _ _)

/-- The first `k` messages are handed on, from their places in the request. -/
structure Passed (args : Args) (k : Nat) (r : Response) : Prop where
  transfers : r.transfers = (List.range k).map args.transfer
  bound : k ≤ args.numMsgs
  inLen : r.inLen ≤ args.received args.numMsgs
  complete : r.numMsgs = args.numMsgs → k = args.numMsgs

theorem payloads_eq (k : Nat) :
    ((List.range k).map args.transfer).flatMap args.payload = read args.params args.size (args.written k) := by
  induction k with
  | zero => rfl
  | succ k ih =>
    rw [List.range_succ, List.map_append, List.flatMap_append, ih, Args.written, read_add, List.map_singleton,
      List.flatMap_singleton]
    rfl

theorem Passed.length {k : Nat} {r : Response} (h : Passed args k r) : r.transfers.length = k := by
  rw [h.transfers, List.length_map, List.length_range]

theorem Passed.mem {k : Nat} {r : Response} (h : Passed args k r) {t : Transfer} (ht : t ∈ r.transfers) :
    ∃ i < args.numMsgs, args.transfer i = t := by
  rw [h.transfers, List.mem_map] at ht
  obtain ⟨i, hi, heq⟩ := ht
  exact ⟨i, Nat.lt_of_lt_of_le (List.mem_range.mp hi) h.bound, heq⟩

theorem Passed.inside {k : Nat} {r : Response} (h : Passed args k r)
    (hreads : 2 + args.received args.numMsgs ≤ args.responseMax)
    (hwrites : args.size + args.written args.numMsgs ≤ args.paramsSize) : HandedOnInside args r where
  order := by
    rw [h.length]
    exact h.transfers
  count := by
    rw [h.length]
    exact h.bound
  writes t ht := by
    obtain ⟨i, hi, rfl⟩ := h.mem ht
    have hend : args.written i + args.writeLen i ≤ args.written args.numMsgs := Args.written_mono hi
    have hout : (args.transfer i).out + (args.transfer i).writeLen = args.size + (args.written i + args.writeLen i) :=
      Nat.add_assoc _ _ _
    exact ⟨Nat.le_add_right _ _, hout ▸ Nat.le_trans (Nat.add_le_add_left hend _) hwrites⟩
  reads t ht := by
    obtain ⟨i, hi, rfl⟩ := h.mem ht
    have hend : args.received i + args.readLen i ≤ args.received args.numMsgs := Args.received_mono hi
    exact Nat.le_trans (Nat.add_le_add_left hend _) hreads
  consumed := by
    rw [h.length, h.transfers]
    exact payloads_eq k
  response := Nat.le_trans (Nat.add_le_add_left h.inLen _) hreads
  complete hall := by
    rw [h.length]
    exact h.complete hall

def unlocked : Sys where
  systemIsLocked := false
  batteryIsCutOff := false
  portProtected := fun _ => false

def quiet : Outside where
  i2cXferUnlocked := fun _ _ => .success
  virtualBatteryHandler := fun _ _ => ⟨false, false, true⟩

end ChromeEc.I2c
