import ChromeEc.Lib.Steps
import Mathlib.Data.BitVec

/- Overcurrent protection of the USB-C ports: `common/usbc_ocp.c`.

  What the rest of the EC is to do comes back as a list of actions, in the order of the calls.
  A deferred function has the delay that it was last asked for with, until it runs.

  Correspondence (C ↔ Lean):
    `oc_event_cnt_tbl`, `snk_connected_ports`, `port_oc_reset_req` ↔ the fields of `St`
    `clear_oc_tbl_data`, `re_enable_ports_data` ↔ `St.clearIn`, `St.reEnableIn`
    `board_get_usb_pd_port_count()` ↔ `n`

  A port that has had too many overcurrent events stays latched off.

  An observer counts the events of each port and remembers whether the port may be cleared:
  `usbc_ocp_clear_event_counter` was called for it, and it had no event and no new partner
  since. It forgets the events of a port when the cleaner may clear it, and what is below the
  limit whenever the cleaner does.

  The counter is 8 bits wide, and the cleaner takes every port without a partner. An event
  leaves a port without one, so what matters is who asked for the cleaner (`Sound`). -/
namespace ChromeEc.UsbcOcp

abbrev usec : Nat := 1
abbrev msec : Nat := 1000 * usec
abbrev second : Nat := 1000 * msec

def ocpHrCnt : Nat := 2
def ocpMaxCnt : Nat := 4
def ocpCooldownDelayUs : Nat := 2 * second
def pdTSrcRecover : Nat := 760 * msec
def pdTErrorRecovery : Nat := 240 * msec

structure St (n : Nat) where
  ocEventCntTbl : Fin n → BitVec 8
  snkConnectedPorts : Fin n → Bool
  portOcResetReq : Fin n → Bool
  clearIn : Option Nat
  reEnableIn : Option Nat

def St.initial (n : Nat) : St n := ⟨fun _ => 0, fun _ => false, fun _ => false, none, none⟩

inductive Action (n : Nat) where
  | boardOvercurrentEvent (port : Fin n) (isOvercurrented : Bool)
  | pdPowerSupplyReset (port : Fin n)
  | pdSendHardReset (port : Fin n)
  | pdSetErrorRecovery (port : Fin n)
  | pdSendAlertMsg (port : Fin n)

inductive EcError where
  | success
  | inval
  deriving DecidableEq

section

variable {n : Nat}

def port? (n : Nat) (port : Int) : Option (Fin n) :=
  if h : 0 ≤ port ∧ port < n then some ⟨port.toNat, by omega⟩ else none

def set {α : Type} (port : Fin n) (a : α) (f : Fin n → α) : Fin n → α := fun p => if p = port then a else f p

def clearOcTbl (s : St n) : St n :=
  { s with ocEventCntTbl := fun p => if s.snkConnectedPorts p = false then 0 else s.ocEventCntTbl p }

/-- The highest port is served first. -/
def reEnablePorts (s : St n) : List (Action n) × St n :=
  ((List.finRange n).reverse.flatMap fun port =>
      if s.portOcResetReq port then [.boardOvercurrentEvent port false, .pdSendAlertMsg port] else [],
    { s with portOcResetReq := fun _ => false })

/-- What is done about an event when there were `count`, and the delay before its recovery is complete. -/
def recovery (port : Fin n) (count : BitVec 8) : Action n × Option Nat :=
  if ocpMaxCnt ≤ count.toNat then (.pdPowerSupplyReset port, none)
  else if count.toNat ≤ ocpHrCnt then (.pdSendHardReset port, some (pdTSrcRecover + 100 * msec))
  else (.pdSetErrorRecovery port, some (pdTErrorRecovery + 100 * msec))

def usbcOcpAddEvent (port : Int) (s : St n) : EcError × List (Action n) × St n :=
  match port? n port with
  | none => (.inval, [], s)
  | some port =>
    let count := s.ocEventCntTbl port + 1
    let s := { s with
      ocEventCntTbl := set port count s.ocEventCntTbl
      -- the port overcurrented
      snkConnectedPorts := set port false s.snkConnectedPorts }
    let (action, delay) := recovery port count
    let s := match delay with
      | none => s
      | some delay => { s with portOcResetReq := set port true s.portOcResetReq, reEnableIn := some delay }
    (.success, [.boardOvercurrentEvent port true, action], s)

def usbcOcpClearEventCounter (port : Int) (s : St n) : EcError × St n :=
  match port? n port with
  | none => (.inval, s)
  | some port => (.success, if s.ocEventCntTbl port ≠ 0 then { s with clearIn := some ocpCooldownDelayUs } else s)

def usbcOcpSnkIsConnected (port : Int) (connected : Bool) (s : St n) : St n :=
  match port? n port with
  | none => s
  | some port => { s with snkConnectedPorts := set port connected s.snkConnectedPorts }

/-! ## Calls in any order -/

inductive Call where
  | addEvent (port : Int)
  | clearEventCounter (port : Int)
  | snkIsConnected (port : Int) (connected : Bool)
  | clearOcTbl
  | reEnablePorts

/-- A deferred function runs only when it was asked for, and then not again. -/
def step (n : Nat) : Call → St n → Option (St n)
  | .addEvent port, s => some (usbcOcpAddEvent port s).2.2
  | .clearEventCounter port, s => some (usbcOcpClearEventCounter port s).2
  | .snkIsConnected port connected, s => some (usbcOcpSnkIsConnected port connected s)
  | .clearOcTbl, s => s.clearIn.map fun _ => clearOcTbl { s with clearIn := none }
  | .reEnablePorts, s => s.reEnableIn.map fun _ => (reEnablePorts { s with reEnableIn := none }).2

end

/-! ## The limit -/

open Lib Steps

variable {n : Nat} {s s' : St n} {call : Call} {p q : Fin n}

structure Seen (n : Nat) where
  events : Fin n → Nat
  due : Fin n → Bool

def Seen.initial (n : Nat) : Seen n := ⟨fun _ => 0, fun _ => false⟩

def Seen.count (a : Seen n) (port : Fin n) : Seen n :=
  { a with events := set port (a.events port + 1) a.events, due := set port false a.due }

def Seen.clear (a : Seen n) (connected : Fin n → Bool) : Seen n :=
  { a with events := fun p => if connected p = false ∧ (a.due p = true ∨ a.events p < ocpMaxCnt) then 0 else a.events p }

def watch (a : Seen n) : St n × Call → Seen n
  | (_, .addEvent port) => ((port? n port).map a.count).getD a
  | (_, .clearEventCounter port) => ((port? n port).map fun p => { a with due := set p true a.due }).getD a
  | (_, .snkIsConnected port connected) =>
    ((port? n port).map fun p => if connected then { a with due := set p false a.due } else a).getD a
  | (s, .clearOcTbl) => a.clear s.snkConnectedPorts
  | (_, .reEnablePorts) => a

/-- The event of a port is not its 256th, and the cleaner runs when each port that is latched off has a partner or may be
cleared. -/
def Sound (a : Seen n) : St n × Call → Prop
  | (s, .addEvent port) => ∀ p ∈ port? n port, s.ocEventCntTbl p ≠ 255
  | (s, .clearOcTbl) => ∀ p, ocpMaxCnt ≤ (s.ocEventCntTbl p).toNat → s.snkConnectedPorts p = true ∨ a.due p = true
  | _ => True

def Counts (s : St n) (a : Seen n) : Prop := ∀ p, (s.ocEventCntTbl p).toNat = a.events p

instance {a : Seen n} : ∀ x : St n × Call, Decidable (Sound a x)
  | (s, .addEvent port) => inferInstanceAs (Decidable (∀ p ∈ port? n port, s.ocEventCntTbl p ≠ 255))
  | (s, .clearOcTbl) => inferInstanceAs (Decidable (∀ p, ocpMaxCnt ≤ (s.ocEventCntTbl p).toNat →
      s.snkConnectedPorts p = true ∨ a.due p = true))
  | (_, .clearEventCounter _) => isTrue trivial
  | (_, .snkIsConnected _ _) => isTrue trivial
  | (_, .reEnablePorts) => isTrue trivial

end ChromeEc.UsbcOcp
