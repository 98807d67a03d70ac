import Mathlib.Data.Finset.Card
import Mathlib.Data.Fintype.Card
import Mathlib.Data.List.FinRange

/- Which source ports get 3.0 A: `common/usbc/usb_pd_dpm.c`.

  A bitmap of ports is a set of ports. What the rest of the EC is to do comes back as a list of
  actions, in the order of the calls. The three loops of `balance_source_ports` differ in the
  ports that they serve and in those that they may downgrade for them, and are one
  (`allocate`). BIST shared test mode is off.

  Correspondence (C ↔ Lean):
    `max_current_claimed`, `sink_max_pdo_requested`,
    `source_frs_max_requested`, `non_pd_sink_max_requested`,
    `deferred_waiting` ↔ the fields of `St`
    `balance_source_ports_data` ↔ `St.deferredIn`
    `CONFIG_USB_PD_3A_PORTS`, `CONFIG_USB_PD_FRS` ↔ `Config`
    `LOWEST_PORT`, `balance_source_ports`, `dpm_evaluate_sink_fixed_pdo`, `dpm_add_non_pd_sink`,
      `dpm_remove_sink`, `dpm_remove_source` ↔ the same in camelCase -/
namespace ChromeEc.UsbcDpm

abbrev U32 := BitVec 32

abbrev msec : Nat := 1000

def pdTSinkAdj : Nat := 55 * msec

structure Config where
  usbPd3aPorts : Nat
  usbPdFrs : Bool

abbrev Ports (n : Nat) := Finset (Fin n)

structure St (n : Nat) where
  maxCurrentClaimed : Ports n
  sinkMaxPdoRequested : Ports n
  sourceFrsMaxRequested : Ports n
  nonPdSinkMaxRequested : Ports n
  deferredWaiting : Bool
  deferredIn : Option Nat
  deriving DecidableEq

def St.initial (n : Nat) : St n := ⟨∅, ∅, ∅, ∅, false, none⟩

inductive TcpcRp where
  | default
  | a3
  deriving DecidableEq

inductive DpmRequest where
  | frsDetEnable
  | frsDetDisable
  deriving DecidableEq

inductive Action (n : Nat) where
  | selectSrcCurrentLimitRp (port : Fin n) (rp : TcpcRp)
  | dpmRequest (port : Fin n) (request : DpmRequest)
  deriving DecidableEq

variable {n : Nat}

def lowestPort (p : Ports n) : Option (Fin n) := (List.finRange n).find? (· ∈ p)

def inOrder (p : Ports n) : List (Fin n) := (List.finRange n).filter (· ∈ p)

/-! ## Balance -/

/-- Ports that may be downgraded, and how long that takes. -/
structure Lower (n : Nat) where
  ports : Ports n
  downgrade : Fin n → Action n
  wait : Nat

def nonPd (s : St n) : Lower n := ⟨s.nonPdSinkMaxRequested, fun p => .selectSrcCurrentLimitRp p .default, pdTSinkAdj⟩

def frs (s : St n) : Lower n := ⟨s.sourceFrsMaxRequested, fun p => .dpmRequest p .frsDetDisable, 20 * msec⟩

/-- How a loop ends: it goes on to the next one, or to the end at once, or a port was downgraded. -/
inductive End where
  | next
  | unlock
  | deferred (wait : Nat)
  deriving DecidableEq

/-- The first port of the first kind that has a port which is claimed. -/
def pick (lower : List (Lower n)) (claimed : Ports n) : Option (Lower n × Fin n) :=
  lower.findSome? fun l => (lowestPort (l.ports ∩ claimed)).map fun p => (l, p)

/-- A loop over new ports. -/
def allocate (cfg : Config) (grant : Fin n → Action n) (lower : List (Lower n)) :
    List (Fin n) → Ports n → List (Action n) × End × Ports n
  | [], claimed => ([], .next, claimed)
  | port :: ports, claimed =>
    if claimed.card < cfg.usbPd3aPorts then
      let r := allocate cfg grant lower ports (insert port claimed)
      (grant port :: r.1, r.2)
    else
      match pick lower claimed with
      | some (l, p) => ([l.downgrade p], .deferred l.wait, claimed.erase p)
      | none => ([], .unlock, claimed)

/-- Allocate 3.0 A to new PD sink ports. -/
def allocateSinks (cfg : Config) (s : St n) (claimed : Ports n) : List (Action n) × End × Ports n :=
  allocate cfg (fun p => .selectSrcCurrentLimitRp p .a3) [nonPd s, frs s]
    (inOrder (s.sinkMaxPdoRequested \ claimed)) claimed

def allocateFrs (cfg : Config) (s : St n) (claimed : Ports n) : List (Action n) × End × Ports n :=
  allocate cfg (fun p => .dpmRequest p .frsDetEnable) [nonPd s] (inOrder (s.sourceFrsMaxRequested \ claimed)) claimed

def allocateNonPd (cfg : Config) (s : St n) (claimed : Ports n) : List (Action n) × End × Ports n :=
  allocate cfg (fun p => .selectSrcCurrentLimitRp p .a3) [] (inOrder (s.nonPdSinkMaxRequested \ claimed)) claimed

/-- One loop after the other, unless the first one goes to the end. -/
def andThen (r : List (Action n) × End × Ports n) (loop : Ports n → List (Action n) × End × Ports n) :
    List (Action n) × End × Ports n :=
  match r with
  | (actions, .next, claimed) =>
    let r' := loop claimed
    (actions ++ r'.1, r'.2)
  | r => r

def St.requested (s : St n) : Ports n := s.sinkMaxPdoRequested ∪ s.sourceFrsMaxRequested ∪ s.nonPdSinkMaxRequested

/-- The loops, after the ports that no longer require 3.0 A are removed. -/
def loops (cfg : Config) (s : St n) : List (Action n) × End × Ports n :=
  let removedPorts := s.maxCurrentClaimed \ s.requested
  andThen (andThen (allocateSinks cfg s (s.maxCurrentClaimed \ removedPorts)) (allocateFrs cfg s)) (allocateNonPd cfg s)

def balanceSourcePorts (cfg : Config) (inDeferredContext : Bool) (s : St n) : List (Action n) × St n :=
  let s := if inDeferredContext then { s with deferredWaiting := false } else s
  if s.deferredWaiting then ([], s)
  else
    match loops cfg s with
    | (actions, .deferred wait, claimed) =>
      (actions, { s with maxCurrentClaimed := claimed, deferredWaiting := true, deferredIn := some wait })
    | (actions, _, claimed) => (actions, { s with maxCurrentClaimed := claimed })

/-! ## Requests -/

inductive PowerRole where
  | sink
  | source
  deriving DecidableEq

inductive PdRev where
  | rev10
  | rev20
  | rev30
  deriving DecidableEq

def pdoTypeMask : U32 := 3 <<< 30
def pdoTypeFixed : U32 := 0 <<< 30
def pdoFixedDualRole : U32 := 1 <<< 29
def pdoFixedFrsCurrMask : U32 := 3 <<< 23
def pdoFixedFrsCurrDfltUsbPower : U32 := 1 <<< 23
def pdoFixedFrsCurr1a5At5v : U32 := 2 <<< 23

def pdoFixedVoltage (pdo : U32) : U32 := (pdo >>> 10 &&& 0x3FF) * 50

def pdoFixedCurrent (pdo : U32) : U32 := (pdo &&& 0x3FF) * 10

def dpmEvaluateSinkFixedPdo (cfg : Config) (port : Fin n) (vsafe5vPdo : U32) (role : PowerRole) (rev : PdRev) (s : St n) :
    List (Action n) × St n :=
  if vsafe5vPdo &&& pdoTypeMask ≠ pdoTypeFixed then ([], s)
  else if pdoFixedVoltage vsafe5vPdo ≠ 5000 then ([], s)
  else if role = .source then
    if cfg.usbPd3aPorts = 0 then ([], s)
    else if pdoFixedCurrent vsafe5vPdo ≤ 1500 then ([], s)
    else balanceSourcePorts cfg false { s with sinkMaxPdoRequested := insert port s.sinkMaxPdoRequested }
  else
    let frsCurrent := vsafe5vPdo &&& pdoFixedFrsCurrMask
    if cfg.usbPdFrs = false then ([], s)
    else if rev = .rev20 then ([], s)
    else if vsafe5vPdo &&& pdoFixedDualRole ≠ 0 ∧ frsCurrent ≠ 0 then
      -- FRS is always enabled when 3.0 A is not needed
      if frsCurrent = pdoFixedFrsCurrDfltUsbPower ∨ frsCurrent = pdoFixedFrsCurr1a5At5v then
        ([.dpmRequest port .frsDetEnable], s)
      else if cfg.usbPd3aPorts = 0 then ([], s)
      else balanceSourcePorts cfg false { s with sourceFrsMaxRequested := insert port s.sourceFrsMaxRequested }
    else ([], s)

def dpmAddNonPdSink (cfg : Config) (port : Fin n) (s : St n) : List (Action n) × St n :=
  if cfg.usbPd3aPorts = 0 then ([], s)
  else balanceSourcePorts cfg false { s with nonPdSinkMaxRequested := insert port s.nonPdSinkMaxRequested }

def dpmRemoveSink (cfg : Config) (port : Fin n) (s : St n) : List (Action n) × St n :=
  if cfg.usbPd3aPorts = 0 then ([], s)
  else if port ∉ s.sinkMaxPdoRequested ∧ port ∉ s.nonPdSinkMaxRequested then ([], s)
  else
    let r := balanceSourcePorts cfg false { s with
      sinkMaxPdoRequested := s.sinkMaxPdoRequested.erase port
      nonPdSinkMaxRequested := s.nonPdSinkMaxRequested.erase port }
    (.selectSrcCurrentLimitRp port .default :: r.1, r.2)

def dpmRemoveSource (cfg : Config) (port : Fin n) (s : St n) : List (Action n) × St n :=
  if cfg.usbPd3aPorts = 0 then ([], s)
  else if cfg.usbPdFrs = false then ([], s)
  else if port ∉ s.sourceFrsMaxRequested then ([], s)
  else balanceSourcePorts cfg false { s with sourceFrsMaxRequested := s.sourceFrsMaxRequested.erase port }

/-! ## Calls in any order -/

inductive Call (n : Nat) where
  | evaluateSinkFixedPdo (port : Fin n) (vsafe5vPdo : U32) (role : PowerRole) (rev : PdRev)
  | addNonPdSink (port : Fin n)
  | removeSink (port : Fin n)
  | removeSource (port : Fin n)
  | deferred

def fire (cfg : Config) (s : St n) : List (Action n) × St n := balanceSourcePorts cfg true { s with deferredIn := none }

/-- The deferred function runs only when it was asked for. -/
def perform (cfg : Config) : Call n → St n → Option (List (Action n) × St n)
  | .evaluateSinkFixedPdo port pdo role rev, s => some (dpmEvaluateSinkFixedPdo cfg port pdo role rev s)
  | .addNonPdSink port, s => some (dpmAddNonPdSink cfg port s)
  | .removeSink port, s => some (dpmRemoveSink cfg port s)
  | .removeSource port, s => some (dpmRemoveSource cfg port s)
  | .deferred, s => s.deferredIn.map fun _ => fire cfg s

/-- No port is a sink and an FRS source at once. -/
def St.Apart (s : St n) : Prop := Disjoint s.sourceFrsMaxRequested (s.sinkMaxPdoRequested ∪ s.nonPdSinkMaxRequested)

instance {s : St n} : Decidable s.Apart := inferInstanceAs (Decidable (Disjoint _ _))

def step (cfg : Config) (call : Call n) (s : St n) : Option (St n) :=
  (perform cfg call s).bind fun r => if r.2.Apart then some r.2 else none

end ChromeEc.UsbcDpm
