import ChromeEc.Lib.RoundRobin
import Mathlib.Data.BitVec

/- The event bits and the interrupt of `common/mkbp_event.c`.

  The event types are the numbers below `EC_MKBP_EVENT_COUNT`. A critical section under
  `state.lock` is a function of its own, and the functions of the source are put together
  from these.

  Correspondence (C ↔ Lean):
    `struct mkbp_state` ↔ `EventState`
    `force_mkbp_if_events` is scheduled ↔ `EventState.forceScheduled`
    `mkbp_set_host_active(1, ..)` succeeds ↔ `Env.setHostActive`
    `host_is_sleeping`, `host_get_events`, masks ↔ the other fields of `Env`
  The count of AP communication failures is only printed, and the time of the interrupt is
  not read here; neither is modelled. -/
namespace ChromeEc.Mkbp
open Lib

/-- `EC_MKBP_EVENT_COUNT`. -/
abbrev eventCount : Nat := 13

/-- `enum ec_mkbp_event`, with names for the types that are told apart here. -/
abbrev EventType := Fin eventCount

namespace EventType
def keyMatrix : EventType := 0
def hostEvent : EventType := 1
def button : EventType := 3
def switch : EventType := 4
def sysrq : EventType := 6
def hostEvent64 : EventType := 7
end EventType

inductive InterruptState where
  | inactive
  | inactiveToActive
  | active
  deriving DecidableEq

structure EventState where
  events : BitVec 32
  interrupt : InterruptState
  interruptId : BitVec 8
  failedAttempts : BitVec 8
  forceScheduled : Bool
  deriving DecidableEq

/-- What is found outside of this file. The masks are there if the board has them. -/
structure Env where
  hostIsSleeping : Bool
  hostEvents : BitVec 32
  mkbpEventWakeMask : Option (BitVec 32)
  mkbpHostEventWakeMask : Option (BitVec 32)
  setHostActive : Bool

def bit (n : Nat) : BitVec 32 := 1#32 <<< n

def EventState.initial : EventState := ⟨0, .inactive, 0, 0, false⟩

/-! ## Sending an interrupt -/

def skipInterrupt (e : Env) (eventsToAdd : BitVec 32) : Bool :=
  let skip := match e.mkbpHostEventWakeMask with
    | none => false
    | some mask =>
      -- `==`, not `&`: a host event together with another event is not skipped
      (eventsToAdd == bit EventType.hostEvent || eventsToAdd == bit EventType.hostEvent64) &&
        (e.hostIsSleeping && e.hostEvents &&& mask == 0)
  match e.mkbpEventWakeMask with
  | none => skip
  | some mask => skip || (e.hostIsSleeping && eventsToAdd &&& mask == 0)

/-- The first critical section of `activate_mkbp_with_events`: the id of the interrupt that is to be
sent, if one is. -/
def addEvents (eventsToAdd : BitVec 32) (skip : Bool) (s : EventState) : Option (BitVec 8) × EventState :=
  let events := s.events ||| eventsToAdd
  let skip := skip && events &&& bit EventType.keyMatrix == 0
  if events ≠ 0#32 ∧ s.interrupt = .inactive ∧ skip = false then
    (some (s.interruptId + 1),
      { s with events, interrupt := .inactiveToActive, interruptId := s.interruptId + 1 })
  else
    (none, { s with events })

/-- The second critical section of `activate_mkbp_with_events`, after the interrupt was sent:
whether to schedule the deferred call. -/
def finishInterrupt (sent : Bool) (interruptId : BitVec 8) (s : EventState) : Bool × EventState :=
  if s.interrupt = .inactiveToActive ∧ interruptId = s.interruptId then
    (true, { s with interrupt := if sent then .active else .inactive })
  else
    (false, s)

/-- `hook_call_deferred(&force_mkbp_if_events_data, SECOND)`. -/
def scheduleForce (s : EventState) : EventState := { s with forceScheduled := true }

/-- `hook_call_deferred(&force_mkbp_if_events_data, -1)`. -/
def cancelForce (s : EventState) : EventState := { s with forceScheduled := false }

def activateMkbpWithEvents (e : Env) (eventsToAdd : BitVec 32) (s : EventState) : EventState :=
  match addEvents eventsToAdd (skipInterrupt e eventsToAdd) s with
  | (none, s) => s
  | (some interruptId, s) =>
    match finishInterrupt e.setHostActive interruptId s with
    | (true, s) => scheduleForce s
    | (false, s) => s

/-- The critical section of `force_mkbp_if_events`: whether to try once more. -/
def forceCheck (s : EventState) : Bool × EventState :=
  match s.interrupt with
  | .inactive => (true, s)
  | .active =>
    if s.failedAttempts + 1 < 3 then
      (true, { s with interrupt := .inactive, failedAttempts := s.failedAttempts + 1 })
    else
      (false, { s with interrupt := .inactive, failedAttempts := 0 })
  | .inactiveToActive => (false, s)

def forceMkbpIfEvents (e : Env) (s : EventState) : EventState :=
  match forceCheck s with
  | (true, s) => activateMkbpWithEvents e 0#32 s
  | (false, s) => s

def mkbpSendEvent (e : Env) (eventType : EventType) (s : EventState) : Bool × EventState :=
  (true, activateMkbpWithEvents e (bit eventType) s)

/-! ## Taking an event -/

/-- The critical section of `set_inactive_if_no_events`. -/
def clearIfNoEvents (s : EventState) : Bool × EventState :=
  if s.events = 0#32 then
    (true, { s with interrupt := .inactive, failedAttempts := 0 })
  else
    (false, s)

def setInactiveIfNoEvents (s : EventState) : Bool × EventState :=
  match clearIfNoEvents s with
  | (true, s) => (true, cancelForce s)
  | (false, s) => (false, s)

def takeEventIfSet (eventType : Nat) (s : EventState) : Bool × EventState :=
  (s.events &&& bit eventType != 0, { s with events := s.events &&& ~~~bit eventType })

/-- The round-robin `for` loop of `mkbp_get_next_event`: `n` types are left to try, from `i` on. -/
def takeNext (last : Nat) : Nat → Nat → EventState → Option Nat × EventState
  | 0, _, s => (none, s)
  | n + 1, i, s =>
    match takeEventIfSet ((last + i) % eventCount) s with
    | (true, s) => (some i, s)
    | (false, s) => takeNext last n (i + 1) s

def restoreEvent (evt : Nat) (s : EventState) : EventState := { s with events := s.events ||| bit evt }

/-! ## The bits -/

theorem getLsbD_bit (n i : Nat) : (bit n).getLsbD i = (decide (i < 32) && decide (i = n)) := by
  rw [bit, BitVec.getLsbD_shiftLeft, BitVec.getLsbD_one]
  by_cases hi : i < 32 <;> by_cases hn : i < n <;> simp [hi, hn] <;> omega

theorem and_bit_ne_zero (x : BitVec 32) {n : Nat} (hn : n < 32) : (x &&& bit n != 0) = x.getLsbD n := by
  cases h : x.getLsbD n with
  | true =>
    rw [bne_iff_ne]
    intro hzero
    have hbit := congrArg (BitVec.getLsbD · n) hzero
    rw [BitVec.getLsbD_and, getLsbD_bit, h, decide_eq_true hn, decide_eq_true rfl] at hbit
    simp at hbit
  | false =>
    rw [bne_eq_false_iff_eq]
    apply BitVec.eq_of_getLsbD_eq
    intro i hi
    rw [BitVec.getLsbD_and, getLsbD_bit]
    by_cases hin : i = n <;> simp [hin, h]

theorem and_not_bit {x : BitVec 32} {n : Nat} (h : x.getLsbD n = false) : x &&& ~~~bit n = x := by
  apply BitVec.eq_of_getLsbD_eq
  intro i hi
  rw [BitVec.getLsbD_and, BitVec.getLsbD_not, getLsbD_bit]
  by_cases hin : i = n <;> simp [hin, hi, h]

theorem and_not_bit_or {x : BitVec 32} {n : Nat} (h : x.getLsbD n = true) : x &&& ~~~bit n ||| bit n = x := by
  apply BitVec.eq_of_getLsbD_eq
  intro i hi
  rw [BitVec.getLsbD_or, BitVec.getLsbD_and, BitVec.getLsbD_not, getLsbD_bit]
  obtain rfl | hin := eq_or_ne i n
  · simp [hi, h]
  · simp [hin, hi]

theorem getLsbD_and_not_bit (x : BitVec 32) (n i : Nat) :
    (x &&& ~~~bit n).getLsbD i = (x.getLsbD i && decide (i ≠ n)) := by
  rw [BitVec.getLsbD_and, BitVec.getLsbD_not, getLsbD_bit]
  by_cases hi : i < 32
  · by_cases hin : i = n <;> simp [hin, hi]
  · rw [BitVec.getLsbD_of_ge x i (by omega), Bool.false_and, Bool.false_and]

/-! ## What the functions do with the events -/

variable {s : EventState}

theorem addEvents_events (eventsToAdd : BitVec 32) (skip : Bool) :
    (addEvents eventsToAdd skip s).2.events = s.events ||| eventsToAdd := by
  unfold addEvents
  dsimp only
  split <;> rfl

theorem finishInterrupt_events (sent : Bool) (interruptId : BitVec 8) :
    (finishInterrupt sent interruptId s).2.events = s.events := by
  unfold finishInterrupt
  split <;> rfl

@[simp] theorem activate_events (e : Env) (eventsToAdd : BitVec 32) :
    (activateMkbpWithEvents e eventsToAdd s).events = s.events ||| eventsToAdd := by
  unfold activateMkbpWithEvents
  have hadd := addEvents_events (s := s) eventsToAdd (skipInterrupt e eventsToAdd)
  generalize addEvents eventsToAdd (skipInterrupt e eventsToAdd) s = r at hadd ⊢
  obtain ⟨_ | interruptId, t⟩ := r
  · exact hadd
  · have hfinish := finishInterrupt_events (s := t) e.setHostActive interruptId
    generalize hr : finishInterrupt e.setHostActive interruptId t = r at hfinish
    obtain ⟨_ | _, u⟩ := r
    · simpa only [hr] using hfinish.trans hadd
    · simpa only [hr, scheduleForce] using hfinish.trans hadd

@[simp] theorem sendEvent_events (e : Env) (eventType : EventType) :
    (mkbpSendEvent e eventType s).2.events = s.events ||| bit eventType := activate_events e _

@[simp] theorem forceCheck_events : (forceCheck s).2.events = s.events := by
  unfold forceCheck
  split
  · rfl
  · split <;> rfl
  · rfl

@[simp] theorem force_events (e : Env) : (forceMkbpIfEvents e s).events = s.events := by
  unfold forceMkbpIfEvents
  have hcheck := forceCheck_events (s := s)
  generalize forceCheck s = r at hcheck
  obtain ⟨_ | _, t⟩ := r
  · exact hcheck
  · rw [activate_events, BitVec.or_zero]
    exact hcheck

@[simp] theorem setInactive_events : (setInactiveIfNoEvents s).2.events = s.events := by
  unfold setInactiveIfNoEvents clearIfNoEvents
  by_cases h : s.events = 0#32 <;> simp [h, cancelForce]

theorem setInactive_fst : (setInactiveIfNoEvents s).1 = decide (s.events = 0#32) := by
  unfold setInactiveIfNoEvents clearIfNoEvents
  by_cases h : s.events = 0#32 <;> simp [h]

theorem takeNext_eq (last n i : Nat) : takeNext last n i s =
    match firstFrom eventCount s.events.getLsbD last n i with
    | none => (none, s)
    | some k => (some k, { s with events := s.events &&& ~~~bit ((last + k) % eventCount) }) := by
  induction n generalizing i with
  | zero => rfl
  | succ n ih =>
    have hlt : (last + i) % eventCount < 32 := Nat.lt_trans (Nat.mod_lt _ (by decide)) (by decide)
    rw [takeNext, takeEventIfSet, firstFrom, and_bit_ne_zero _ hlt]
    cases hbit : s.events.getLsbD ((last + i) % eventCount) with
    | true => rfl
    | false =>
      rw [and_not_bit hbit]
      exact ih (i + 1)

end ChromeEc.Mkbp
