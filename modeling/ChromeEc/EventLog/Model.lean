import ChromeEc.Lib.Ring
import Mathlib.Data.BitVec

/- The event log of `common/event_log.c`.

  The log is an array of units of eight bytes. A unit is given by the fields of
  `struct event_log_entry`, also where it holds a part of a payload; the memory behind the
  payload pointer is read in the same units. `size_t` is `BitVec w`. The atomic steps of
  `log_add_event` are functions of their own, from which the function is put together.

  Correspondence (C ↔ Lean):
    `struct event_log_entry` ↔ `LogUnit`
    `CONFIG_EVENT_LOG_SIZE` ↔ `Config`, which has `UNIT_COUNT`
    `log_events`, `log_head`, .. ↔ `Log`
    the arguments of an add ↔ `Event` -/
namespace ChromeEc.EventLog
open Lib

structure LogUnit where
  timestamp : BitVec 32
  type : BitVec 8
  size : BitVec 8
  data : BitVec 16
  deriving DecidableEq

/-- `UNIT_COUNT` is a power of two that has room for the longest entry. -/
structure Config (w : Nat) where
  shift : Nat
  three_le : 3 ≤ shift
  shift_lt : shift < w
  word : 16 ≤ w

variable {w : Nat}

def Config.unitCount (c : Config w) : Nat := 2 ^ c.shift

structure Log (w : Nat) where
  events : Nat → LogUnit
  head : BitVec w
  tail : BitVec w
  tailNext : BitVec w

/-- What is added: the fields of the entry, and the memory that `payload` points to. -/
structure Event where
  entry : LogUnit
  payload : Nat → LogUnit

def zeroUnit : LogUnit := ⟨0, 0, 0, 0⟩

def Log.initial : Log w := ⟨fun _ => zeroUnit, 0, 0, 0⟩

def eventLogSize (size : BitVec 8) : Nat := (size &&& 0x1f#8).toNat

/-- `ENTRY_SIZE(EVENT_LOG_SIZE(size))`, in units. -/
def entrySize (size : BitVec 8) : Nat := 1 + (eventLogSize size + 7) / 8

variable (c : Config w)

/-- `i & UNIT_COUNT_MASK`. -/
def index (i : BitVec w) : Nat := (i &&& BitVec.ofNat w (c.unitCount - 1)).toNat

/-! ## The steps of `log_add_event` -/

def reserve (e : Event) (s : Log w) : BitVec w × Log w :=
  (s.tailNext, { s with tailNext := s.tailNext + BitVec.ofNat w (entrySize e.entry.size) })

/-- The condition of the `while` loop. -/
def outOfSpace (currentTail : BitVec w) (e : Event) (s : Log w) : Bool :=
  BitVec.ofNat w c.unitCount - (currentTail - s.head) < BitVec.ofNat w (entrySize e.entry.size)

def discardOldest (s : Log w) : Log w :=
  { s with head := s.head + BitVec.ofNat w (entrySize (s.events (index c s.head)).size) }

/-- The units up to the physical end that the payload is copied to. -/
def firstPart (currentTail : BitVec w) (e : Event) : Nat :=
  min (entrySize e.entry.size - 1) (c.unitCount - index c currentTail - 1)

/-- The entry and its payload. The second `memcpy` has the length `total_size - first`. -/
def copyEntry (currentTail : BitVec w) (e : Event) (s : Log w) : Log w :=
  let r := index c currentTail
  let first := firstPart c currentTail e
  let header := blit s.events r (fun _ => e.entry) 1
  let copied := blit header (r + 1) e.payload first
  { s with
    events :=
      if first < entrySize e.entry.size - 1 then
        blit copied 0 (fun u => e.payload (first + u)) (entrySize e.entry.size - first)
      else
        copied }

/-- The entry is available if nobody is behind. -/
def publish (currentTail : BitVec w) (s : Log w) : Log w :=
  if currentTail = s.tail then { s with tail := s.tailNext } else s

/-! ## `event_log.c` -/

/-- The `while` loop, which takes at most as many rounds as an entry has units. -/
def makeRoom (currentTail : BitVec w) (e : Event) : Nat → Log w → Log w
  | 0, s => s
  | n + 1, s => if outOfSpace c currentTail e s then makeRoom currentTail e n (discardOldest c s) else s

def logAddEvent (e : Event) (s : Log w) : Log w :=
  let (currentTail, s) := reserve e s
  publish currentTail (copyEntry c currentTail e (makeRoom c currentTail e (entrySize e.entry.size) s))

/-- `EVENT_LOG_NO_ENTRY`. -/
def noEntry : LogUnit := { zeroUnit with type := 0xff }

/-- The two `memcpy`s of `log_dequeue_event`. -/
def readEntry (currentHead : BitVec w) (s : Log w) : List LogUnit :=
  let start := index c currentHead
  let totalSize := entrySize (s.events start).size
  let first := min totalSize (c.unitCount - start)
  window s.events start first ++ window s.events 0 (totalSize - first)

def fixTimestamp (now : BitVec 32) : List LogUnit → List LogUnit
  | [] => []
  | u :: rest => { u with timestamp := now - u.timestamp } :: rest

/-- What is left in `r`, and the log. -/
def logDequeueEvent (now : BitVec 32) (s : Log w) : List LogUnit × Log w :=
  if s.tail = s.head then
    ([noEntry], s)
  else
    let totalSize := entrySize (s.events (index c s.head)).size
    (fixTimestamp now (readEntry c s.head s), { s with head := s.head + BitVec.ofNat w totalSize })

/-! ## The entry of an event -/

def Event.units (e : Event) : List LogUnit := e.entry :: window e.payload 0 (entrySize e.entry.size - 1)

theorem entrySize_bounds (size : BitVec 8) : 1 ≤ entrySize size ∧ entrySize size ≤ 5 := by
  have hle : eventLogSize size ≤ 31 := by
    unfold eventLogSize
    rw [BitVec.toNat_and]
    exact Nat.and_le_right
  unfold entrySize
  omega

@[simp] theorem Event.length_units (e : Event) : e.units.length = entrySize e.entry.size := by
  have hpos := (entrySize_bounds e.entry.size).1
  rw [units, List.length_cons, length_window, Nat.sub_add_cancel hpos]

end ChromeEc.EventLog
