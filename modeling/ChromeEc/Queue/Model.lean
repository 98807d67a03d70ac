import ChromeEc.Lib.Ring
import Mathlib.Algebra.Group.Nat.Defs
import Mathlib.Data.Nat.Init

/- The byte queue of `common/queue.c`.

  `size_t` is `BitVec w` for an arbitrary width, so that the free-running head
  and tail counters wrap as they do on the target. The buffer, and the memories
  that callers pass in, are functions from the byte offset to the byte.

  Correspondence (C ↔ Lean):
    `struct queue` ↔ `Config` (with what `QUEUE()` checks)
    `struct queue_state`, the buffer ↔ `State`
    `queue_policy.add` / `.remove` ↔ entries of `State.notices`
    `struct queue_iterator` ↔ `Iterator`
    a `memcpy` into the buffer ↔ `store`, which also logs the bytes it
      writes and the counters of the moment
  A pointer into the buffer is its byte offset, and `NULL` is `none`. -/
namespace ChromeEc.Queue
open Lib

abbrev Mem := Nat → UInt8

/-- `struct queue`: a power of two of units, whose buffer is an object. -/
structure Config (w : Nat) where
  bufferUnits : BitVec w
  bufferUnitsMask : BitVec w
  unitBytes : BitVec w
  powerOfTwo : bufferUnits.toNat.isPowerOfTwo
  mask_eq : bufferUnitsMask = bufferUnits - 1
  unitBytes_pos : 0 < unitBytes.toNat
  sizeof_lt : bufferUnits.toNat * unitBytes.toNat < 2 ^ w

inductive Notice (w : Nat) where
  | add : BitVec w → Notice w
  | remove : BitVec w → Notice w
  deriving DecidableEq

/-- A write to the buffer: its first byte, its length, and the counters at the
time. -/
structure Write (w : Nat) where
  offset : Nat
  len : Nat
  head : BitVec w
  tail : BitVec w

/-- `struct queue_state` with the buffer. -/
structure State (w : Nat) where
  head : BitVec w
  tail : BitVec w
  bufferedMode : Bool
  buffer : Mem
  notices : List (Notice w)
  writes : List (Write w)

variable {w : Nat}

/-- `MIN` on `size_t`. -/
def MIN (a b : BitVec w) : BitVec w := if a < b then a else b

/-- `memcpy(q->buffer + offset, src, n)`. -/
def store (s : State w) (offset : BitVec w) (src : Mem) (n : BitVec w) : State w :=
  { s with
    buffer := blit s.buffer offset.toNat src n.toNat
    writes := s.writes ++ [⟨offset.toNat, n.toNat, s.head, s.tail⟩] }

/-- `q->policy->add` or `q->policy->remove`. -/
def notify (s : State w) (n : Notice w) : State w := { s with notices := s.notices ++ [n] }

/-! ## `queue.c` -/

def queueInit (s : State w) : State w :=
  { s with head := 0, tail := 0, bufferedMode := false }

def queueEnableBufferedMode (s : State w) : State w := { s with bufferedMode := true }

def queueIsEmpty (s : State w) : Bool := s.head == s.tail

def queueCount (s : State w) : BitVec w := s.tail - s.head

def queueSpace (q : Config w) (s : State w) : BitVec w := q.bufferUnits - queueCount s

/-- `struct queue_chunk`. -/
structure Chunk (w : Nat) where
  count : BitVec w
  buffer : Option (BitVec w)
  deriving DecidableEq

def queueGetWriteChunk (q : Config w) (s : State w) (offset : BitVec w) : Chunk w :=
  let head := s.head &&& q.bufferUnitsMask
  let tail := (s.tail + offset) &&& q.bufferUnitsMask
  let last := if tail < head then head else q.bufferUnits
  if queueSpace q s ≤ offset then
    ⟨0, none⟩
  else
    ⟨last - tail, some (tail * q.unitBytes)⟩

def queueGetReadChunk (q : Config w) (s : State w) : Chunk w :=
  let head := s.head &&& q.bufferUnitsMask
  let tail := s.tail &&& q.bufferUnitsMask
  let last := if queueIsEmpty s then head else if head < tail then tail else q.bufferUnits
  ⟨last - head, some (head * q.unitBytes)⟩

def queueAdvanceHead (s : State w) (count : BitVec w) : BitVec w × State w :=
  let transfer := MIN count (queueCount s)
  (transfer, notify { s with head := s.head + transfer } (.remove transfer))

def queueAdvanceTail (q : Config w) (s : State w) (count : BitVec w) : BitVec w × State w :=
  let transfer := MIN count (queueSpace q s)
  (transfer,
    if 0 < transfer then notify { s with tail := s.tail + transfer } (.add transfer) else s)

def queueAddUnit (q : Config w) (s : State w) (src : Mem) : BitVec w × State w :=
  let tail := s.tail &&& q.bufferUnitsMask
  if queueSpace q s = 0 then
    (0, s)
  else if q.unitBytes = 1 then
    queueAdvanceTail q (store s tail src 1) 1
  else
    queueAdvanceTail q (store s (tail * q.unitBytes) src q.unitBytes) 1

/-- `queue_add_memcpy` with `memcpy`, which is `queue_add_units`. -/
def queueAddUnits (q : Config w) (s : State w) (src : Mem) (count : BitVec w) :
    BitVec w × State w :=
  let transfer := MIN count (queueSpace q s)
  let tail := s.tail &&& q.bufferUnitsMask
  let first := MIN transfer (q.bufferUnits - tail)
  let s₁ := store s (tail * q.unitBytes) src (first * q.unitBytes)
  let s₂ :=
    if first < transfer then
      store s₁ 0 (fun a => src ((first * q.unitBytes).toNat + a))
        ((transfer - first) * q.unitBytes)
    else
      s₁
  queueAdvanceTail q s₂ transfer

def queueFlush (s : State w) : State w :=
  if s.bufferedMode then notify s (.add 0) else s

def queueReadSafe (q : Config w) (s : State w) (dest : Mem) (head transfer : BitVec w) : Mem :=
  let first := MIN transfer (q.bufferUnits - head)
  let dest₁ := blit dest 0 (fun a => s.buffer ((head * q.unitBytes).toNat + a))
    (first * q.unitBytes).toNat
  if first < transfer then
    blit dest₁ (first * q.unitBytes).toNat s.buffer ((transfer - first) * q.unitBytes).toNat
  else
    dest₁

def queueRemoveUnit (q : Config w) (s : State w) (dest : Mem) : BitVec w × Mem × State w :=
  let head := s.head &&& q.bufferUnitsMask
  if queueCount s = 0 then
    (0, dest, s)
  else
    let dest' :=
      if q.unitBytes = 1 then
        blit dest 0 (fun _ => s.buffer head.toNat) 1
      else
        blit dest 0 (fun a => s.buffer ((head * q.unitBytes).toNat + a)) q.unitBytes.toNat
    let r := queueAdvanceHead s 1
    (r.1, dest', r.2)

/-- `queue_remove_memcpy` with `memcpy`, which is `queue_remove_units`. -/
def queueRemoveUnits (q : Config w) (s : State w) (dest : Mem) (count : BitVec w) :
    BitVec w × Mem × State w :=
  let transfer := MIN count (queueCount s)
  let head := s.head &&& q.bufferUnitsMask
  let dest' := queueReadSafe q s dest head transfer
  let r := queueAdvanceHead s transfer
  (r.1, dest', r.2)

/-- `queue_peek_memcpy` with `memcpy`, which is `queue_peek_units`. -/
def queuePeekUnits (q : Config w) (s : State w) (dest : Mem) (i count : BitVec w) :
    BitVec w × Mem :=
  let available := queueCount s
  let transfer := MIN count (available - i)
  if i < available then
    (transfer, queueReadSafe q s dest ((s.head + i) &&& q.bufferUnitsMask) transfer)
  else
    (transfer, dest)

/-! ## The iterator -/

/-- `struct queue_iterator`. -/
structure Iterator (w : Nat) where
  ptr : Option (BitVec w)
  offset : BitVec w
  head : BitVec w
  tail : BitVec w
  deriving DecidableEq

def queueBegin (q : Config w) (s : State w) : Iterator w where
  ptr := if queueIsEmpty s then none
    else some ((s.head &&& q.bufferUnitsMask) * q.unitBytes)
  offset := 0
  head := s.head
  tail := s.tail

def queueNext (q : Config w) (s : State w) (it : Iterator w) : Iterator w :=
  -- The queue has changed since the iterator was created.
  if it.head ≠ s.head ∨ it.tail ≠ s.tail then
    { it with ptr := none }
  -- The iterator is already at the end.
  else if it.ptr = none ∨ it.head + it.offset = it.tail then
    it
  else if it.head + (it.offset + 1) = it.tail then
    { it with offset := it.offset + 1, ptr := none }
  else
    { it with
      offset := it.offset + 1
      ptr := some (((it.head + (it.offset + 1)) &&& q.bufferUnitsMask) * q.unitBytes) }

def unitAt (q : Config w) (s : State w) (p : BitVec w) : List UInt8 :=
  (List.range q.unitBytes.toNat).map fun j => s.buffer (p.toNat + j)

/-- `while (it.ptr) { visit(it.ptr); queue_next(q, &it); }`: the units visited,
or `none` when `fuel` rounds do not finish the loop. -/
def iterate (q : Config w) (s : State w) : Nat → Iterator w → Option (List (List UInt8))
  | 0, it => if it.ptr = none then some [] else none
  | fuel + 1, it =>
    match it.ptr with
    | none => some []
    | some p => (iterate q s fuel (queueNext q s it)).map (unitAt q s p :: ·)

/-! ## Runs -/

/-- A step of a client. `writeChunk` and `readChunk` stand for a call of
`queue_get_write_chunk` or `queue_get_read_chunk` with the client's accesses
through the chunk it returns: `n` units of `src` are written at unit `pos` of the
chunk, or every unit of the chunk is read. `iterate` is a full iteration. -/
inductive Op (w : Nat) where
  | addUnit (src : Mem)
  | addUnits (src : Mem) (count : BitVec w)
  | removeUnit (dest : Mem)
  | removeUnits (dest : Mem) (count : BitVec w)
  | peekUnits (dest : Mem) (i count : BitVec w)
  | writeChunk (offset : BitVec w) (pos n : Nat) (src : Mem)
  | advanceTail (count : BitVec w)
  | readChunk
  | advanceHead (count : BitVec w)
  | iterate
  | enableBufferedMode
  | flush

/-- What a client sees of a step: the value returned, the memory it passed as
`dest` as units, the length of a chunk, the units it read. -/
inductive Obs where
  | returned (n : Nat)
  | copied (n : Nat) (dest : Nat → List UInt8)
  | chunk (count : Nat)
  | units (us : List (List UInt8))
  | stuck
  | silent

/-- What the client must respect: a peek starts inside the queue, and a chunk is
not written past its end. -/
def Allowed (q : Config w) (s : State w) : Op w → Prop
  | .peekUnits _ i _ => i ≤ queueCount s
  | .writeChunk offset pos n _ => pos + n ≤ (queueGetWriteChunk q s offset).count.toNat
  | _ => True

instance (q : Config w) (s : State w) : (op : Op w) → Decidable (Allowed q s op)
  | .peekUnits _ i _ => inferInstanceAs (Decidable (i ≤ queueCount s))
  | .writeChunk offset pos n _ =>
    inferInstanceAs (Decidable (pos + n ≤ (queueGetWriteChunk q s offset).count.toNat))
  | .addUnit _ | .addUnits _ _ | .removeUnit _ | .removeUnits _ _ | .advanceTail _ | .readChunk
  | .advanceHead _ | .iterate | .enableBufferedMode | .flush => inferInstanceAs (Decidable True)

def units (q : Config w) (mem : Mem) : Nat → List UInt8 := block q.unitBytes.toNat mem

def step (q : Config w) (s : State w) : Op w → Obs × State w
  | .addUnit src =>
    let r := queueAddUnit q s src
    (.returned r.1.toNat, r.2)
  | .addUnits src count =>
    let r := queueAddUnits q s src count
    (.returned r.1.toNat, r.2)
  | .removeUnit dest =>
    let r := queueRemoveUnit q s dest
    (.copied r.1.toNat (units q r.2.1), r.2.2)
  | .removeUnits dest count =>
    let r := queueRemoveUnits q s dest count
    (.copied r.1.toNat (units q r.2.1), r.2.2)
  | .peekUnits dest i count =>
    let r := queuePeekUnits q s dest i count
    (.copied r.1.toNat (units q r.2), s)
  | .writeChunk offset pos n src =>
    let c := queueGetWriteChunk q s offset
    (.chunk c.count.toNat,
      match c.buffer with
      | none => s
      | some p => store s (p + BitVec.ofNat w pos * q.unitBytes) src
          (BitVec.ofNat w n * q.unitBytes))
  | .advanceTail count =>
    let r := queueAdvanceTail q s count
    (.returned r.1.toNat, r.2)
  | .readChunk =>
    let c := queueGetReadChunk q s
    (match c.buffer with
      | none => .stuck
      | some p => .units ((List.range c.count.toNat).map fun i =>
          unitAt q s (p + BitVec.ofNat w i * q.unitBytes)), s)
  | .advanceHead count =>
    let r := queueAdvanceHead s count
    (.returned r.1.toNat, r.2)
  | .iterate =>
    (match iterate q s q.bufferUnits.toNat (queueBegin q s) with
      | none => .stuck
      | some us => .units us, s)
  | .enableBufferedMode => (.silent, queueEnableBufferedMode s)
  | .flush => (.silent, queueFlush s)

/-- A run: what the client sees, and the state it ends in. -/
def run (q : Config w) : State w → List (Op w) → List Obs × State w
  | s, [] => ([], s)
  | s, op :: ops =>
    let r := step q s op
    let rest := run q r.2 ops
    (r.1 :: rest.1, rest.2)

/-- Every step of the run is allowed where it is taken. -/
def AllAllowed (q : Config w) : State w → List (Op w) → Prop
  | _, [] => True
  | s, op :: ops => Allowed q s op ∧ AllAllowed q (step q s op).2 ops

instance AllAllowed.decidable (q : Config w) : (s : State w) → (ops : List (Op w)) →
    Decidable (AllAllowed q s ops)
  | _, [] => inferInstanceAs (Decidable True)
  | s, op :: ops =>
    have := AllAllowed.decidable q (step q s op).2 ops
    inferInstanceAs (Decidable (Allowed q s op ∧ AllAllowed q (step q s op).2 ops))

end ChromeEc.Queue
