import Mathlib.Algebra.Group.Nat.Defs
import ChromeEc.Lib.Links

/- The shared-memory allocator (`common/shmalloc.c`) on a 32-bit target.

  Memory is a heap of `struct shm_buffer` headers, one at the first address of
  every chunk: the two link fields (`Lib.Links`) and `buffer_size`. Pointers and
  `size_t` are naturals below `2 ^ 32` with wrapping arithmetic, `NULL` is
  address 0, and following `NULL` is the fault `nullDeref`. A walk over a chain
  that makes more steps than there are addresses is going round a cycle; it is
  the fault `diverges`.

  Correspondence (C ↔ Lean):
    `struct shm_buffer` ↔ `Shm.links`, `Shm.bufferSize`
    `shared_mem_init`, `shared_mem_size`, `shared_mem_acquire`, `shared_mem_release` ↔ the same in camelCase
    `do_release` ↔ `doRelease` (`takeAllocced`, then `bringBack`)
    `do_acquire` ↔ `doAcquire` (`findCandidate`, then `takeFree`)
  The mutex is not modelled: every operation below is one critical section. The
  coverage bits (`set_map_bit`) are empty outside the unit test. -/
namespace ChromeEc.Shmalloc
open Lib

inductive Fault where
  | nullDeref
  | diverges
  deriving DecidableEq, Repr

abbrev NULL : Nat := 0

/-- The number of addresses, and of `size_t` values. -/
def addrSpace : Nat := 2 ^ 32

/-- `size_t` and pointer addition. -/
def wadd (a b : Nat) : Nat := (a + b) % addrSpace

/-- `sizeof(struct shm_buffer)`. -/
def headerSize : Nat := 12

/-- The initial headroom of `do_acquire`: more than there ever is. -/
def maxHeadroom : Nat := 0x10000000

/-- `EC_SUCCESS`, `EC_ERROR_BUSY` and `EC_ERROR_INVAL`. -/
inductive Ec where
  | success
  | busy
  | inval
  deriving DecidableEq, Repr

/-- The allocator's variables and the chunk headers. -/
structure Shm where
  links : Links Nat
  bufferSize : Nat → Nat
  freeBufChain : Nat
  alloccedBufChain : Nat
  maxAllocatedSize : Int

namespace Shm

/-- `p->next_buffer`. -/
def next (s : Shm) (p : Nat) : Except Fault Nat :=
  if p = NULL then throw .nullDeref else pure (s.links.next p)

/-- `p->buffer_size`. -/
def size (s : Shm) (p : Nat) : Except Fault Nat :=
  if p = NULL then throw .nullDeref else pure (s.bufferSize p)

/-- `p->prev_buffer`. -/
def prev (s : Shm) (p : Nat) : Except Fault Nat :=
  if p = NULL then throw .nullDeref else pure (s.links.prev p)

/-- `p->next_buffer = v`. -/
def setNext (s : Shm) (p v : Nat) : Except Fault Shm :=
  if p = NULL then throw .nullDeref else pure { s with links := s.links.setNext p v }

/-- `p->prev_buffer = v`. -/
def setPrev (s : Shm) (p v : Nat) : Except Fault Shm :=
  if p = NULL then throw .nullDeref else pure { s with links := s.links.setPrev p v }

/-- `p->buffer_size = v`. -/
def setSize (s : Shm) (p v : Nat) : Except Fault Shm :=
  if p = NULL then throw .nullDeref
  else pure { s with bufferSize := Function.update s.bufferSize p v }

/-- `if (p) p->prev_buffer = v`. -/
def setPrevIf (s : Shm) (p v : Nat) : Except Fault Shm :=
  if p ≠ NULL then s.setPrev p v else pure s

end Shm

/-- The allocator after `shared_mem_init` on the arena `[base, base + len)`; the
memory held anything before, and the static variables are zero. -/
def sharedMemInit (links : Links Nat) (sizes : Nat → Nat) (base len : Nat) : Shm where
  links := (links.setNext base NULL).setPrev base NULL
  bufferSize := Function.update sizes base len
  freeBufChain := base
  alloccedBufChain := NULL
  maxAllocatedSize := 0

/-! ## Release -/

/-- The walk of the sanity check: `pfb` when it reaches `ptr`, else `NULL`. -/
def findAllocced (s : Shm) (ptr : Nat) : Nat → Nat → Except Fault Nat
  | 0, _ => throw .diverges
  | fuel + 1, pfb =>
    if pfb = NULL then pure NULL
    else if pfb = ptr then pure pfb
    else do findAllocced s ptr fuel (← s.next pfb)

/-- Take the buffer out of the allocated buffers chain; `none` when the sanity
check does not find it there. -/
def takeAllocced (s : Shm) (ptr : Nat) : Except Fault (Option Shm) := do
  if ptr = s.alloccedBufChain then
    let s ← s.setPrevIf (← s.next ptr) NULL
    let n ← s.next ptr
    return some { s with alloccedBufChain := n }
  else
    let pfb ← findAllocced s ptr addrSpace (← s.next s.alloccedBufChain)
    if pfb = NULL then return none
    let s ← s.setNext (← s.prev ptr) (← s.next ptr)
    let s ← s.setPrevIf (← s.next ptr) (← s.prev ptr)
    return some s

/-- The highest free buffer below `ptr`, walking up from `pfb`. -/
def findSpot (s : Shm) (ptr : Nat) : Nat → Nat → Except Fault Nat
  | 0, _ => throw .diverges
  | fuel + 1, pfb => do
    let n ← s.next pfb
    if n ≠ NULL ∧ n < ptr then findSpot s ptr fuel n else pure pfb

/-- Bring a released buffer that lies below the whole free chain back. -/
def bringBackFirst (s : Shm) (ptr releasedSize : Nat) : Except Fault Shm := do
  let pfb := wadd ptr releasedSize
  let s ←
    if pfb = s.freeBufChain then
      -- Merge the two buffers.
      let s ← s.setSize ptr (wadd (← s.size s.freeBufChain) releasedSize)
      s.setNext ptr (← s.next s.freeBufChain)
    else
      let s ← s.setSize ptr releasedSize
      let s ← s.setNext ptr s.freeBufChain
      s.setPrev s.freeBufChain ptr
  let s ← s.setPrevIf (← s.next ptr) ptr
  let s ← s.setPrev ptr NULL
  return { s with freeBufChain := ptr }

/-- Bring a released buffer back above the free buffer `pfb`. -/
def bringBackAbove (s : Shm) (ptr releasedSize pfb : Nat) : Except Fault Shm := do
  let top := wadd pfb (← s.size pfb)
  if top = ptr then
    -- Adjacent to the free buffer below it.
    let s ← s.setSize pfb (wadd (← s.size pfb) releasedSize)
    let top := wadd ptr releasedSize
    if top = (← s.next pfb) then
      -- The exact gap between two free buffers.
      let s ← s.setSize pfb (wadd (← s.size pfb) (← s.size (← s.next pfb)))
      let s ← s.setNext pfb (← s.next (← s.next pfb))
      s.setPrevIf (← s.next pfb) pfb
    else return s
  else
    let top := wadd ptr releasedSize
    let s ←
      if top = (← s.next pfb) then
        -- Adjacent with the one right above it.
        let s ← s.setSize ptr (wadd releasedSize (← s.size (← s.next pfb)))
        s.setNext ptr (← s.next (← s.next pfb))
      else
        let s ← s.setNext ptr (← s.next pfb)
        s.setSize ptr releasedSize
    let s ← s.setPrev ptr pfb
    let s ← s.setNext pfb ptr
    s.setPrevIf (← s.next ptr) ptr

def bringBack (s : Shm) (ptr releasedSize : Nat) : Except Fault Shm := do
  if s.freeBufChain = NULL then
    -- All memory had been allocated.
    let s := { s with freeBufChain := ptr }
    let s ← s.setSize s.freeBufChain releasedSize
    let s ← s.setNext s.freeBufChain NULL
    s.setPrev s.freeBufChain NULL
  else if ptr < s.freeBufChain then
    bringBackFirst s ptr releasedSize
  else
    bringBackAbove s ptr releasedSize (← findSpot s ptr addrSpace s.freeBufChain)

def doRelease (s : Shm) (ptr : Nat) : Except Fault Shm := do
  match ← takeAllocced s ptr with
  | none => return s
  | some s => bringBack s ptr (← s.size ptr)

/-! ## Acquire -/

/-- An `int` as the `size_t` the comparisons of `do_acquire` convert it to. -/
def toSizeT (i : Int) : Nat := (i % (addrSpace : Int)).toNat

/-- The requested size aligned to `sizeof(int)`, with room for the header. -/
def roomFor (size : Int) : Nat := wadd (wadd (toSizeT size) 3 / 4 * 4) headerSize

/-- The loop that looks for the tightest free buffer: the candidate so far
(`NULL` when there is none) and its headroom. -/
def findCandidate (s : Shm) (size : Nat) : Nat → Nat → Nat → Nat → Except Fault (Nat × Nat)
  | 0, _, _, _ => throw .diverges
  | fuel + 1, pfb, candidate, headroom =>
    if pfb = NULL then pure (candidate, headroom)
    else do
      let bs ← s.size pfb
      if size ≤ bs ∧ bs - size < headroom then
        findCandidate s size fuel (← s.next pfb) pfb (bs - size)
      else
        findCandidate s size fuel (← s.next pfb) candidate headroom

def takeWhole (s : Shm) (candidate : Nat) : Except Fault Shm := do
  if candidate = s.freeBufChain then
    -- The next buffer becomes the head of the free buffer chain.
    let n ← s.next candidate
    let s := { s with freeBufChain := n }
    s.setPrevIf s.freeBufChain NULL
  else
    let s ← s.setNext (← s.prev candidate) (← s.next candidate)
    s.setPrevIf (← s.next candidate) (← s.prev candidate)

/-- Leave the candidate's tail in the free buffer chain in its place. -/
def takeSplit (s : Shm) (candidate size headroom : Nat) : Except Fault Shm := do
  let s ← s.setSize candidate size
  let pfb := wadd candidate size
  let s ← s.setSize pfb headroom
  let s ← s.setNext pfb (← s.next candidate)
  let s ← s.setPrev pfb (← s.prev candidate)
  let s ← s.setPrevIf (← s.next pfb) pfb
  if candidate = s.freeBufChain then
    return { s with freeBufChain := pfb }
  else
    s.setNext (← s.prev pfb) pfb

/-- The chosen buffer, out of the free chain; `none` is `EC_ERROR_BUSY`. -/
def doAcquire (s : Shm) (size : Int) : Except Fault (Option (Nat × Shm)) := do
  let size := roomFor size
  let (candidate, headroom) ← findCandidate s size addrSpace s.freeBufChain NULL maxHeadroom
  if candidate = NULL then return none
  if headroom ≤ headerSize then
    return some (candidate, ← takeWhole s candidate)
  else
    return some (candidate, ← takeSplit s candidate size headroom)

/-- The loop of `shared_mem_size`. -/
def maxAvailable (s : Shm) : Nat → Nat → Nat → Except Fault Nat
  | 0, _, _ => throw .diverges
  | fuel + 1, pfb, best =>
    if pfb = NULL then pure best
    else do
      let bs ← s.size pfb
      maxAvailable s fuel (← s.next pfb) (if best < bs then bs else best)

/-- The room in the biggest free buffer, as the `int` the `size_t` converts to. -/
def sharedMemSize (s : Shm) : Except Fault Int := do
  let m := (← maxAvailable s addrSpace s.freeBufChain 0) + (addrSpace - headerSize)
  return (m % addrSpace : Nat) - (if m % addrSpace < 2 ^ 31 then 0 else (addrSpace : Int))

/-- The result code, `*dest_ptr`, and the state after the call. -/
def sharedMemAcquire (s : Shm) (inInterruptContext : Bool) (size : Int) :
    Except Fault (Ec × Nat × Shm) := do
  if inInterruptContext then return (.inval, NULL, s)
  if s.freeBufChain = NULL then return (.busy, NULL, s)
  match ← doAcquire s size with
  | none => return (.busy, NULL, s)
  | some (newBuf, s) =>
    let s ← s.setNext newBuf s.alloccedBufChain
    let s ← s.setPrev newBuf NULL
    let s ← s.setPrevIf s.alloccedBufChain newBuf
    let s := { s with
      alloccedBufChain := newBuf
      maxAllocatedSize := if s.maxAllocatedSize < size then size else s.maxAllocatedSize }
    return (.success, wadd newBuf headerSize, s)

def sharedMemRelease (s : Shm) (inInterruptContext : Bool) (ptr : Nat) : Except Fault Shm :=
  if inInterruptContext then pure s
  else if ptr = NULL then pure s
  else doRelease s (wadd ptr (addrSpace - headerSize))

end ChromeEc.Shmalloc
