import ChromeEc.Queue.Model
import Mathlib.Data.List.TakeDrop
import Mathlib.Tactic.Simps.Basic

/- What the queue is for: a list of units of bounded length.

  A `Fifo α cap` holds the units that are queued, oldest first, and the free
  slots behind them, next to be filled first. A client may fill free slots
  before it commits them, so the slots have contents too. The two lists together
  always have `cap` entries: this is the bound on the queue, and it is a field.

  `Step` says what a client may see of each operation. Every operation has one
  outcome, except that a chunk is some nonempty stretch of what it could be: how
  long depends on where the buffer ends. -/
namespace ChromeEc.Queue
open Lib

/-- A bounded queue: `queued` oldest first, then the free slots. -/
@[ext] structure Fifo (α : Type) (cap : Nat) where
  queued : List α
  free : List α
  bounded : queued.length + free.length = cap

namespace Fifo

variable {α : Type} {cap : Nat}

/-- Appends as many of the units as there are free slots. -/
@[simps] def push (f : Fifo α cap) (us : List α) : Fifo α cap where
  queued := f.queued ++ us.take f.free.length
  free := f.free.drop us.length
  bounded := by
    have := f.bounded
    simp only [List.length_append, List.length_take, List.length_drop]
    omega

/-- Drops the `n` oldest units; their slots are the last to be filled again. -/
@[simps] def pop (f : Fifo α cap) (n : Nat) : Fifo α cap where
  queued := f.queued.drop n
  free := f.free ++ f.queued.take n
  bounded := by
    have := f.bounded
    simp only [List.length_append, List.length_take, List.length_drop]
    omega

@[simps] def commit (f : Fifo α cap) (n : Nat) : Fifo α cap where
  queued := f.queued ++ f.free.take n
  free := f.free.drop n
  bounded := by
    have := f.bounded
    simp only [List.length_append, List.length_take, List.length_drop]
    omega

@[simps] def fill (f : Fifo α cap) (i : Nat) (us : List α) : Fifo α cap where
  queued := f.queued
  free := f.free.mapIdx fun j x => if i ≤ j then us.getD (j - i) x else x
  bounded := by rw [List.length_mapIdx]; exact f.bounded

theorem commit_min (f : Fifo α cap) (n : Nat) : f.commit (min n f.free.length) = f.commit n := by
  apply Fifo.ext
  · rw [commit_queued, commit_queued]
    congr 1
    rw [List.take_eq_take_iff]
    omega
  · rw [commit_free, commit_free]
    by_cases h : n ≤ f.free.length
    · rw [Nat.min_eq_left h]
    · rw [List.drop_eq_nil_of_le (by omega), List.drop_eq_nil_of_le (by omega)]

theorem pop_min (f : Fifo α cap) (n : Nat) : f.pop (min n f.queued.length) = f.pop n := by
  apply Fifo.ext
  · rw [pop_queued, pop_queued]
    by_cases h : n ≤ f.queued.length
    · rw [Nat.min_eq_left h]
    · rw [List.drop_eq_nil_of_le (by omega), List.drop_eq_nil_of_le (by omega)]
  · rw [pop_free, pop_free]
    congr 1
    rw [List.take_eq_take_iff]
    omega

theorem fill_nil (f : Fifo α cap) (i : Nat) : f.fill i [] = f := by
  apply Fifo.ext
  · rfl
  · rw [fill_free]
    apply List.ext_getElem?
    intro j
    rw [List.getElem?_mapIdx]
    cases f.free[j]? <;> simp

theorem push_eq_commit_fill (f : Fifo α cap) (us : List α) :
    f.push us = (f.fill 0 (us.take f.free.length)).commit (min us.length f.free.length) := by
  apply Fifo.ext
  · rw [push_queued, commit_queued, fill_queued]
    congr 1
    apply List.ext_getElem?
    intro j
    rw [List.getElem?_take, List.getElem?_take, fill_free, List.getElem?_mapIdx]
    by_cases hj : j < min us.length f.free.length
    · rw [if_pos (by omega), if_pos hj, List.getElem?_eq_getElem (l := us) (by omega),
        List.getElem?_eq_getElem (l := f.free) (by omega), Option.map_some, if_pos (Nat.zero_le _),
        List.getD_eq_getElem?_getD, Nat.sub_zero, List.getElem?_take, if_pos (by omega),
        List.getElem?_eq_getElem (l := us) (by omega), Option.getD_some]
    · rw [if_neg hj]
      split
      · rw [List.getElem?_eq_none (by omega)]
      · rfl
  · rw [push_free, commit_free]
    apply List.ext_getElem?
    intro j
    rw [List.getElem?_drop, List.getElem?_drop, fill_free, List.getElem?_mapIdx]
    by_cases h : us.length ≤ f.free.length
    · rw [Nat.min_eq_left h, List.take_of_length_le h]
      cases hx : f.free[us.length + j]? with
      | none => rfl
      | some x =>
        rw [Option.map_some, if_pos (Nat.zero_le _), List.getD_eq_getElem?_getD,
          List.getElem?_eq_none (by omega), Option.getD_none]
    · rw [List.getElem?_eq_none (by omega), List.getElem?_eq_none (l := f.free) (by omega),
        Option.map_none]

end Fifo

/-- `dest` with its first units replaced by `us`. -/
def overwrite {α : Type} (dest : Nat → α) (us : List α) : Nat → α := fun i => us.getD i (dest i)

theorem overwrite_window {α : Type} (dest g : Nat → α) (i n : Nat) :
    overwrite dest (window g i n) = blit dest 0 (fun a => g (i + a)) n := by
  funext u
  unfold overwrite
  rw [List.getD_eq_getElem?_getD, getElem?_window]
  by_cases h : u < n
  · rw [if_pos h, blit_apply_of_mem (by omega), Option.getD_some, Nat.sub_zero]
  · rw [if_neg h, blit_apply_of_notMem (by omega), Option.getD_none]

/-- The bounded queue of units that the client of a queue works with. -/
inductive Step {w cap : Nat} (q : Config w) :
    Fifo (List UInt8) cap → Op w → Obs → Fifo (List UInt8) cap → Prop
  | addUnit (f : Fifo _ cap) (src : Mem) :
      Step q f (.addUnit src) (.returned (min 1 f.free.length)) (f.push (window (units q src) 0 1))
  | addUnits (f : Fifo _ cap) (src : Mem) (count : BitVec w) :
      Step q f (.addUnits src count) (.returned (min count.toNat f.free.length))
        (f.push (window (units q src) 0 count.toNat))
  | removeUnit (f : Fifo _ cap) (dest : Mem) :
      Step q f (.removeUnit dest)
        (.copied (min 1 f.queued.length) (overwrite (units q dest) (f.queued.take 1))) (f.pop 1)
  | removeUnits (f : Fifo _ cap) (dest : Mem) (count : BitVec w) :
      Step q f (.removeUnits dest count)
        (.copied (min count.toNat f.queued.length)
          (overwrite (units q dest) (f.queued.take count.toNat))) (f.pop count.toNat)
  | peekUnits (f : Fifo _ cap) (dest : Mem) (i count : BitVec w) :
      i.toNat ≤ f.queued.length →
      Step q f (.peekUnits dest i count)
        (.copied (min count.toNat (f.queued.length - i.toNat))
          (overwrite (units q dest) ((f.queued.drop i.toNat).take count.toNat))) f
  | writeChunk (f : Fifo _ cap) (offset : BitVec w) (pos n len : Nat) (src : Mem) :
      len ≤ f.free.length - offset.toNat → (offset.toNat < f.free.length → 0 < len) →
      pos + n ≤ len →
      Step q f (.writeChunk offset pos n src) (.chunk len)
        (f.fill (offset.toNat + pos) (window (units q src) 0 n))
  | advanceTail (f : Fifo _ cap) (count : BitVec w) :
      Step q f (.advanceTail count) (.returned (min count.toNat f.free.length))
        (f.commit count.toNat)
  | readChunk (f : Fifo _ cap) (len : Nat) :
      len ≤ f.queued.length → (0 < f.queued.length → 0 < len) →
      Step q f .readChunk (.units (f.queued.take len)) f
  | advanceHead (f : Fifo _ cap) (count : BitVec w) :
      Step q f (.advanceHead count) (.returned (min count.toNat f.queued.length))
        (f.pop count.toNat)
  | iterate (f : Fifo _ cap) : Step q f .iterate (.units f.queued) f
  | enableBufferedMode (f : Fifo _ cap) : Step q f .enableBufferedMode .silent f
  | flush (f : Fifo _ cap) : Step q f .flush .silent f

inductive Run {w cap : Nat} (q : Config w) :
    Fifo (List UInt8) cap → List (Op w) → List Obs → Fifo (List UInt8) cap → Prop
  | nil (f : Fifo _ cap) : Run q f [] [] f
  | cons {f g h : Fifo _ cap} {op : Op w} {ops : List (Op w)} {o : Obs} {os : List Obs} :
      Step q f op o g → Run q g ops os h → Run q f (op :: ops) (o :: os) h

end ChromeEc.Queue
