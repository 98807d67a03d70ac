import Mathlib.Data.List.Basic
import Mathlib.Data.List.Induction

/- A mailbox with one reader who may throw away what was there when it looked.

  The reader takes messages one at a time from the front. To empty the box it first looks how
  many there are and then drops that many, and more may be put in between.

  What is proved: what was taken and what still waits are messages that were put, in that order
  and none of them twice (`Follows.sublist`), and without a drop that is all of them
  (`Follows.conserved`). -/
namespace ChromeEc.Lib.Mailbox
open scoped List

variable {α : Type}

inductive Event (α : Type) where
  | put (a : α)
  | take (a : α)
  | look
  | drop

structure Box (α : Type) where
  waiting : List α
  /-- How many there were when the reader looked. -/
  looked : Option Nat

def Box.empty : Box α := ⟨[], none⟩

/-- What an event does to the box. -/
inductive Step : Box α → Event α → Box α → Prop where
  | put {l : List α} {n : Option Nat} {a : α} : Step ⟨l, n⟩ (.put a) ⟨l ++ [a], n⟩
  | take {l : List α} {a : α} : Step ⟨a :: l, none⟩ (.take a) ⟨l, none⟩
  | look {l : List α} : Step ⟨l, none⟩ .look ⟨l, some l.length⟩
  | drop {l : List α} {n : Nat} : Step ⟨l, some n⟩ .drop ⟨l.drop n, none⟩

inductive Follows : Box α → List (Event α) → Box α → Prop where
  | nil {b : Box α} : Follows b [] b
  | snoc {b c d : Box α} {es : List (Event α)} {e : Event α} (h : Follows b es c) (hstep : Step c e d) :
    Follows b (es ++ [e]) d

def Event.put? : Event α → Option α
  | .put a => some a
  | _ => none

def Event.take? : Event α → Option α
  | .take a => some a
  | _ => none

def puts (es : List (Event α)) : List α := es.filterMap Event.put?

def takes (es : List (Event α)) : List α := es.filterMap Event.take?

@[simp] theorem puts_append (es fs : List (Event α)) : puts (es ++ fs) = puts es ++ puts fs := List.filterMap_append ..

@[simp] theorem takes_append (es fs : List (Event α)) : takes (es ++ fs) = takes es ++ takes fs :=
  List.filterMap_append ..

@[simp] theorem puts_nil : puts ([] : List (Event α)) = [] := rfl
@[simp] theorem puts_put (a : α) : puts [.put a] = [a] := rfl
@[simp] theorem puts_take (a : α) : puts [.take a] = [] := rfl
@[simp] theorem puts_look : puts [(.look : Event α)] = [] := rfl
@[simp] theorem puts_drop : puts [(.drop : Event α)] = [] := rfl

@[simp] theorem takes_nil : takes ([] : List (Event α)) = [] := rfl
@[simp] theorem takes_put (a : α) : takes [.put a] = [] := rfl
@[simp] theorem takes_take (a : α) : takes [.take a] = [a] := rfl
@[simp] theorem takes_look : takes [(.look : Event α)] = [] := rfl
@[simp] theorem takes_drop : takes [(.drop : Event α)] = [] := rfl

variable {b c : Box α} {es : List (Event α)}

theorem Follows.sublist (h : Follows b es c) : takes es ++ c.waiting <+ b.waiting ++ puts es := by
  induction h with
  | nil => simp
  | @snoc c d es e run hstep ih =>
    cases hstep with
    | @put l n a =>
      calc takes (es ++ [.put a]) ++ (l ++ [a])
          = (takes es ++ l) ++ [a] := by simp
        _ <+ (b.waiting ++ puts es) ++ [a] := ih.append_right _
        _ = b.waiting ++ puts (es ++ [.put a]) := by simp
    | take => simpa using ih
    | look => simpa using ih
    | @drop l n =>
      calc takes (es ++ [.drop]) ++ l.drop n
          = takes es ++ l.drop n := by simp
        _ <+ takes es ++ l := (List.drop_sublist ..).append_left _
        _ <+ b.waiting ++ puts es := ih
        _ = b.waiting ++ puts (es ++ [.drop]) := by simp

theorem Follows.conserved (h : Follows b es c) (hdrop : .drop ∉ es) : takes es ++ c.waiting = b.waiting ++ puts es := by
  induction h with
  | nil => simp
  | @snoc c d es e run hstep ih =>
    have hbefore := ih fun he => hdrop (List.mem_append_left _ he)
    cases hstep with
    | @put l n a =>
      calc takes (es ++ [.put a]) ++ (l ++ [a])
          = (takes es ++ l) ++ [a] := by simp
        _ = (b.waiting ++ puts es) ++ [a] := by rw [hbefore]
        _ = b.waiting ++ puts (es ++ [.put a]) := by simp
    | take => simpa using hbefore
    | look => simpa using hbefore
    | drop => exact absurd (List.mem_append_right _ (List.mem_singleton_self _)) hdrop

end ChromeEc.Lib.Mailbox
