import Mathlib.Logic.Relation
import Mathlib.Data.List.Basic

/- Sequence numbers of a sender with one message under way.

  Messages go out on channels. Each channel has a counter, whose value is the number
  of the message that is sent next and which moves on when the message is settled,
  that is when the sender has learned what became of it. A counter can be reset at
  any time. A message may only be given up without being settled if its counter was
  reset after it was sent.

  What is proved: in every run from a state where nothing was sent, two messages in a
  row on one channel have different numbers unless the counter was reset between
  them, and a number is used up only by a message that was sent
  (`SeqState.run_ok`). -/
namespace ChromeEc.Lib

variable {T : Type} [DecidableEq T]

inductive SeqEvent (T : Type) where
  | sent (t : T) (n : Nat)
  | consumed (t : T)
  | reset (t : T)
  deriving DecidableEq

/-- The counters, the channel of the message that is under way, and what happened. -/
structure SeqState (T : Type) where
  counter : T → Nat
  flight : Option T
  log : List (SeqEvent T)

/-! ## What the log tells -/

/-- The number of the last message on a channel since the counter was reset. -/
def lastSent (t : T) (log : List (SeqEvent T)) : Option Nat :=
  log.foldl
    (fun last ev =>
      match ev with
      | .sent u n => if u = t then some n else last
      | .reset u => if u = t then none else last
      | .consumed _ => last)
    none

/-- A message was sent on the channel that has not used up its number. -/
def unsettled (t : T) (log : List (SeqEvent T)) : Bool :=
  log.foldl
    (fun pending ev =>
      match ev with
      | .sent u _ => if u = t then true else pending
      | .consumed u => if u = t then false else pending
      | .reset _ => pending)
    false

/-- What an event has to fulfil, given what happened before it. -/
def SeqEvent.Ok (before : List (SeqEvent T)) : SeqEvent T → Prop
  | .sent t n => ∀ m ∈ lastSent t before, n ≠ m
  | .consumed t => unsettled t before = true
  | .reset _ => True

/-- Every event of the log is as it should be. -/
def SeqOk (log : List (SeqEvent T)) : Prop :=
  ∀ before ev after, log = before ++ ev :: after → ev.Ok before

theorem SeqOk.nil : SeqOk ([] : List (SeqEvent T)) := by
  intro before ev after h
  cases before <;> cases h

theorem SeqOk.snoc {log : List (SeqEvent T)} {ev : SeqEvent T} (h : SeqOk log) (hev : ev.Ok log) :
    SeqOk (log ++ [ev]) := by
  intro before ev' after heq
  obtain ⟨rest, hbefore, hrest⟩ | ⟨rest, hlog, hrest⟩ := List.append_eq_append_iff.mp heq
  · cases rest with
    | nil =>
      simp only [List.append_nil, List.nil_append, List.cons.injEq] at hbefore hrest
      rw [hbefore, ← hrest.1]
      exact hev
    | cons _ rest =>
      simp at hrest
  · cases rest with
    | nil =>
      simp only [List.append_nil, List.nil_append, List.cons.injEq] at hlog hrest
      rw [← hlog, hrest.1]
      exact hev
    | cons x rest =>
      simp only [List.cons_append, List.cons.injEq] at hrest
      rw [hrest.1]
      exact h before x rest hlog

section

variable (t u : T) (n : Nat) (log : List (SeqEvent T))

@[simp] theorem lastSent_sent :
    lastSent t (log ++ [.sent u n]) = if u = t then some n else lastSent t log := by
  simp [lastSent]

@[simp] theorem lastSent_reset :
    lastSent t (log ++ [.reset u]) = if u = t then none else lastSent t log := by
  simp [lastSent]

@[simp] theorem lastSent_consumed : lastSent t (log ++ [.consumed u]) = lastSent t log := by
  simp [lastSent]

@[simp] theorem unsettled_sent :
    unsettled t (log ++ [.sent u n]) = if u = t then true else unsettled t log := by
  simp [unsettled]

@[simp] theorem unsettled_reset : unsettled t (log ++ [.reset u]) = unsettled t log := by
  simp [unsettled]

end

/-! ## Steps -/

namespace SeqState

def send (t : T) (a : SeqState T) : SeqState T :=
  { a with flight := some t, log := a.log ++ [.sent t (a.counter t)] }

def settle (N : Nat) (t : T) (a : SeqState T) : SeqState T where
  counter u := if u = t then (a.counter t + 1) % N else a.counter u
  flight := none
  log := a.log ++ [.consumed t]

def reset (t : T) (a : SeqState T) : SeqState T :=
  { a with counter := fun u => if u = t then 0 else a.counter u, log := a.log ++ [.reset t] }

def drop (a : SeqState T) : SeqState T := { a with flight := none }

inductive Step (N : Nat) : SeqState T → SeqState T → Prop
  | send {a : SeqState T} (t : T) : a.flight = none → Step N a (a.send t)
  | settle {a : SeqState T} (t : T) : a.flight = some t → Step N a (a.settle N t)
  | reset {a : SeqState T} (t : T) : Step N a (a.reset t)
  | drop {a : SeqState T} (t : T) : a.flight = some t → lastSent t a.log = none → Step N a a.drop

/-- The number of the last message is the value of the counter as long as the message
is under way, and another one afterwards. -/
structure Inv (N : Nat) (a : SeqState T) : Prop where
  range : ∀ t, a.counter t < N
  flight : ∀ t n, lastSent t a.log = some n → (a.flight = some t ↔ a.counter t = n)
  unsettled : ∀ t, a.flight = some t → unsettled t a.log = true
  log : SeqOk a.log

variable {N : Nat} {a b : SeqState T}

theorem succ_mod_ne (hN : 1 < N) {x : Nat} (hx : x < N) : (x + 1) % N ≠ x := by
  by_cases h : x + 1 < N
  · rw [Nat.mod_eq_of_lt h]
    omega
  · have : x + 1 = N := by omega
    rw [this, Nat.mod_self]
    omega

theorem Step.range (hN : 0 < N) (h : Step N a b) (ha : ∀ t, a.counter t < N) (t : T) :
    b.counter t < N := by
  cases h with
  | send => exact ha t
  | settle u =>
    simp only [SeqState.settle]
    split
    · exact Nat.mod_lt _ hN
    · exact ha t
  | reset u =>
    simp only [SeqState.reset]
    split
    · exact hN
    · exact ha t
  | drop => exact ha t

theorem run_range (hN : 0 < N) (h : Relation.ReflTransGen (Step N) a b)
    (ha : ∀ t, a.counter t < N) : ∀ t, b.counter t < N := by
  induction h with
  | refl => exact ha
  | tail _ hstep ih => exact hstep.range hN ih

theorem Step.inv (hN : 1 < N) (h : Step N a b) (ha : Inv N a) : Inv N b := by
  have hrange := h.range (by omega) ha.range
  cases h with
  | send t hnone =>
    refine ⟨hrange, ?_, ?_, ha.log.snoc ?_⟩
    · intro u n hn
      simp only [SeqState.send, lastSent_sent] at hn ⊢
      by_cases htu : t = u
      · rw [if_pos htu] at hn
        simp [htu, ← Option.some.inj hn]
      · rw [if_neg htu] at hn
        have := ha.flight u n hn
        rw [hnone] at this
        simp [htu, ← this]
    · intro u hu
      simp only [SeqState.send, unsettled_sent] at hu ⊢
      rw [if_pos (Option.some.inj hu)]
    · intro m hm heq
      have := (ha.flight t m hm).mpr heq
      rw [hnone] at this
      cases this
  | settle t hsome =>
    refine ⟨hrange, ?_, ?_, ha.log.snoc (ha.unsettled t hsome)⟩
    · intro u n hn
      simp only [SeqState.settle, lastSent_consumed] at hn ⊢
      have hold := ha.flight u n hn
      by_cases hut : u = t
      · rw [if_pos hut]
        rw [hsome, hut] at hold
        have hcounter := hold.mp rfl
        have hne := succ_mod_ne hN (ha.range t)
        rw [hcounter] at hne ⊢
        simp [hne]
      · rw [if_neg hut, ← hold, hsome]
        simp [Ne.symm hut]
    · intro u hu
      cases hu
  | reset t =>
    refine ⟨hrange, ?_, ?_, ha.log.snoc trivial⟩
    · intro u n hn
      simp only [SeqState.reset, lastSent_reset] at hn ⊢
      by_cases hut : t = u
      · rw [if_pos hut] at hn
        cases hn
      · rw [if_neg hut] at hn
        rw [if_neg (Ne.symm hut)]
        exact ha.flight u n hn
    · intro u hu
      simp only [SeqState.reset, unsettled_reset]
      exact ha.unsettled u hu
  | drop t hsome hlast =>
    refine ⟨hrange, ?_, ?_, ha.log⟩
    · intro u n hn
      have hold := ha.flight u n hn
      have hut : u ≠ t := by
        rintro rfl
        simp only [SeqState.drop] at hn
        rw [hlast] at hn
        cases hn
      simp only [SeqState.drop]
      rw [← hold, hsome]
      simp [Ne.symm hut]
    · intro u hu
      cases hu

theorem run_inv (hN : 1 < N) (h : Relation.ReflTransGen (Step N) a b) (ha : Inv N a) : Inv N b := by
  induction h with
  | refl => exact ha
  | tail _ hstep ih => exact hstep.inv hN ih

theorem inv_start (hrange : ∀ t, a.counter t < N) (hflight : a.flight = none) (hlog : a.log = []) :
    Inv N a where
  range := hrange
  flight := by
    intro t n hn
    rw [hlog] at hn
    cases hn
  unsettled := by
    intro t ht
    rw [hflight] at ht
    cases ht
  log := by
    rw [hlog]
    exact .nil

theorem run_ok (hN : 1 < N) (hrange : ∀ t, a.counter t < N) (hflight : a.flight = none)
    (hlog : a.log = []) (h : Relation.ReflTransGen (Step N) a b) :
    SeqOk b.log ∧ ∀ t, b.counter t < N := by
  have hb := run_inv hN h (inv_start hrange hflight hlog)
  exact ⟨hb.log, hb.range⟩

end SeqState

end ChromeEc.Lib
