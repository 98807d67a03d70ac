import ChromeEc.Lib.Steps
import ChromeEc.Mkbp.NextEvent
import Mathlib.Data.List.Forall2

/- The common FIFO is a bounded queue of events.

  The queue (`Bounded`) holds the events as they were added, with all of the data that the
  caller pointed to. What the ring holds of each is its type and as many bytes as an event of
  that type has (`Stored`). Each function does on the ring what it does on the queue
  (`step_stored`), as long as no depth above `FIFO_DEPTH` is set: `mkbp_fifo.h` asks that of
  the caller, and `keyboard_mkbp.c` clips the depth before it sets it. -/
namespace ChromeEc.Mkbp
open Lib

variable {c : Config} {s s' : St}

/-- A call of a function of `mkbp_fifo.c`. -/
inductive FifoCall where
  | add (e : Env) (t : EventType) (buffp : Bytes)
  | getNextEvent (e : Env) (out : Bytes) (evt : EventType)
  | clearKeyboard
  | clearFifo
  | depthUpdate (newMaxDepth : UInt8)

def fifoStep (c : Config) : FifoCall → St → Option St
  | .add e t buffp, s => some (mkbpFifoAdd c e t buffp s).2
  | .getNextEvent e out evt, s => some (mkbpFifoGetNextEvent c e out evt s).2.2
  | .clearKeyboard, s => some (mkbpFifoClearKeyboard s)
  | .clearFifo, s => some (mkbpClearFifo s)
  | .depthUpdate newMaxDepth, s => some (mkbpFifoDepthUpdate newMaxDepth.toNat s)

/-! ## The queue -/

/-- A queue of events with a limit on what may be added. -/
structure Bounded where
  limit : Nat
  events : List (EventType × Bytes)

def Bounded.empty : Bounded := ⟨fifoDepth, []⟩

def Bounded.after : FifoCall → Bounded → Bounded
  | .add _ t buffp, q => if q.limit ≤ q.events.length then q else { q with events := q.events ++ [(t, buffp)] }
  | .getNextEvent _ _ evt, q => if (q.events.head?.map Prod.fst) = some evt then { q with events := q.events.tail } else q
  | .clearKeyboard, q => { q with events := q.events.filter fun x => x.1 ≠ .keyMatrix }
  | .clearFifo, q => { q with events := [] }
  | .depthUpdate newMaxDepth, q => { q with limit := newMaxDepth.toNat }

def queued (l : List (St × FifoCall)) : Bounded := l.foldl (fun q x => q.after x.2) .empty

def Stored (c : Config) (x : Entry) (y : EventType × Bytes) : Prop :=
  x.eventType = y.1 ∧ ∀ i, i < getDataSize c y.1 → x.data i = y.2 i

structure Holds (c : Config) (s : St) (q : Bounded) : Prop where
  ringed : Ringed s
  limit : s.fifoMaxDepth = q.limit
  depth_le : q.limit ≤ fifoDepth
  stored : List.Forall₂ (Stored c) (entries s) q.events

theorem holds_initial : Holds c .initial .empty :=
  ⟨⟨(by decide : 0 < fifoDepth), Nat.zero_le _, rfl⟩, rfl, Nat.le_refl _, List.Forall₂.nil⟩

theorem Holds.length (h : Holds c s q) : s.fifoEntries = q.events.length := by
  rw [← h.stored.length_eq, entries, length_window]

/-! ## Calls -/

theorem Holds.send {q : Bounded} {e : Env} {t : EventType} (h : Holds c s q) : Holds c (sendEvent e t s).2 q :=
  ⟨⟨h.ringed.start_lt, h.ringed.entries_le, h.ringed.end_eq⟩, h.limit, h.depth_le, h.stored⟩

theorem Holds.add {q : Bounded} {e : Env} {t : EventType} {buffp : Bytes} (h : Holds c s q) :
    Holds c (mkbpFifoAdd c e t buffp s).2 (q.after (.add e t buffp)) := by
  rw [fifoAdd_eq, h.limit, h.length, Bounded.after]
  split
  · exact h
  · rename_i hroom
    have hlt : s.fifoEntries < fifoDepth := by
      have hlength := h.length
      have hdepth := h.depth_le
      omega
    have hentry : Stored c ⟨t, copyBytes (s.fifo s.fifoEnd).data buffp (getDataSize c t)⟩ (t, buffp) := by
      refine ⟨rfl, fun i (hi : i < getDataSize c t) => ?_⟩
      exact blit_apply_of_mem (by omega)
    have hpushed : Holds c (pushed c t buffp s) { q with events := q.events ++ [(t, buffp)] } := by
      refine ⟨h.ringed.pushed hlt t buffp, h.limit, h.depth_le, ?_⟩
      rw [entries_pushed h.ringed hlt]
      exact List.rel_append h.stored (List.Forall₂.cons hentry List.Forall₂.nil)
    exact hpushed.send

theorem Holds.clearKeyboard {q : Bounded} (h : Holds c s q) :
    Holds c (mkbpFifoClearKeyboard s) (q.after .clearKeyboard) := by
  have hdepth : (mkbpFifoClearKeyboard s).fifoMaxDepth = s.fifoMaxDepth := by rw [clearKeyboard_eq h.ringed.start_lt]
  refine ⟨h.ringed.clearKeyboard, hdepth.trans h.limit, h.depth_le, ?_⟩
  rw [entries_clearKeyboard h.ringed]
  apply List.rel_filter _ h.stored
  intro x y hxy
  simp [notKeyboard, hxy.1]

theorem Holds.clearFifo {q : Bounded} (h : Holds c s q) : Holds c (mkbpClearFifo s) (q.after .clearFifo) := by
  refine ⟨Ringed.clear, h.limit, h.depth_le, ?_⟩
  rw [entries_clear]
  exact List.Forall₂.nil

theorem Holds.depthUpdate {q : Bounded} {newMaxDepth : UInt8} (h : Holds c s q)
    (hlimit : newMaxDepth.toNat ≤ fifoDepth) :
    Holds c (mkbpFifoDepthUpdate newMaxDepth.toNat s) (q.after (.depthUpdate newMaxDepth)) :=
  ⟨⟨h.ringed.start_lt, h.ringed.entries_le, h.ringed.end_eq⟩, rfl, hlimit, h.stored⟩

theorem Holds.head {q : Bounded} (h : Holds c s q) {t : EventType} {buffp : Bytes} {rest : List (EventType × Bytes)}
    (hq : q.events = (t, buffp) :: rest) : s.fifoEntries ≠ 0 ∧ Stored c (s.fifo s.fifoStart) (t, buffp) ∧
      List.Forall₂ (Stored c) (entries (popped s)) rest := by
  have hne : s.fifoEntries ≠ 0 := by
    rw [h.length, hq]
    exact Nat.succ_ne_zero _
  have hstored := h.stored
  rw [entries_popped h.ringed hne, hq, List.forall₂_cons] at hstored
  exact ⟨hne, hstored⟩

theorem Holds.popped {q : Bounded} (h : Holds c s q) {t : EventType} {buffp : Bytes}
    {rest : List (EventType × Bytes)} (hq : q.events = (t, buffp) :: rest) :
    Holds c (popped s) { q with events := rest } := by
  obtain ⟨hne, -, hrest⟩ := h.head hq
  exact ⟨h.ringed.popped hne, h.limit, h.depth_le, hrest⟩

theorem Holds.getNextEvent {q : Bounded} {e : Env} {out : Bytes} {evt : EventType} (h : Holds c s q) :
    Holds c (mkbpFifoGetNextEvent c e out evt s).2.2 (q.after (.getNextEvent e out evt)) := by
  cases hq : q.events with
  | nil =>
    have hnil : s.fifoEntries = 0 := by rw [h.length, hq, List.length_nil]
    rw [fifoGetNext_empty out evt hnil]
    simpa [Bounded.after, hq] using h
  | cons y rest =>
    obtain ⟨t, buffp⟩ := y
    obtain ⟨hne, hhead, -⟩ := h.head hq
    by_cases ht : t = evt
    · have hafter : q.after (.getNextEvent e out evt) = { q with events := rest } := by simp [Bounded.after, hq, ht]
      rw [hafter, (fifoGetNext_head out hne (hhead.1.trans ht)).2]
      split
      · exact (h.popped hq).send
      · exact h.popped hq
    · have hafter : q.after (.getNextEvent e out evt) = q := by simp [Bounded.after, hq, ht]
      rw [hafter, fifoGetNext_busy out hne fun hsame => ht (hhead.1.symm.trans hsame)]
      exact h

/-! ## Runs -/

/-- A depth that is set is at most `FIFO_DEPTH`. -/
def Limited : FifoCall → Prop
  | .depthUpdate newMaxDepth => newMaxDepth.toNat ≤ fifoDepth
  | _ => True

instance : DecidablePred Limited
  | .depthUpdate newMaxDepth => inferInstanceAs (Decidable (newMaxDepth.toNat ≤ fifoDepth))
  | .add .. | .getNextEvent .. | .clearKeyboard | .clearFifo => inferInstanceAs (Decidable True)

theorem step_stored {q : Bounded} {call : FifoCall} (h : Holds c s q) (hlimited : Limited call)
    (hstep : fifoStep c call s = some s') : Holds c s' (q.after call) := by
  cases call with
  | add e t buffp =>
    cases hstep
    exact h.add
  | getNextEvent e out evt =>
    cases hstep
    exact h.getNextEvent
  | clearKeyboard =>
    cases hstep
    exact h.clearKeyboard
  | clearFifo =>
    cases hstep
    exact h.clearFifo
  | depthUpdate newMaxDepth =>
    cases hstep
    exact h.depthUpdate hlimited

theorem run_stored {l : List (St × FifoCall)} (h : Steps.Run (fifoStep c) .initial l s)
    (hlimited : ∀ x ∈ l, Limited x.2) : Holds c s (queued l) :=
  h.refines (R := Holds c) (f := fun call q => q.after call) holds_initial
    (fun _ _ _ _ hs hok hstep => step_stored hs hok hstep) hlimited

/-- What `mkbp_fifo_get_next_event` gives for the oldest event: its size, and that much of its data. -/
theorem getNextEvent_fetched {e : Env} {t : EventType} {buffp : Bytes} (out : Bytes) (hne : s.fifoEntries ≠ 0)
    (hhead : Stored c (s.fifo s.fifoStart) (t, buffp)) :
    (mkbpFifoGetNextEvent c e out t s).1 = (if getDataSize c t ≠ 0 then (getDataSize c t : Int) else -ecErrorUnknown) ∧
      ∀ i, (mkbpFifoGetNextEvent c e out t s).2.1 i = if i < getDataSize c t then buffp i else out i := by
  have htype : (s.fifo s.fifoStart).eventType = t := hhead.1
  unfold mkbpFifoGetNextEvent fifoRemove
  rw [if_neg hne, if_neg (not_not.mpr htype), if_neg hne]
  refine ⟨by rw [htype], ?_⟩
  intro i
  show copyBytes out (s.fifo s.fifoStart).data (getDataSize c (s.fifo s.fifoStart).eventType) i = _
  rw [htype]
  split
  · rename_i hi
    rw [copyBytes, blit_apply_of_mem (by omega)]
    exact hhead.2 i hi
  · rw [copyBytes, blit_apply_of_notMem (by omega)]

/-- In every run that sets no depth above `FIFO_DEPTH`, the indices agree, the ring holds the
events of the queue, a refused event changes nothing, the oldest event is fetched as it was
added, and clearing the keyboard leaves the other events in their order. -/
theorem mkbp_fifo_queue {l : List (St × FifoCall)} (h : Steps.Run (fifoStep c) .initial l s)
    (hlimited : ∀ x ∈ l, Limited x.2) :
    s.fifoEntries ≤ fifoDepth ∧ s.fifoEnd = (s.fifoStart + s.fifoEntries) % fifoDepth ∧
    List.Forall₂ (Stored c) (entries s) (queued l).events ∧
    (∀ e t buffp, (mkbpFifoAdd c e t buffp s).1 ≠ 0 → (mkbpFifoAdd c e t buffp s).2 = s) ∧
    (∀ e out evt, (queued l).events = [] → mkbpFifoGetNextEvent c e out evt s = (-1, out, s)) ∧
    (∀ e out evt t buffp rest, (queued l).events = (t, buffp) :: rest →
      (t ≠ evt → mkbpFifoGetNextEvent c e out evt s = (-(ecErrorBusy : Int), out, s)) ∧
      (t = evt →
        (mkbpFifoGetNextEvent c e out evt s).1 =
          (if getDataSize c t ≠ 0 then (getDataSize c t : Int) else -ecErrorUnknown) ∧
        (∀ i, (mkbpFifoGetNextEvent c e out evt s).2.1 i = if i < getDataSize c t then buffp i else out i) ∧
        entries (mkbpFifoGetNextEvent c e out evt s).2.2 = (entries s).tail)) ∧
    entries (mkbpFifoClearKeyboard s) = (entries s).filter notKeyboard ∧
    entries (mkbpClearFifo s) = [] := by
  have hs := run_stored h hlimited
  refine ⟨hs.ringed.entries_le, hs.ringed.end_eq, hs.stored, ?_, ?_, ?_, entries_clearKeyboard hs.ringed,
    entries_clear⟩
  · intro e t buffp hfailed
    rw [fifoAdd_eq] at hfailed ⊢
    split at hfailed
    · rename_i hfull
      rw [if_pos hfull]
    · exact absurd rfl hfailed
  · intro e out evt hq
    exact fifoGetNext_empty out evt (by rw [hs.length, hq, List.length_nil])
  · intro e out evt t buffp rest hq
    obtain ⟨hne, hhead, -⟩ := hs.head hq
    refine ⟨fun hother => fifoGetNext_busy out hne fun hsame => hother (hhead.1.symm.trans hsame), ?_⟩
    rintro rfl
    obtain ⟨hsize, hdata⟩ := getNextEvent_fetched (e := e) out hne hhead
    refine ⟨hsize, hdata, ?_⟩
    rw [entries_popped hs.ringed hne, List.tail_cons, (fifoGetNext_head out hne hhead.1).2]
    split
    · rfl
    · rfl

/-- A board with a button and no keyboard. -/
def tablet : Config := ⟨none, false, true, false, fun _ => false⟩

def hostAwake : Env := ⟨false, 0, none, none, true⟩

def pressed : FifoCall := .add hostAwake .button fun _ => 7

/-- Fourteen buttons are fetched. Then events of three types go around the end of the ring, and the keys among them
are cleared before another one comes. -/
def aroundTheEnd : List FifoCall :=
  .depthUpdate 16 :: (List.replicate 14 [pressed, .getNextEvent hostAwake noData .button]).flatten ++
    [.add hostAwake .keyMatrix fun _ => 1, pressed, .add hostAwake .keyMatrix fun _ => 0,
      .add hostAwake .switch fun _ => 2, .clearKeyboard, .add hostAwake .keyMatrix fun _ => 1]

set_option maxRecDepth 2000 in
theorem mkbp_fifo_queue_aroundTheEnd : ∃ l s, Steps.Run (fifoStep clamshell) .initial l s ∧
    l.map Prod.snd = aroundTheEnd ∧ s.fifoEnd < s.fifoStart ∧
    (entries s).map Entry.eventType = [.button, .switch, .keyMatrix] ∧
    (mkbpFifoGetNextEvent clamshell hostAwake noData .button s).1 = 4 ∧
    (∀ i < 4, (mkbpFifoGetNextEvent clamshell hostAwake noData .button s).2.1 i = 7) ∧
    (mkbpFifoGetNextEvent clamshell hostAwake noData .switch s).1 = -ecErrorBusy ∧
    (entries (mkbpFifoClearKeyboard s)).map Entry.eventType = [.button, .switch] := by
  have hsome : (Steps.trace (fifoStep clamshell) aroundTheEnd ([], .initial)).any fun r => decide
      (r.2.fifoEnd < r.2.fifoStart ∧ (entries r.2).map Entry.eventType = [.button, .switch, .keyMatrix] ∧
        ((entries r.2).filter notKeyboard).map Entry.eventType = [.button, .switch]) := by decide +kernel
  obtain ⟨l, s, run, hlabels, hwrapped, htypes, hothers⟩ := Steps.exists_run hsome
  have hlimited : ∀ call ∈ aroundTheEnd, Limited call := by decide
  rw [← hlabels, List.forall_mem_map] at hlimited
  have hqueued : ∃ rest, (aroundTheEnd.foldl (fun q call => Bounded.after call q) .empty).events =
      (.button, fun _ => 7) :: rest := ⟨_, rfl⟩
  rw [← hlabels, List.foldl_map] at hqueued
  obtain ⟨rest, hqueued⟩ := hqueued
  obtain ⟨-, -, -, -, -, hfetched, hcleared, -⟩ := mkbp_fifo_queue run hlimited
  obtain ⟨hsize, hdata, -⟩ := (hfetched hostAwake noData .button .button _ rest hqueued).2 rfl
  have hbusy := (hfetched hostAwake noData .switch .button _ rest hqueued).1 (by decide)
  refine ⟨l, s, run, hlabels, hwrapped, htypes, hsize, fun i hi => ?_, by rw [hbusy], by rw [hcleared, hothers]⟩
  exact (hdata i).trans (if_pos hi)

/-- No depth is refused, and with a depth of 17 there are more entries than `FIFO_DEPTH`. -/
theorem depth_unchecked : ∃ l s, Steps.Run (fifoStep tablet) .initial l s ∧ fifoDepth < s.fifoEntries := by
  have hlong : (Steps.trace (fifoStep tablet) (.depthUpdate 17 :: List.replicate 17 pressed) ([], .initial)).any
      fun r => decide (fifoDepth < r.2.fifoEntries) := by decide +kernel
  obtain ⟨r, htrace, hdepth⟩ := (Option.any_eq_true _ _).mp hlong
  exact ⟨r.1, r.2, .of_trace .start htrace, of_decide_eq_true hdepth⟩

end ChromeEc.Mkbp
