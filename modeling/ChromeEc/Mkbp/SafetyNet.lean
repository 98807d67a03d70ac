import ChromeEc.Lib.Tasks
import ChromeEc.Mkbp.Event

/- The deferred call that sends an MKBP interrupt again.

  Tasks activate the interrupt, fetch events, and fire the deferred call, in any
  interleaving. A step is one critical section, one call of `mkbp_set_host_active`, one of
  `hook_call_deferred`, or what a task does in between. The outcome of what is not
  modelled here is chosen with the step: the wake masks, the result of
  `mkbp_set_host_active`, and what `get_data` answers.

  What is proved: as long as no task cancels the deferred call that another one has
  scheduled since the first found no more events, an interrupt that is active or that could
  not be sent is watched by the deferred call (`safety_net`). -/
namespace ChromeEc.Mkbp.SafetyNet
open Lib Lib.Tasks

/-- Where `activate_mkbp_with_events` was called from. -/
inductive Return where
  | done
  | getNext
  deriving DecidableEq

/-- Where a task is. -/
inductive Pc where
  | idle
  | adding (eventsToAdd : BitVec 32) (skip : Bool) (k : Return)
  | sending (interruptId : BitVec 8) (k : Return)
  | finishing (interruptId : BitVec 8) (sent : Bool) (k : Return)
  | scheduling (k : Return)
  | forcing
  | taking
  | serving (evt : Nat)
  | restoring (evt : Nat)
  | draining
  | ending
  /-- Before the cancellation, with `scheduleCalls` when no more events were found. -/
  | cancelling (since : Nat)
  deriving DecidableEq

/-- What `get_data` does, and the event that it may send. -/
inductive Answer where
  | noSource
  | busy
  | data (sends : Option (BitVec 32 × Bool))
  deriving DecidableEq

/-- The call that a task starts, or what is chosen for its next step. -/
inductive Action where
  | activate (eventsToAdd : BitVec 32) (skip : Bool)
  | getNext
  | fire
  | sent (ok : Bool)
  | answer (a : Answer)
  | wakeMask (skip : Bool)
  | go
  deriving DecidableEq

/-- `state`, the `last` of `mkbp_get_next_event`, and what happened. -/
structure Shared where
  state : EventState
  last : Nat
  /-- An attempt failed; since then there was no other, the deferred call has not run, and there were
  events all the time. -/
  failed : Bool
  scheduleCalls : Nat
  deriving DecidableEq

def Return.pc : Return → Pc
  | .done => .idle
  | .getNext => .ending

/-! ## The steps -/

/-- An idle task starts a call. The deferred call fires if it is scheduled. -/
def begin (a : Action) (sh : Shared) : Option (Shared × Pc) :=
  match a with
  | .activate eventsToAdd skip => some (sh, .adding eventsToAdd skip .done)
  | .getNext => some (sh, .taking)
  | .fire => if sh.state.forceScheduled then some ({ sh with state := cancelForce sh.state }, .forcing) else none
  | _ => none

def add (eventsToAdd : BitVec 32) (skip : Bool) (k : Return) (sh : Shared) : Shared × Pc :=
  match addEvents eventsToAdd skip sh.state with
  | (none, state) => ({ sh with state }, k.pc)
  | (some interruptId, state) => ({ sh with state, failed := false }, .sending interruptId k)

def finish (interruptId : BitVec 8) (ok : Bool) (k : Return) (sh : Shared) : Shared × Pc :=
  match finishInterrupt ok interruptId sh.state with
  | (true, state) => ({ sh with state, failed := !ok }, .scheduling k)
  | (false, state) => ({ sh with state }, k.pc)

def force (skip : Bool) (sh : Shared) : Shared × Pc :=
  match forceCheck sh.state with
  | (true, state) => ({ sh with state, failed := false }, .adding 0#32 skip .done)
  | (false, state) => ({ sh with state, failed := false }, .idle)

def take (sh : Shared) : Shared × Pc :=
  match takeNext sh.last eventCount 0 sh.state with
  | (none, state) => ({ sh with state }, .draining)
  | (some i, state) =>
    let evt := (i + sh.last) % eventCount
    ({ sh with state, last := evt + 1 }, .serving evt)

def serve (evt : Nat) : Answer → Pc
  | .noSource => .idle
  | .busy => .restoring evt
  | .data none => .ending
  | .data (some (eventsToAdd, skip)) => .adding eventsToAdd skip .getNext

/-- `set_inactive_if_no_events`, up to the cancellation. -/
def drain (otherwise : Pc) (sh : Shared) : Shared × Pc :=
  match clearIfNoEvents sh.state with
  | (true, state) => ({ sh with state, failed := false }, .cancelling sh.scheduleCalls)
  | (false, state) => ({ sh with state }, otherwise)

def onGo (a : Action) (r : Shared × Pc) : Option (Shared × Pc) := if a = .go then some r else none

def advance (a : Action) (sh : Shared) : Pc → Option (Shared × Pc)
  | .idle => begin a sh
  | .adding eventsToAdd skip k => onGo a (add eventsToAdd skip k sh)
  | .sending interruptId k =>
    match a with
    | .sent ok => some (sh, .finishing interruptId ok k)
    | _ => none
  | .finishing interruptId ok k => onGo a (finish interruptId ok k sh)
  | .scheduling k =>
    onGo a ({ sh with state := scheduleForce sh.state, scheduleCalls := sh.scheduleCalls + 1 }, k.pc)
  | .forcing =>
    match a with
    | .wakeMask skip => some (force skip sh)
    | _ => none
  | .taking => onGo a (take sh)
  | .serving evt =>
    match a with
    | .answer r => some (sh, serve evt r)
    | _ => none
  | .restoring evt => onGo a ({ sh with state := restoreEvent evt sh.state }, .taking)
  | .draining => onGo a (drain .taking sh)
  | .ending => onGo a (drain .idle sh)
  | .cancelling _ => onGo a ({ sh with state := cancelForce sh.state }, .idle)

/-! ## What is asked of a run -/

abbrev Sys := Lib.Tasks.Sys Shared Pc

def start : Sys := ⟨⟨.initial, 0, false, 0⟩, fun _ => .idle⟩

abbrev Run := Steps.Run (Lib.Tasks.step advance) start

def Quiet (s : Sys) : Prop := ∀ i, s.pc i = .idle

/-- What the deferred call is for. -/
structure Covered (s : Sys) : Prop where
  settled : s.shared.state.interrupt ≠ .inactiveToActive
  active : s.shared.state.interrupt = .active → s.shared.state.forceScheduled = true
  failed : s.shared.failed = true → s.shared.state.events ≠ 0#32 → s.shared.state.forceScheduled = true

def Pc.interruptId : Pc → Option (BitVec 8)
  | .sending id _ => some id
  | .finishing id _ _ => some id
  | _ => none

/-- An activation that is no longer the latest leaves the interrupt as it is. -/
def LatestOnly (x : Sys × Nat × Action) : Prop :=
  ∀ id ∈ (x.1.pc x.2.1).interruptId, id ≠ x.1.shared.state.interruptId →
    ∀ s', Lib.Tasks.step advance x.2 x.1 = some s' →
      s'.shared.state.interrupt = x.1.shared.state.interrupt

/-- The deferred call is not cancelled if it was scheduled after no more events were found. -/
def Timely (x : Sys × Nat × Action) : Prop :=
  ∀ since, x.1.pc x.2.1 = .cancelling since → x.1.shared.scheduleCalls = since

/-! ## The invariant -/

/-- The interrupt is active, or could not be sent. -/
def Needed (sh : Shared) : Prop := sh.state.interrupt = .active ∨ sh.failed = true

/-- The task will schedule the deferred call, or is the deferred call. -/
def Pc.Watches : Pc → Prop
  | .scheduling _ => True
  | .forcing => True
  | _ => False

def Pc.Settles (interruptId : BitVec 8) : Pc → Prop
  | .sending id _ => id = interruptId
  | .finishing id _ _ => id = interruptId
  | _ => False

/-- A task about to cancel the deferred call: if that was not scheduled since, someone watches. -/
def Fresh (sh : Shared) (watched : Prop) (pc : Pc) : Prop :=
  ∀ since, pc = .cancelling since → since ≤ sh.scheduleCalls ∧ (sh.scheduleCalls = since → Needed sh → watched)

structure Inv (s : Sys) : Prop where
  pending : s.shared.state.interrupt = .inactiveToActive → ∃ i, (s.pc i).Settles s.shared.state.interruptId
  failed : s.shared.failed = true → s.shared.state.interrupt = .inactive
  watched : Needed s.shared → s.shared.state.forceScheduled = true ∨ ∃ i, (s.pc i).Watches
  fresh : ∀ i, Fresh s.shared (∃ j, (s.pc j).Watches) (s.pc i)

theorem Inv.covered {s : Sys} (h : Inv s) (hquiet : Quiet s) : Covered s := by
  have hnone : ∀ {p : Pc → Prop}, ¬p .idle → ¬∃ i, p (s.pc i) := by
    rintro p hp ⟨i, hi⟩
    rw [hquiet i] at hi
    exact hp hi
  refine ⟨?_, ?_, ?_⟩
  · intro hpending
    exact hnone (p := Pc.Settles _) id (h.pending hpending)
  · intro hactive
    exact (h.watched (.inl hactive)).resolve_right (hnone id)
  · intro hfailed _
    exact (h.watched (.inr hfailed)).resolve_right (hnone id)

variable {s : Sys} {sh : Shared} {p : Pc} {i : Nat}

/-- The step does not concern the interrupt. -/
structure Same (sh sh' : Shared) : Prop where
  interrupt : sh'.state.interrupt = sh.state.interrupt
  interruptId : sh'.state.interruptId = sh.state.interruptId
  forceScheduled : sh'.state.forceScheduled = sh.state.forceScheduled
  failed : sh'.failed = sh.failed
  scheduleCalls : sh'.scheduleCalls = sh.scheduleCalls

theorem Same.refl (sh : Shared) : Same sh sh := ⟨rfl, rfl, rfl, rfl, rfl⟩

theorem Same.needed {sh' : Shared} (h : Same sh sh') : Needed sh' ↔ Needed sh := by
  rw [Needed, Needed, h.interrupt, h.failed]

theorem Inv.same (h : Inv s) (hsame : Same s.shared sh) (hwatches : ¬(s.pc i).Watches)
    (hsettles : s.shared.state.interrupt = .inactiveToActive → (s.pc i).Settles s.shared.state.interruptId →
      p.Settles s.shared.state.interruptId)
    (hp : ∀ since, p ≠ .cancelling since) : Inv ⟨sh, Function.update s.pc i p⟩ where
  pending := by
    dsimp only
    rw [hsame.interrupt, hsame.interruptId]
    intro hpending
    by_cases hi : (s.pc i).Settles s.shared.state.interruptId
    · exact exists_update_self (hsettles hpending hi)
    · exact exists_update (h.pending hpending) hi
  failed := by
    dsimp only
    rw [hsame.failed, hsame.interrupt]
    exact h.failed
  watched := by
    dsimp only
    rw [hsame.needed, hsame.forceScheduled]
    intro hneeded
    obtain hscheduled | hsome := h.watched hneeded
    · exact .inl hscheduled
    · exact .inr (exists_update hsome hwatches)
  fresh := by
    refine forall_update (R := fun _ => Fresh sh _) (fun j since hj => ?_) fun since hj => absurd hj (hp since)
    rw [hsame.scheduleCalls, hsame.needed]
    obtain ⟨hle, hfresh⟩ := h.fresh j since hj
    exact ⟨hle, fun heq hneeded => exists_update (hfresh heq hneeded) hwatches⟩

/-- After the step the interrupt is neither active nor has it failed. -/
theorem Inv.unneeded (h : Inv s) (hneeded : ¬Needed sh) (hcalls : sh.scheduleCalls = s.shared.scheduleCalls)
    (hpending : sh.state.interrupt = .inactiveToActive → ∃ j, (Function.update s.pc i p j).Settles sh.state.interruptId)
    (hp : ∀ since, p = .cancelling since → since ≤ s.shared.scheduleCalls) :
    Inv ⟨sh, Function.update s.pc i p⟩ where
  pending := hpending
  failed := fun hfailed => absurd (.inr hfailed) hneeded
  watched := fun h' => absurd h' hneeded
  fresh := by
    refine forall_update (R := fun _ => Fresh sh _) (fun j since hj => ?_) fun since hj => ?_
    · rw [hcalls]
      exact ⟨(h.fresh j since hj).1, fun _ h' => absurd h' hneeded⟩
    · rw [hcalls]
      exact ⟨hp since hj, fun _ h' => absurd h' hneeded⟩

theorem Inv.watching (h : Inv s) (hwatches : p.Watches) (hcalls : sh.scheduleCalls = s.shared.scheduleCalls)
    (hpending : sh.state.interrupt = .inactiveToActive → ∃ j, (Function.update s.pc i p j).Settles sh.state.interruptId)
    (hfailed : sh.failed = true → sh.state.interrupt = .inactive) : Inv ⟨sh, Function.update s.pc i p⟩ where
  pending := hpending
  failed := hfailed
  watched := fun _ => .inr (exists_update_self hwatches)
  fresh := by
    refine forall_update (R := fun _ => Fresh sh _) (fun j since hj => ?_) fun since hj => ?_
    · rw [hcalls]
      exact ⟨(h.fresh j since hj).1, fun _ _ => exists_update_self hwatches⟩
    · subst hj
      exact hwatches.elim

theorem addEvents_none {eventsToAdd : BitVec 32} {skip : Bool} {st st' : EventState}
    (h : addEvents eventsToAdd skip st = (none, st')) :
    st'.interrupt = st.interrupt ∧ st'.interruptId = st.interruptId ∧ st'.forceScheduled = st.forceScheduled := by
  unfold addEvents at h
  dsimp only at h
  split at h
  · cases h
  · cases h
    exact ⟨rfl, rfl, rfl⟩

theorem addEvents_some {eventsToAdd : BitVec 32} {skip : Bool} {st st' : EventState} {interruptId : BitVec 8}
    (h : addEvents eventsToAdd skip st = (some interruptId, st')) :
    st'.interrupt = .inactiveToActive ∧ st'.interruptId = interruptId := by
  unfold addEvents at h
  dsimp only at h
  split at h
  · cases h
    exact ⟨rfl, rfl⟩
  · cases h

theorem finishInterrupt_true {ok : Bool} {interruptId : BitVec 8} {st st' : EventState}
    (h : finishInterrupt ok interruptId st = (true, st')) :
    st'.interrupt = if ok then .active else .inactive := by
  unfold finishInterrupt at h
  split at h
  · cases h
    rfl
  · cases h

theorem finishInterrupt_false {ok : Bool} {interruptId : BitVec 8} {st st' : EventState}
    (h : finishInterrupt ok interruptId st = (false, st')) :
    st' = st ∧ ¬(st.interrupt = .inactiveToActive ∧ interruptId = st.interruptId) := by
  unfold finishInterrupt at h
  split at h
  · cases h
  · rename_i hother
    cases h
    exact ⟨rfl, hother⟩

theorem forceCheck_interrupt (st : EventState) : (forceCheck st).2.interrupt ≠ .active ∧
    (forceCheck st).2.interruptId = st.interruptId ∧
      ((forceCheck st).2.interrupt = .inactiveToActive → st.interrupt = .inactiveToActive) := by
  unfold forceCheck
  cases hinterrupt : st.interrupt with
  | inactive => simp [hinterrupt]
  | active =>
    dsimp only
    split <;> simp
  | inactiveToActive => simp [hinterrupt]

theorem takeNext_same (last n i : Nat) (st : EventState) : (takeNext last n i st).2.interrupt = st.interrupt ∧
    (takeNext last n i st).2.interruptId = st.interruptId ∧
      (takeNext last n i st).2.forceScheduled = st.forceScheduled := by
  rw [takeNext_eq]
  split <;> exact ⟨rfl, rfl, rfl⟩

theorem Return.pc_plain (k : Return) : ¬k.pc.Watches ∧ (∀ since, k.pc ≠ .cancelling since) := by
  cases k <;> simp [Return.pc, Pc.Watches]

theorem Inv.plain (h : Inv s) (hsame : Same s.shared sh) (hwatches : ¬(s.pc i).Watches)
    (hsettles : ¬(s.pc i).Settles s.shared.state.interruptId) (hp : ∀ since, p ≠ .cancelling since) :
    Inv ⟨sh, Function.update s.pc i p⟩ := h.same hsame hwatches (fun _ hi => absurd hi hsettles) hp

theorem Inv.add (h : Inv s) {eventsToAdd : BitVec 32} {skip : Bool} {k : Return}
    (hpc : s.pc i = .adding eventsToAdd skip k) :
    Inv ⟨(add eventsToAdd skip k s.shared).1, Function.update s.pc i (add eventsToAdd skip k s.shared).2⟩ := by
  unfold SafetyNet.add
  generalize hadd : addEvents eventsToAdd skip s.shared.state = r
  obtain ⟨_ | interruptId, state⟩ := r
  · obtain ⟨hinterrupt, hid, hforce⟩ := addEvents_none hadd
    exact h.plain ⟨hinterrupt, hid, hforce, rfl, rfl⟩ (by simp [hpc, Pc.Watches]) (by simp [hpc, Pc.Settles]) k.pc_plain.2
  · obtain ⟨hinterrupt, hid⟩ := addEvents_some hadd
    exact h.unneeded (by simp [Needed, hinterrupt]) rfl (fun _ => exists_update_self hid.symm) (by simp)

theorem Inv.finish (h : Inv s) {interruptId : BitVec 8} {ok : Bool} {k : Return}
    (hpc : s.pc i = .finishing interruptId ok k) :
    Inv ⟨(finish interruptId ok k s.shared).1, Function.update s.pc i (finish interruptId ok k s.shared).2⟩ := by
  unfold SafetyNet.finish
  generalize hfinish : finishInterrupt ok interruptId s.shared.state = r
  obtain ⟨_ | _, state⟩ := r
  · -- another task is to settle the interrupt
    obtain ⟨rfl, hother⟩ := finishInterrupt_false hfinish
    refine h.same (.refl _) (by simp [hpc, Pc.Watches]) ?_ k.pc_plain.2
    intro hpending hsettles
    rw [hpc] at hsettles
    exact absurd ⟨hpending, hsettles⟩ hother
  · have hinterrupt := finishInterrupt_true hfinish
    refine h.watching trivial rfl ?_ ?_
    · dsimp only
      rw [hinterrupt]
      cases ok <;> simp
    · dsimp only
      rw [hinterrupt]
      cases ok <;> simp

theorem Inv.schedule (h : Inv s) {k : Return} (hpc : s.pc i = .scheduling k) :
    Inv ⟨{ s.shared with state := scheduleForce s.shared.state, scheduleCalls := s.shared.scheduleCalls + 1 },
      Function.update s.pc i k.pc⟩ := by
  refine ⟨?_, h.failed, fun _ => .inl rfl, ?_⟩
  · intro hpending
    exact exists_update (h.pending hpending) (by simp [hpc, Pc.Settles])
  · -- what was found before the call is no longer fresh
    refine forall_update (R := fun _ => Fresh _ _) (fun j since hj => ?_) fun since hj => absurd hj (k.pc_plain.2 since)
    have hle := (h.fresh j since hj).1
    exact ⟨Nat.le_succ_of_le hle, fun heq => absurd heq (by dsimp only; omega)⟩

theorem Inv.force (h : Inv s) (skip : Bool) (hpc : s.pc i = .forcing) :
    Inv ⟨(force skip s.shared).1, Function.update s.pc i (force skip s.shared).2⟩ := by
  unfold SafetyNet.force
  have hcheck := forceCheck_interrupt s.shared.state
  generalize forceCheck s.shared.state = r at hcheck
  obtain ⟨again, state⟩ := r
  obtain ⟨hinactive, hid, hpending⟩ := hcheck
  have hkept : ∀ p, state.interrupt = .inactiveToActive →
      ∃ j, (Function.update s.pc i p j).Settles state.interruptId := by
    intro p hstate
    rw [show state.interruptId = s.shared.state.interruptId from hid]
    exact exists_update (h.pending (hpending hstate)) (by simp [hpc, Pc.Settles])
  cases again with
  | true => exact h.unneeded (by simpa [Needed] using hinactive) rfl (hkept _) (by simp)
  | false => exact h.unneeded (by simpa [Needed] using hinactive) rfl (hkept _) (by simp)

theorem Inv.take (h : Inv s) (hpc : s.pc i = .taking) :
    Inv ⟨(take s.shared).1, Function.update s.pc i (take s.shared).2⟩ := by
  unfold SafetyNet.take
  have hsame := takeNext_same s.shared.last eventCount 0 s.shared.state
  generalize takeNext s.shared.last eventCount 0 s.shared.state = r at hsame
  obtain ⟨hinterrupt, hid, hforce⟩ := hsame
  obtain ⟨_ | k, state⟩ := r
  · exact h.plain ⟨hinterrupt, hid, hforce, rfl, rfl⟩ (by simp [hpc, Pc.Watches]) (by simp [hpc, Pc.Settles]) (by simp)
  · exact h.plain ⟨hinterrupt, hid, hforce, rfl, rfl⟩ (by simp [hpc, Pc.Watches]) (by simp [hpc, Pc.Settles]) (by simp)

theorem Inv.drain (h : Inv s) {otherwise : Pc} (hwatches : ¬(s.pc i).Watches)
    (hsettles : ¬(s.pc i).Settles s.shared.state.interruptId) (hotherwise : ∀ since, otherwise ≠ .cancelling since) :
    Inv ⟨(drain otherwise s.shared).1, Function.update s.pc i (drain otherwise s.shared).2⟩ := by
  unfold SafetyNet.drain clearIfNoEvents
  by_cases hevents : s.shared.state.events = 0#32
  · rw [if_pos hevents]
    refine h.unneeded (by simp [Needed]) rfl (by simp) ?_
    intro since hsince
    cases hsince
    exact Nat.le_refl _
  · rw [if_neg hevents]
    exact h.plain (.refl _) hwatches hsettles hotherwise

/-- Nothing was scheduled since, so that whoever is to watch is still on the way. -/
theorem Inv.cancel (h : Inv s) (hpc : s.pc i = .cancelling s.shared.scheduleCalls) :
    Inv ⟨{ s.shared with state := cancelForce s.shared.state }, Function.update s.pc i .idle⟩ := by
  have hwatches : ¬(s.pc i).Watches := by simp [hpc, Pc.Watches]
  refine ⟨?_, h.failed, ?_, ?_⟩
  · intro hpending
    exact exists_update (h.pending hpending) (by simp [hpc, Pc.Settles])
  · intro hneeded
    exact .inr (exists_update ((h.fresh i _ hpc).2 rfl hneeded) hwatches)
  · refine forall_update (R := fun _ => Fresh _ _) (fun j since hj => ?_) (by simp [Fresh])
    obtain ⟨hle, hfresh⟩ := h.fresh j since hj
    exact ⟨hle, fun heq hneeded => exists_update (hfresh heq hneeded) hwatches⟩

theorem Inv.begin (h : Inv s) {a : Action} (hpc : s.pc i = .idle) (hbegin : begin a s.shared = some (sh, p)) :
    Inv ⟨sh, Function.update s.pc i p⟩ := by
  have hplain : ∀ {p}, (∀ since, p ≠ .cancelling since) → Inv ⟨s.shared, Function.update s.pc i p⟩ :=
    h.plain (.refl _) (by simp [hpc, Pc.Watches]) (by simp [hpc, Pc.Settles])
  cases a with
  | activate eventsToAdd skip =>
    cases hbegin
    exact hplain (by simp)
  | getNext =>
    cases hbegin
    exact hplain (by simp)
  | fire =>
    obtain ⟨-, heq⟩ := Option.ite_none_right_eq_some.mp hbegin
    obtain ⟨rfl, rfl⟩ := Prod.mk.inj (Option.some.inj heq)
    refine h.watching trivial rfl ?_ h.failed
    intro hpending
    exact exists_update (h.pending hpending) (by simp [hpc, Pc.Settles])
  | sent => cases hbegin
  | answer => cases hbegin
  | wakeMask => cases hbegin
  | go => cases hbegin

theorem onGo_eq_some {a : Action} {r : Shared × Pc} (h : onGo a r = some (sh, p)) : sh = r.1 ∧ p = r.2 := by
  unfold onGo at h
  split at h
  · rw [Option.some.inj h]
    exact ⟨rfl, rfl⟩
  · cases h

theorem Inv.step (h : Inv s) {a : Action} (htimely : Timely (s, i, a))
    (hadvance : advance a s.shared (s.pc i) = some (sh, p)) : Inv ⟨sh, Function.update s.pc i p⟩ := by
  cases hpc : s.pc i with
  | idle =>
    rw [hpc] at hadvance
    exact h.begin hpc hadvance
  | adding eventsToAdd skip k =>
    rw [hpc] at hadvance
    obtain ⟨rfl, rfl⟩ := onGo_eq_some hadvance
    exact h.add hpc
  | sending interruptId k =>
    rw [hpc] at hadvance
    cases a with
    | sent ok =>
      cases hadvance
      refine h.same (.refl _) (by simp [hpc, Pc.Watches]) ?_ (by simp)
      intro _ hsettles
      rw [hpc] at hsettles
      exact hsettles
    | _ => cases hadvance
  | finishing interruptId ok k =>
    rw [hpc] at hadvance
    obtain ⟨rfl, rfl⟩ := onGo_eq_some hadvance
    exact h.finish hpc
  | scheduling k =>
    rw [hpc] at hadvance
    obtain ⟨rfl, rfl⟩ := onGo_eq_some hadvance
    exact h.schedule hpc
  | forcing =>
    rw [hpc] at hadvance
    cases a with
    | wakeMask skip =>
      obtain ⟨rfl, rfl⟩ : sh = (SafetyNet.force skip s.shared).1 ∧ p = (SafetyNet.force skip s.shared).2 :=
        Prod.ext_iff.mp (Option.some.inj hadvance).symm
      exact h.force skip hpc
    | _ => cases hadvance
  | taking =>
    rw [hpc] at hadvance
    obtain ⟨rfl, rfl⟩ := onGo_eq_some hadvance
    exact h.take hpc
  | serving evt =>
    rw [hpc] at hadvance
    cases a with
    | answer r =>
      cases hadvance
      refine h.plain (.refl _) (by simp [hpc, Pc.Watches]) (by simp [hpc, Pc.Settles]) ?_
      obtain _ | _ | _ | ⟨eventsToAdd, skip⟩ := r <;> simp [serve]
    | _ => cases hadvance
  | restoring evt =>
    rw [hpc] at hadvance
    obtain ⟨rfl, rfl⟩ := onGo_eq_some hadvance
    exact h.plain ⟨rfl, rfl, rfl, rfl, rfl⟩ (by simp [hpc, Pc.Watches]) (by simp [hpc, Pc.Settles]) (by simp)
  | draining =>
    rw [hpc] at hadvance
    obtain ⟨rfl, rfl⟩ := onGo_eq_some hadvance
    exact h.drain (by simp [hpc, Pc.Watches]) (by simp [hpc, Pc.Settles]) (by simp)
  | ending =>
    rw [hpc] at hadvance
    obtain ⟨rfl, rfl⟩ := onGo_eq_some hadvance
    exact h.drain (by simp [hpc, Pc.Watches]) (by simp [hpc, Pc.Settles]) (by simp)
  | cancelling since =>
    rw [hpc] at hadvance
    obtain ⟨rfl, rfl⟩ := onGo_eq_some hadvance
    obtain rfl := htimely since hpc
    exact h.cancel hpc

theorem Inv.ofStep (h : Inv s) {x : Nat × Action} {s' : Sys} (htimely : Timely (s, x))
    (hstep : Lib.Tasks.step advance x s = some s') : Inv s' := by
  obtain ⟨sh, p, hadvance, rfl⟩ := step_eq_some hstep
  exact h.step htimely hadvance

theorem inv_start : Inv start where
  pending := by simp [start, EventState.initial]
  failed := by simp [start]
  watched := by simp [start, Needed, EventState.initial]
  fresh := by simp [start, Fresh]

theorem latestOnly (x : Sys × Nat × Action) : LatestOnly x := by
  obtain ⟨s, i, a⟩ := x
  intro id hid hne s' hstep
  obtain ⟨sh, p, hadvance, rfl⟩ := step_eq_some hstep
  dsimp only at hid hne ⊢
  cases hpc : s.pc i with
  | sending interruptId k =>
    rw [hpc] at hadvance
    cases a with
    | sent ok =>
      cases hadvance
      rfl
    | _ => cases hadvance
  | finishing interruptId ok k =>
    rw [hpc] at hadvance hid
    obtain rfl : interruptId = id := Option.some.inj hid
    obtain ⟨rfl, -⟩ := onGo_eq_some hadvance
    unfold SafetyNet.finish finishInterrupt
    rw [if_neg fun h => hne h.2]
  | _ =>
    rw [hpc] at hid
    cases hid

/-- In a run in which no late cancellation hits the deferred call, the deferred call watches over the
interrupt. -/
theorem safety_net {l : List (Sys × Nat × Action)} (run : Run l s) (htimely : ∀ x ∈ l, Timely x) :
    (Quiet s → Covered s) ∧ ∀ x ∈ l, LatestOnly x := by
  have hinv : Inv s := run.invariant inv_start (fun s x s' h => h.ofStep) htimely
  exact ⟨hinv.covered, fun x _ => latestOnly x⟩

/-! ## Two runs -/

instance (x : Sys × Nat × Action) : Decidable (Timely x) :=
  match h : x.1.pc x.2.1 with
  | .cancelling since => decidable_of_iff (x.1.shared.scheduleCalls = since) (by simp [Timely, h])
  | .idle | .adding .. | .sending .. | .finishing .. | .scheduling _ | .forcing | .taking | .serving _ | .restoring _
  | .draining | .ending => isTrue (by simp [Timely, h])

/-- An event is sent and fetched, and another is sent. -/
def twoEvents : List (Nat × Action) :=
  let send := [(0, .activate (bit 3) false), (0, .go), (0, .sent true), (0, .go), (0, .go)]
  let fetch := [(1, .getNext), (1, .go), (1, .answer (.data none)), (1, .go), (1, .go)]
  send ++ fetch ++ send

/-- The second event is sent before the deferred call is cancelled that was for the first. -/
def lateCancel : List (Nat × Action) :=
  let send := [(0, .activate (bit 3) false), (0, .go), (0, .sent true), (0, .go), (0, .go)]
  let fetch := [(1, .getNext), (1, .go), (1, .answer (.data none)), (1, .go)]
  send ++ fetch ++ send ++ [(1, .go)]

theorem quiet_of_two {l : List (Sys × Nat × Action)} (run : Run l s) (hl : ∀ x ∈ l, x.2.1 < 2)
    (h₀ : s.pc 0 = .idle) (h₁ : s.pc 1 = .idle) : Quiet s
  | 0 => h₀
  | 1 => h₁
  | i + 2 => untouched run fun x hx => by have := hl x hx; omega

theorem safety_net_two_events : ∃ l s, Run l s ∧ l.length = 15 ∧ Quiet s ∧ Covered s := by
  have hrun : (Steps.trace (Lib.Tasks.step advance) twoEvents ([], start)).any fun q =>
      decide (q.1.length = 15 ∧ (∀ x ∈ q.1, x.2.1 < 2) ∧ (∀ x ∈ q.1, Timely x) ∧ q.2.pc 0 = .idle ∧ q.2.pc 1 = .idle) := by
    decide +kernel
  obtain ⟨l, s, run, -, hlength, htasks, htimely, h₀, h₁⟩ := Steps.exists_run hrun
  have hquiet := quiet_of_two run htasks h₀ h₁
  exact ⟨l, s, run, hlength, hquiet, (safety_net run htimely).1 hquiet⟩

/-- The interrupt is active, and nothing will send it again. -/
theorem late_cancel_uncovers : ∃ l s, Run l s ∧ Quiet s ∧ ¬Covered s := by
  have hrun : (Steps.trace (Lib.Tasks.step advance) lateCancel ([], start)).any fun q =>
      decide ((∀ x ∈ q.1, x.2.1 < 2) ∧ (q.2.pc 0 = .idle ∧ q.2.pc 1 = .idle) ∧
        q.2.shared.state.interrupt = .active ∧ q.2.shared.state.forceScheduled = false) := by
    decide +kernel
  obtain ⟨l, s, run, -, htasks, ⟨h₀, h₁⟩, hactive, hscheduled⟩ := Steps.exists_run hrun
  refine ⟨l, s, run, quiet_of_two run htasks h₀ h₁, fun hcovered => ?_⟩
  rw [hcovered.active hactive] at hscheduled
  cases hscheduled

end ChromeEc.Mkbp.SafetyNet
