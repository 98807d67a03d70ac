import ChromeEc.Lib.Steps
import ChromeEc.Mkbp.Event

/- The host events of `common/host_event_commands.c`, on a board that is not x86 and that has
  `CONFIG_MKBP_EVENT`.

  A 64-bit operation on the events is done on the two halves one after the other; here it is
  one operation.

  Correspondence (C ↔ Lean):
    `events`, `events_copy_b` ↔ `St.events`, `St.eventsCopyB`
    `host_get_memmap(EC_MEMMAP_HOST_EVENTS)` ↔ `St.memmap`
    `struct mkbp_state` of `common/mkbp_event.c` ↔ `St.mkbp`
    `CONFIG_HOST_EVENT_REPORT_MASK` ↔ `Config.reportMask`
  That the board goes into manual recovery comes back as a flag.

  Host events are not stranded behind MKBP.

  An event in the lower half always has one of the two notifications, and the memory map
  always shows the events (`Inv`). An event in the upper half needs the notification with 64
  bits. It is sent when nothing is set in the lower half, so it is missing when both halves
  are set at once and it was not pending before (`Told`). -/
namespace ChromeEc.HostEvent
open Mkbp

abbrev HostEvents := BitVec 64

/-- `CONFIG_HOST_EVENT_REPORT_MASK` and `CONFIG_ZTEST`. -/
structure Config where
  reportMask : HostEvents
  ztest : Bool

structure St where
  events : HostEvents
  eventsCopyB : HostEvents
  memmap : HostEvents
  mkbp : EventState
  deriving DecidableEq

def St.initial : St := ⟨0, 0, 0, .initial⟩

section

variable (c : Config) (e : Env)

/-- `(uint32_t)e`. -/
def lo (events : HostEvents) : BitVec 32 := events.setWidth 32

/-- `(uint32_t)(e >> 32)`. -/
def hi (events : HostEvents) : BitVec 32 := (events >>> 32).setWidth 32

/-- `EC_HOST_EVENT_MASK(EC_HOST_EVENT_KEYBOARD_RECOVERY)`. -/
def keyboardRecoveryMask : HostEvents := 1 <<< 14

/-- `mkbp_send_event` looks at the host events that are set. -/
def sendMkbp (t : EventType) (s : St) : St :=
  { s with mkbp := (mkbpSendEvent { e with hostEvents := lo s.events } t s.mkbp).2 }

def hostEventsSendMkbpEvent (events : HostEvents) (s : St) : St :=
  if lo events = 0#32 then sendMkbp e EventType.hostEvent64 s else sendMkbp e EventType.hostEvent s

/-- The first result says that the board goes into manual recovery. -/
def hostSetEvents (mask : HostEvents) (s : St) : Bool × St :=
  let mask := mask &&& c.reportMask
  if s.events &&& mask ≠ mask ∨ s.eventsCopyB &&& mask ≠ mask then
    let recovery := !c.ztest && mask &&& keyboardRecoveryMask != 0
    let events := s.events ||| mask
    let s := { s with events, eventsCopyB := s.eventsCopyB ||| mask, memmap := events }
    (recovery, hostEventsSendMkbpEvent e events s)
  else
    (false, s)

def hostClearEvents (mask : HostEvents) (s : St) : St :=
  let mask := mask &&& c.reportMask
  if s.events &&& mask = 0 then
    s
  else
    let events := s.events &&& ~~~mask
    hostEventsSendMkbpEvent e events { s with events, memmap := events }

def hostGetNextEvent (s : St) : BitVec 32 × St :=
  let eventOut := lo s.events
  let events := s.events &&& ~~~eventOut.setWidth 64
  (eventOut, { s with events, memmap := events })

def hostGetNextEvent64 (s : St) : HostEvents × St :=
  let eventOut := s.events
  let events := s.events &&& ~~~eventOut
  (eventOut, { s with events, memmap := events })

def hostClearEventsB (mask : HostEvents) (s : St) : St := { s with eventsCopyB := s.eventsCopyB &&& ~~~mask }

def clearEventsCopyB (s : St) : St := { s with eventsCopyB := 0 }

/-! ## Calls in any order -/

inductive Call where
  | setEvents (e : Env) (mask : HostEvents)
  | clearEvents (e : Env) (mask : HostEvents)
  | read (t : EventType)
  | clearEventsB (mask : HostEvents)
  | clearCopyB
  /-- Another module sends an event of its own. -/
  | send (e : Env) (t : EventType)
  | force (e : Env)

def getData (t : EventType) (s : St) : St :=
  if t = EventType.hostEvent then (hostGetNextEvent s).2
  else if t = EventType.hostEvent64 then (hostGetNextEvent64 s).2
  else s

/-- An event is taken, its data is read, and the interrupt ends with the last event. -/
def apRead (t : EventType) (s : St) : Option St :=
  match takeEventIfSet t s.mkbp with
  | (false, _) => none
  | (true, mkbp) =>
    let s := getData t { s with mkbp }
    some { s with mkbp := (setInactiveIfNoEvents s.mkbp).2 }

def step (c : Config) : Call → St → Option St
  | .setEvents e mask, s => some (hostSetEvents c e mask s).2
  | .clearEvents e mask, s => some (hostClearEvents c e mask s)
  | .read t, s => apRead t s
  | .clearEventsB mask, s => some (hostClearEventsB mask s)
  | .clearCopyB, s => some (clearEventsCopyB s)
  | .send e t, s => some (sendMkbp e t s)
  | .force e, s => some { s with mkbp := forceMkbpIfEvents { e with hostEvents := lo s.events } s.mkbp }

end

/-! ## What is told -/

open Lib Steps

variable {c : Config} {e : Env} {s s' : St} {call : Call}

/-- `EC_MKBP_EVENT_*` is pending. -/
def Pends (t : EventType) (s : St) : Prop := s.mkbp.events.getLsbD t = true

instance {t : EventType} : Decidable (Pends t s) := inferInstanceAs (Decidable (_ = true))

structure Inv (s : St) : Prop where
  lower : lo s.events ≠ 0#32 → Pends EventType.hostEvent s ∨ Pends EventType.hostEvent64 s
  memmap : s.memmap = s.events

def Upper (s : St) : Prop := hi s.events ≠ 0#32 → Pends EventType.hostEvent64 s

/-- An AP that has drained all events of MKBP has all host events. -/
def Drains (s : St) : Prop := s.mkbp.events = 0#32 → s.events = 0

structure Notified (s : St) : Prop where
  upper : Upper s
  lower : lo s.events ≠ 0#32 → Pends EventType.hostEvent s ∨ Pends EventType.hostEvent64 s
  drains : Drains s
  memmap : s.memmap = s.events

/-- A call that sets events in both halves finds the notification with 64 bits pending. -/
def Told (c : Config) : St × Call → Prop
  | (s, .setEvents _ mask) =>
    let mask := mask &&& c.reportMask
    s.events &&& mask ≠ mask ∨ s.eventsCopyB &&& mask ≠ mask →
      lo (s.events ||| mask) ≠ 0#32 → hi (s.events ||| mask) ≠ 0#32 → Pends EventType.hostEvent64 s
  | _ => True

instance : ∀ x : St × Call, Decidable (Told c x)
  | (s, .setEvents _ mask) => inferInstanceAs (Decidable (s.events &&& (mask &&& c.reportMask) ≠ mask &&& c.reportMask ∨
      s.eventsCopyB &&& (mask &&& c.reportMask) ≠ mask &&& c.reportMask → lo (s.events ||| mask &&& c.reportMask) ≠ 0#32 →
        hi (s.events ||| mask &&& c.reportMask) ≠ 0#32 → Pends EventType.hostEvent64 s))
  | (_, .clearEvents _ _) => isTrue trivial
  | (_, .read _) => isTrue trivial
  | (_, .clearEventsB _) => isTrue trivial
  | (_, .clearCopyB) => isTrue trivial
  | (_, .send _ _) => isTrue trivial
  | (_, .force _) => isTrue trivial

/-! ## The halves -/

theorem hi_and (a b : HostEvents) : hi (a &&& b) = hi a &&& hi b := by
  unfold hi
  rw [BitVec.ushiftRight_and_distrib, BitVec.setWidth_and]

theorem hi_ne_of_and {a b : HostEvents} (h : hi (a &&& b) ≠ 0#32) : hi a ≠ 0#32 := by
  intro hzero
  rw [hi_and, hzero, BitVec.zero_and] at h
  exact h rfl

theorem eq_zero_of_halves {a : HostEvents} (hlo : lo a = 0#32) (hhi : hi a = 0#32) : a = 0 := by
  refine BitVec.eq_of_getLsbD_eq fun i hi64 => ?_
  by_cases h32 : i < 32
  · have hbit := congrArg (fun x => x.getLsbD i) hlo
    simpa [lo, h32] using hbit
  · have hbit := congrArg (fun x => x.getLsbD (i - 32)) hhi
    have hsum : 32 + (i - 32) = i := by omega
    simpa [hi, hsum, show i - 32 < 32 by omega] using hbit

theorem lo_taken {a : HostEvents} : lo (a &&& ~~~(lo a).setWidth 64) = 0#32 := by
  unfold lo
  refine BitVec.eq_of_getLsbD_eq fun i hlt => ?_
  simp [hlt]

theorem lo_zero : lo 0 = 0#32 := rfl

theorem hi_zero : hi 0 = 0#32 := rfl

/-! ## The notifications -/

@[simp] theorem sendMkbp_events {t : EventType} : (sendMkbp e t s).events = s.events := rfl

theorem pends_send {t u : EventType} : Pends u (sendMkbp e t s) ↔ Pends u s ∨ u = t := by
  have hlt : (u : Nat) < 32 := Nat.lt_trans u.isLt (by decide)
  unfold Pends sendMkbp
  rw [sendEvent_events, BitVec.getLsbD_or, getLsbD_bit, Bool.or_eq_true]
  simp [hlt, Fin.ext_iff]

theorem notify_eq {events : HostEvents} : hostEventsSendMkbpEvent e events s =
    sendMkbp e (if lo events = 0#32 then EventType.hostEvent64 else EventType.hostEvent) s := by
  unfold hostEventsSendMkbpEvent
  split <;> rfl

theorem inv_notify (hmemmap : s.memmap = s.events) : Inv (hostEventsSendMkbpEvent e s.events s) := by
  rw [notify_eq]
  refine ⟨fun hlower => .inl (pends_send.mpr (.inr ?_)), hmemmap⟩
  rw [sendMkbp_events] at hlower
  rw [if_neg hlower]

theorem upper_notify : Upper (hostEventsSendMkbpEvent e s.events s) ↔
    (lo s.events ≠ 0#32 → hi s.events ≠ 0#32 → Pends EventType.hostEvent64 s) := by
  have hdiffer : EventType.hostEvent64 ≠ EventType.hostEvent := by decide
  unfold Upper
  rw [notify_eq, sendMkbp_events, pends_send]
  by_cases hlower : lo s.events = 0#32
  · rw [if_pos hlower]
    exact iff_of_true (fun _ => .inr rfl) fun hne => absurd hlower hne
  · rw [if_neg hlower]
    exact ⟨fun h _ hupper => (h hupper).resolve_right hdiffer, fun h hupper => .inl (h hlower hupper)⟩

theorem drains_of (hinv : Inv s) (hupper : Upper s) : Drains s := by
  intro hnone
  have hquiet : ∀ t : EventType, ¬Pends t s := by
    intro t ht
    rw [Pends, hnone] at ht
    exact absurd ht (by simp)
  refine eq_zero_of_halves ?_ ?_
  · by_contra hlower
    exact (hinv.lower hlower).elim (hquiet _) (hquiet _)
  · by_contra hne
    exact hquiet _ (hupper hne)

theorem notified_of (hinv : Inv s) (hupper : Upper s) : Notified s :=
  ⟨hupper, hinv.lower, drains_of hinv hupper, hinv.memmap⟩

/-! ## The steps -/

theorem kept (hinv : Inv s) (hevents : s'.events = s.events) (hmemmap : s'.memmap = s.memmap)
    (hpends : ∀ t, Pends t s → Pends t s') : Inv s' ∧ (Upper s → Upper s') := by
  constructor
  · constructor
    · intro hlower
      rw [hevents] at hlower
      exact (hinv.lower hlower).imp (hpends _) (hpends _)
    · rw [hmemmap, hevents]
      exact hinv.memmap
  · intro hupper hne
    rw [hevents] at hne
    exact hpends _ (hupper hne)

theorem set_step {mask : HostEvents} (hinv : Inv s) (h : step c (.setEvents e mask) s = some s') :
    Inv s' ∧ (Upper s → (Upper s' ↔ Told c (s, .setEvents e mask))) := by
  obtain rfl := Option.some.inj h
  unfold hostSetEvents Told
  dsimp only
  by_cases hchanged : s.events &&& (mask &&& c.reportMask) ≠ mask &&& c.reportMask ∨
      s.eventsCopyB &&& (mask &&& c.reportMask) ≠ mask &&& c.reportMask
  · rw [if_pos hchanged]
    let t : St := { s with
      events := s.events ||| mask &&& c.reportMask
      eventsCopyB := s.eventsCopyB ||| mask &&& c.reportMask
      memmap := s.events ||| mask &&& c.reportMask }
    have hiff : Upper (hostEventsSendMkbpEvent e t.events t) ↔ _ := upper_notify
    exact ⟨inv_notify (s := t) rfl, fun _ => hiff.trans ⟨fun h _ => h, fun h => h hchanged⟩⟩
  · rw [if_neg hchanged]
    exact ⟨hinv, fun hupper => iff_of_true hupper fun hyes => absurd hyes hchanged⟩

theorem clear_step {mask : HostEvents} (hinv : Inv s) (h : step c (.clearEvents e mask) s = some s') :
    Inv s' ∧ (Upper s → Upper s') := by
  obtain rfl := Option.some.inj h
  unfold hostClearEvents
  dsimp only
  split
  · exact ⟨hinv, id⟩
  · let t : St := { s with
      events := s.events &&& ~~~(mask &&& c.reportMask), memmap := s.events &&& ~~~(mask &&& c.reportMask) }
    have hiff : Upper (hostEventsSendMkbpEvent e t.events t) ↔ _ := upper_notify
    -- what is still set was set before, with its notification
    exact ⟨inv_notify (s := t) rfl, fun hupper => hiff.mpr fun _ hne => hupper (hi_ne_of_and hne)⟩

theorem getData_mkbp {t : EventType} {mkbp : EventState} :
    getData t { s with mkbp } = { getData t s with mkbp := mkbp } := by
  unfold getData
  split
  · rfl
  · split <;> rfl

theorem apRead_spec {t : EventType} (h : apRead t s = some s') : s'.events = (getData t s).events ∧
    s'.memmap = (getData t s).memmap ∧ ∀ u, u ≠ t → Pends u s → Pends u s' := by
  unfold apRead at h
  split at h
  · cases h
  · rename_i mkbp htake
    have htaken : mkbp.events = s.mkbp.events &&& ~~~bit t := by
      unfold takeEventIfSet at htake
      rw [← (Prod.mk.inj htake).2]
    obtain rfl := Option.some.inj h
    dsimp only
    rw [getData_mkbp]
    refine ⟨rfl, rfl, fun u hne hu => ?_⟩
    have hother : (u : Nat) ≠ t := fun heq => hne (Fin.ext heq)
    unfold Pends at hu ⊢
    rw [setInactive_events, htaken, getLsbD_and_not_bit, hu]
    simp [hother]

theorem read_step {t : EventType} (hinv : Inv s) (h : apRead t s = some s') : Inv s' ∧ (Upper s → Upper s') := by
  obtain ⟨hevents, hmemmap, hpends⟩ := apRead_spec h
  unfold getData hostGetNextEvent hostGetNextEvent64 at hevents hmemmap
  split at hevents
  · -- the lower half is read, and the other notification stays for the upper one
    rename_i ht
    rw [if_pos ht] at hmemmap
    have hlower : lo s'.events = 0#32 := by rw [hevents, lo_taken]
    refine ⟨⟨fun hne => absurd hlower hne, hmemmap.trans hevents.symm⟩, fun hupper hne => ?_⟩
    rw [hevents] at hne
    have hdiffer : EventType.hostEvent64 ≠ t := by
      rw [ht]
      decide
    exact hpends _ hdiffer (hupper (hi_ne_of_and hne))
  · rename_i ht
    rw [if_neg ht] at hmemmap
    split at hevents
    · rename_i ht64
      rw [if_pos ht64] at hmemmap
      have hnone : s'.events = 0 := hevents.trans (BitVec.and_not_self _)
      refine ⟨⟨fun hne => absurd ?_ hne, hmemmap.trans hevents.symm⟩, fun _ hne => absurd ?_ hne⟩
      · rw [hnone, lo_zero]
      · rw [hnone, hi_zero]
    · rename_i ht64
      rw [if_neg ht64] at hmemmap
      refine ⟨⟨fun hne => ?_, hmemmap.trans (hinv.memmap.trans hevents.symm)⟩, fun hupper hne => ?_⟩
      · rw [hevents] at hne
        exact (hinv.lower hne).imp (hpends _ (Ne.symm ht)) (hpends _ (Ne.symm ht64))
      · rw [hevents] at hne
        exact hpends _ (Ne.symm ht64) (hupper hne)

/-- What one call keeps, and what is left to the call. -/
theorem step_upper (hinv : Inv s) (h : step c call s = some s') :
    Inv s' ∧ (Upper s → (Upper s' ↔ Told c (s, call))) := by
  have hdone : Inv s' ∧ (Upper s → Upper s') → Told c (s, call) →
      Inv s' ∧ (Upper s → (Upper s' ↔ Told c (s, call))) :=
    fun hboth htold => ⟨hboth.1, fun hupper => iff_of_true (hboth.2 hupper) htold⟩
  cases call with
  | setEvents e mask => exact set_step hinv h
  | clearEvents e mask => exact hdone (clear_step hinv h) trivial
  | read t => exact hdone (read_step hinv h) trivial
  | clearEventsB mask =>
    obtain rfl := Option.some.inj h
    exact hdone (kept hinv rfl rfl fun _ => id) trivial
  | clearCopyB =>
    obtain rfl := Option.some.inj h
    exact hdone (kept hinv rfl rfl fun _ => id) trivial
  | send e t =>
    obtain rfl := Option.some.inj h
    exact hdone (kept hinv rfl rfl fun _ hu => pends_send.mpr (.inl hu)) trivial
  | force e =>
    obtain rfl := Option.some.inj h
    refine hdone (kept hinv rfl rfl fun u hu => ?_) trivial
    unfold Pends
    rw [force_events]
    exact hu

/-! ## Runs -/

def NotifiedAfter (c : Config) (x : St × Call) : Prop := ∀ s', step c x.2 x.1 = some s' → Notified s'

theorem notifiedAfter_iff (hinv : Inv s) (hupper : Upper s) (h : step c call s = some s') :
    NotifiedAfter c (s, call) ↔ Told c (s, call) := by
  obtain ⟨hinv', hiff⟩ := step_upper hinv h
  rw [← hiff hupper]
  refine ⟨fun hafter => (hafter s' h).upper, fun hupper' t ht => ?_⟩
  obtain rfl := Option.some.inj (h.symm.trans ht)
  exact notified_of hinv' hupper'

theorem inv_initial : Inv .initial := ⟨fun hne => absurd lo_zero hne, rfl⟩

theorem upper_initial : Upper .initial := fun hne => absurd hi_zero hne

theorem always_notified_iff {l : List (St × Call)} (h : Run (step c) .initial l s) :
    (∀ x ∈ l, NotifiedAfter c x) ↔ ∀ x ∈ l, Told c x := by
  refine Run.forall_iff (P := fun s => Inv s ∧ Upper s) ⟨inv_initial, upper_initial⟩ ?_ ?_ h
  · intro s call s' ⟨hinv, hupper⟩ htold hstep
    obtain ⟨hinv', hiff⟩ := step_upper hinv hstep
    exact ⟨hinv', (hiff hupper).mpr htold⟩
  · intro s call s' ⟨hinv, hupper⟩ hstep
    exact notifiedAfter_iff hinv hupper hstep

/-- In every run the lower half has a notification and the memory map shows the events, and all states have all
notifications exactly when no call that sets both halves misses the one with 64 bits. -/
theorem notified_iff {l : List (St × Call)} (h : Run (step c) .initial l s) :
    Inv s ∧ ((∀ x ∈ l, NotifiedAfter c x) ↔ ∀ x ∈ l, Told c x) :=
  ⟨Run.holds inv_initial (fun _ _ _ hinv hstep => (step_upper hinv hstep).1) h, always_notified_iff h⟩

def exampleConfig : Config := ⟨0xffffffffffffffff, false⟩

def exampleEnv : Env := ⟨false, 0, none, none, true⟩

def readsBoth : List Call :=
  [.setEvents exampleEnv 0x100000000, .setEvents exampleEnv 1, .read EventType.hostEvent, .read EventType.hostEvent64]

theorem notified_both : ∃ l s, Run (step exampleConfig) .initial l s ∧ l.map Prod.snd = readsBoth ∧ s.events = 0 ∧
    ∀ x ∈ l, NotifiedAfter exampleConfig x := by
  have hsome : (trace (step exampleConfig) readsBoth ([], .initial)).any fun r =>
      decide (r.2.events = 0 ∧ ∀ x ∈ r.1, Told exampleConfig x) := by decide +kernel
  obtain ⟨l, s, run, hlabels, hzero, htold⟩ := exists_run hsome
  exact ⟨l, s, run, hlabels, hzero, (notified_iff run).2.mpr htold⟩

def lowerFirst : List Call :=
  [.setEvents exampleEnv 1, .setEvents exampleEnv 0x100000000, .read EventType.hostEvent]

theorem upper_half_stranded : ∃ l s, Run (step exampleConfig) .initial l s ∧ l.map Prod.snd = lowerFirst ∧
    s.mkbp.events = 0#32 ∧ s.events = 0x100000000 ∧ ¬∀ x ∈ l, NotifiedAfter exampleConfig x := by
  have hsome : (trace (step exampleConfig) lowerFirst ([], .initial)).any fun r =>
      decide (r.2.mkbp.events = 0#32 ∧ r.2.events = 0x100000000 ∧ ¬∀ x ∈ r.1, Told exampleConfig x) := by decide +kernel
  obtain ⟨l, s, run, hlabels, hnone, hevents, huntold⟩ := exists_run hsome
  exact ⟨l, s, run, hlabels, hnone, hevents, fun h => huntold ((always_notified_iff run).mp h)⟩

end ChromeEc.HostEvent
