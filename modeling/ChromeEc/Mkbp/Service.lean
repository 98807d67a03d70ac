import ChromeEc.Mkbp.NextEvent

/- Every call of `mkbp_get_next_event` ends, as long as clearing the keyboard entries does
  not bring an entry to the front whose event is not set.

  The bits of the events and the entries of the FIFO are kept apart. `HeadSet` links them:
  the event of the first entry is set. Adding an entry sets its event, and fetching one
  sets that of the next. `mkbp_fifo_clear_keyboard` sets nothing, so that the entry that
  comes first then may be one whose event was taken and not put back.

  What is proved: a run is served throughout if and only if each call of
  `mkbp_fifo_clear_keyboard` leaves a first entry whose event is set
  (`getNextEvent_ends_iff`). -/
namespace ChromeEc.Mkbp
open Lib

def HeadSet (s : St) : Prop :=
  s.fifoEntries ≠ 0 → s.state.events.getLsbD (s.fifo s.fifoStart).eventType = true

instance (s : St) : Decidable (HeadSet s) := inferInstanceAs (Decidable (_ → _))

/-- The first entry that is not from the keyboard has its event set. -/
def NextSet (s : St) : Prop :=
  ∀ x ∈ (entries s).find? notKeyboard, s.state.events.getLsbD x.eventType = true

/-- The calls of the other tasks and of the host. Only events of the common FIFO are added to it. -/
inductive Call (c : Config) where
  | fifoAdd (t : EventType) (backed : fifoBacked c t = true) (buffp : Bytes)
  | clearKeyboard
  | clearFifo
  | depthUpdate (newMaxDepth : Nat) (le : newMaxDepth ≤ fifoDepth)
  | sendEvent (t : EventType)
  | forceMkbp
  | getNextEvent (version : Nat)

structure Input (c : Config) where
  env : Env
  others : EventType → OtherData
  call : Call c

variable {c : Config}

/-- The call is over within so many passes. -/
def step (fuel : Nat) (i : Input c) (s : St) : Option St :=
  match i.call with
  | .fifoAdd t _ buffp => some (mkbpFifoAdd c i.env t buffp s).2
  | .clearKeyboard => some (mkbpFifoClearKeyboard s)
  | .clearFifo => some (mkbpClearFifo s)
  | .depthUpdate newMaxDepth _ => some (mkbpFifoDepthUpdate newMaxDepth s)
  | .sendEvent t => some (sendEvent i.env t s).2
  | .forceMkbp => some { s with state := forceMkbpIfEvents i.env s.state }
  | .getNextEvent version => (mkbpGetNextEvent c i.env i.others fuel version s).map fun r => r.2.1

/-- A run from the reset, with the state before each call. -/
inductive Run (c : Config) : List (St × Input c) → St → Prop where
  | reset : Run c [] .initial
  | call {l : List (St × Input c)} {s s' : St} {fuel : Nat} {i : Input c} (run : Run c l s)
      (h : step fuel i s = some s') : Run c (l ++ [(s, i)]) s'

/-- Whenever no call is in progress, the event of the first entry is set and `mkbp_get_next_event` would
end. -/
def Served (c : Config) (s : St) : Prop :=
  HeadSet s ∧ ∀ e others version, ∃ fuel, (mkbpGetNextEvent c e others fuel version s).isSome

/-- Only events that exist are set, and the FIFO is in order. -/
structure Good (c : Config) (s : St) : Prop where
  shaped : Shaped c s
  events : ∀ n, eventCount ≤ n → s.state.events.getLsbD n = false

variable {s : St} {e : Env} {others : EventType → OtherData} {r : Response}

theorem good_initial (c : Config) : Good c .initial where
  shaped := ⟨by decide, by decide, by decide, by decide, by simp [entries, St.initial]⟩
  events := by simp [St.initial, EventState.initial]

theorem Good.withState (h : Good c s) {state : EventState} (last : Nat)
    (hevents : ∀ n, eventCount ≤ n → state.events.getLsbD n = false) :
    Good c { s with state, last } where
  shaped := ⟨h.shaped.start_lt, h.shaped.entries_le, h.shaped.depth_le, h.shaped.end_eq, h.shaped.backed⟩
  events := hevents

theorem or_bit_above {x : BitVec 32} (h : ∀ n, eventCount ≤ n → x.getLsbD n = false) (t : EventType) :
    ∀ n, eventCount ≤ n → (x ||| bit t).getLsbD n = false := by
  intro n hn
  have hne : n ≠ t := Nat.ne_of_gt (Nat.lt_of_lt_of_le t.isLt hn)
  rw [BitVec.getLsbD_or, getLsbD_bit, h n hn]
  simp [hne]

theorem and_not_bit_above {x : BitVec 32} (h : ∀ n, eventCount ≤ n → x.getLsbD n = false) (t : Nat) :
    ∀ n, eventCount ≤ n → (x &&& ~~~bit t).getLsbD n = false := by
  intro n hn
  rw [getLsbD_and_not_bit, h n hn, Bool.false_and]

theorem Good.sendEvent (h : Good c s) (t : EventType) : Good c (sendEvent e t s).2 := by
  apply h.withState s.last
  rw [sendEvent_events]
  exact or_bit_above h.events t

theorem HeadSet.sendEvent (h : HeadSet s) (t : EventType) : HeadSet (sendEvent e t s).2 := by
  intro hne
  show (mkbpSendEvent e t s.state).2.events.getLsbD (s.fifo s.fifoStart).eventType = true
  rw [sendEvent_events, BitVec.getLsbD_or, h hne, Bool.true_or]

theorem headSet_sendEvent {t : EventType} (hhead : s.fifoEntries ≠ 0 → (s.fifo s.fifoStart).eventType = t) :
    HeadSet (sendEvent e t s).2 := by
  intro hne
  have hlt : (t : Nat) < 32 := Nat.lt_trans t.isLt (by decide)
  show (mkbpSendEvent e t s.state).2.events.getLsbD (s.fifo s.fifoStart).eventType = true
  rw [sendEvent_events, BitVec.getLsbD_or, hhead hne, getLsbD_bit]
  simp [hlt]

/-! ## The FIFO functions -/

theorem Good.fifoAdd (h : Good c s) {t : EventType} (ht : fifoBacked c t = true) (buffp : Bytes) :
    Good c (mkbpFifoAdd c e t buffp s).2 := by
  rw [fifoAdd_eq]
  split
  · exact h
  · rename_i hroom
    have hlt : s.fifoEntries < fifoDepth := Nat.lt_of_lt_of_le (Nat.lt_of_not_le hroom) h.shaped.depth_le
    have hpushed : Good c (pushed c t buffp s) := ⟨h.shaped.pushed hlt ht buffp, h.events⟩
    exact hpushed.sendEvent t

theorem HeadSet.fifoAdd (h : HeadSet s) (hgood : Good c s) (t : EventType) (buffp : Bytes) :
    HeadSet (mkbpFifoAdd c e t buffp s).2 := by
  rw [fifoAdd_eq]
  split
  · exact h
  · rename_i hroom
    have hlt : s.fifoEntries < fifoDepth := Nat.lt_of_lt_of_le (Nat.lt_of_not_le hroom) hgood.shaped.depth_le
    by_cases hnil : s.fifoEntries = 0
    · -- the new entry is the first one
      apply headSet_sendEvent
      intro _
      have hend : s.fifoEnd = s.fifoStart := by
        rw [hgood.shaped.end_eq, hnil, Nat.add_zero, Nat.mod_eq_of_lt hgood.shaped.start_lt]
      simp [pushed, hend]
    · have hother : s.fifoStart ≠ s.fifoEnd := by
        intro heq
        have hstart := hgood.shaped.start_lt
        have hend := hgood.shaped.end_eq
        rw [mod_add_of_lt (by decide) hlt, Nat.mod_eq_of_lt hstart] at hend
        split at hend <;> omega
      apply HeadSet.sendEvent
      intro _
      show s.state.events.getLsbD ((pushed c t buffp s).fifo s.fifoStart).eventType = true
      rw [pushed]
      simp only [if_neg hother]
      exact h hnil

theorem Good.clearFifo (h : Good c s) : Good c (mkbpClearFifo s) where
  shaped := ⟨(by decide : 0 < fifoDepth), Nat.zero_le _, h.shaped.depth_le, rfl, by simp [entries, mkbpClearFifo]⟩
  events := h.events

theorem Good.clearKeyboard (h : Good c s) : Good c (mkbpFifoClearKeyboard s) where
  shaped := h.shaped.clearKeyboard
  events := by
    rw [clearKeyboard_eq h.shaped.start_lt]
    exact h.events

theorem headSet_iff (h : Shaped c s) :
    HeadSet s ↔ ∀ x ∈ (entries s).head?, s.state.events.getLsbD x.eventType = true := by
  by_cases hnil : s.fifoEntries = 0
  · rw [entries_eq_nil.mpr hnil]
    simp [HeadSet, hnil]
  · rw [entries_popped h.ringed hnil]
    simp [HeadSet, hnil]

/-- Clearing the keyboard entries leaves the first entry set that is not from the keyboard, or not. -/
theorem headSet_clearKeyboard (h : Good c s) : HeadSet (mkbpFifoClearKeyboard s) ↔ NextSet s := by
  have hstate : (mkbpFifoClearKeyboard s).state = s.state := by rw [clearKeyboard_eq h.shaped.start_lt]
  rw [headSet_iff h.shaped.clearKeyboard, entries_clearKeyboard h.shaped.ringed, List.head?_filter, hstate]
  rfl

/-! ## `mkbp_get_next_event` -/

structure Ready (c : Config) (s : St) : Prop where
  good : Good c s
  headSet : HeadSet s

theorem Ready.sendEvent (h : Ready c s) (t : EventType) : Ready c (sendEvent e t s).2 :=
  ⟨h.good.sendEvent t, h.headSet.sendEvent t⟩

theorem Ready.withState (h : Ready c s) {state : EventState} (last : Nat)
    (hevents : state.events = s.state.events) : Ready c { s with state, last } := by
  refine ⟨h.good.withState last (by rw [hevents]; exact h.good.events), ?_⟩
  intro hne
  show state.events.getLsbD (s.fifo s.fifoStart).eventType = true
  rw [hevents]
  exact h.headSet hne

theorem Ready.taken {k : Nat} (h : Ready c s)
    (hother : s.fifoEntries ≠ 0 → (s.fifo s.fifoStart).eventType ≠ typeAt s k) : Ready c (taken s k) := by
  refine ⟨h.good.withState _ (and_not_bit_above h.good.events _), ?_⟩
  intro hne
  show (s.state.events &&& ~~~bit (typeAt s k)).getLsbD (s.fifo s.fifoStart).eventType = true
  rw [getLsbD_and_not_bit, h.headSet hne]
  have hneq := hother hne
  simpa [Fin.ext_iff] using hneq

theorem ready_fifoGetNext {evt : EventType} (h : Good c s) (out : Bytes)
    (hhead : s.fifoEntries ≠ 0 → (s.fifo s.fifoStart).eventType = evt) :
    Ready c (mkbpFifoGetNextEvent c e out evt s).2.2 := by
  by_cases hnil : s.fifoEntries = 0
  · rw [fifoGetNext_empty out evt hnil]
    exact ⟨h, fun hne => absurd hnil hne⟩
  · rw [(fifoGetNext_head out hnil (hhead hnil)).2]
    have hpopped : Good c (popped s) := ⟨h.shaped.popped hnil, h.events⟩
    split
    · exact ⟨hpopped.sendEvent _, headSet_sendEvent fun _ => rfl⟩
    · rename_i hlast
      exact ⟨hpopped, fun hne => absurd hne hlast⟩

theorem Ready.serve {k : Nat} (h : Ready c s) (hserves : Serves c s (typeAt s k)) :
    Ready c (serve c e others (typeAt s k) (Mkbp.taken s k) r).2.1 := by
  have hgood : Good c (Mkbp.taken s k) := h.good.withState _ (and_not_bit_above h.good.events _)
  unfold Mkbp.serve
  cases hsrc : findMkbpEventSource c (typeAt s k) with
  | none =>
    apply h.taken
    intro hnonempty heq
    have hbacked := h.good.shaped.head_backed hnonempty
    rw [heq, fifoBacked, hsrc] at hbacked
    cases hbacked
  | some src =>
    have hne := @getData_ne_busy _ e others (Mkbp.taken s k) _ _ hsrc hserves r.data
    simp only [if_neg hne]
    cases src with
    | fifo =>
      have hbacked : fifoBacked c (typeAt s k) = true := by simp [fifoBacked, hsrc]
      exact ready_fifoGetNext hgood r.data (hserves hbacked)
    | other =>
      have htaken : Ready c (Mkbp.taken s k) := by
        apply h.taken
        intro hnonempty heq
        have hbacked := h.good.shaped.head_backed hnonempty
        rw [heq, fifoBacked, hsrc] at hbacked
        cases hbacked
      show Ready c (if (others (typeAt s k)).again then _ else _)
      split
      · exact htaken.sendEvent _
      · exact htaken

theorem Ready.pass (h : Ready c s) : Ready c (pass c e others s r).2.1 := by
  cases hfirst : firstFrom eventCount s.state.events.getLsbD s.last eventCount 0 with
  | none =>
    rw [pass_none hfirst]
    exact h.withState s.last setInactive_events
  | some k =>
    by_cases hserves : Serves c s (typeAt s k)
    · rw [pass_some hfirst]
      exact h.serve hserves
    · rw [pass_busy hfirst hserves]
      exact @Ready.withState _ _ h s.state _ rfl

theorem Ready.loop (h : Ready c s) {fuel : Nat} {x : Pass × St × Response}
    (hloop : loop c e others fuel s r = some x) : Ready c x.2.1 := by
  induction fuel generalizing s r with
  | zero => cases hloop
  | succ fuel ih =>
    have hpass : Ready c (Mkbp.pass c e others s r).2.1 := h.pass
    by_cases hagain : (Mkbp.pass c e others s r).1 = .again
    · rw [loop_of_again (Prod.ext hagain rfl : _ = (Pass.again, _, _))] at hloop
      exact ih hpass hloop
    · rw [loop_of_ne_again hagain] at hloop
      cases hloop
      exact hpass

theorem Ready.finish (version : Nat) {x : Pass × St × Response} (h : Ready c x.2.1) :
    Ready c (finish version x).2.1 := by
  obtain ⟨_ | _ | dataSize, s, r⟩ := x
  · exact h
  · exact h
  · have hset : Ready c { s with state := (setInactiveIfNoEvents s.state).2 } :=
      h.withState s.last setInactive_events
    unfold Mkbp.finish
    dsimp only
    split
    · split <;> exact hset
    · split <;> exact hset

theorem Ready.not_stuck (h : Ready c s) : ¬Stuck c s := by
  rintro ⟨hset, hwaits⟩
  by_cases hnil : s.fifoEntries = 0
  · apply hset
    apply BitVec.eq_of_getLsbD_eq
    intro n hn
    rw [BitVec.getLsbD_zero]
    by_cases hlt : n < eventCount
    · cases hbit : s.state.events.getLsbD n with
      | false => rfl
      | true => exact absurd (fun _ hne => absurd hnil hne) (hwaits ⟨n, hlt⟩ hbit)
    · exact h.good.events n (Nat.le_of_not_lt hlt)
  · exact hwaits _ (h.headSet hnil) fun _ _ => rfl

theorem Ready.served (h : Ready c s) : Served c s := by
  refine ⟨h.headSet, fun e others version => ⟨eventCount, ?_⟩⟩
  rw [mkbpGetNextEvent, Option.isSome_map]
  exact (loop_isSome_iff (Nat.le_refl _)).mpr h.not_stuck

/-! ## Runs -/

theorem ready_initial (c : Config) : Ready c .initial := ⟨good_initial c, fun hne => absurd rfl hne⟩

/-- Only clearing the keyboard entries can spoil it. -/
theorem Ready.step (h : Ready c s) {fuel : Nat} {i : Input c} {s' : St} (hstep : step fuel i s = some s') :
    Good c s' ∧ (HeadSet s' ↔ (i.call = .clearKeyboard → NextSet s)) := by
  obtain ⟨e, others, call⟩ := i
  have hready : ∀ {t : St}, Ready c t → call ≠ .clearKeyboard →
      Good c t ∧ (HeadSet t ↔ (call = .clearKeyboard → NextSet s)) :=
    fun ht hne => ⟨ht.good, fun _ heq => absurd heq hne, fun _ => ht.headSet⟩
  cases call with
  | clearKeyboard =>
    cases hstep
    refine ⟨h.good.clearKeyboard, ?_⟩
    rw [headSet_clearKeyboard h.good]
    simp
  | fifoAdd t backed buffp =>
    cases hstep
    exact hready ⟨h.good.fifoAdd backed buffp, h.headSet.fifoAdd h.good t buffp⟩ (by simp)
  | clearFifo =>
    cases hstep
    exact hready ⟨h.good.clearFifo, fun hne => absurd rfl hne⟩ (by simp)
  | depthUpdate newMaxDepth le =>
    cases hstep
    have hgood := h.good.shaped
    exact hready ⟨⟨⟨hgood.start_lt, hgood.entries_le, le, hgood.end_eq, hgood.backed⟩, h.good.events⟩, h.headSet⟩ (by simp)
  | sendEvent t =>
    cases hstep
    exact hready (h.sendEvent t) (by simp)
  | forceMkbp =>
    cases hstep
    exact hready (h.withState s.last (force_events e)) (by simp)
  | getNextEvent version =>
    simp only [Mkbp.step, mkbpGetNextEvent, Option.map_map, Option.map_eq_some_iff] at hstep
    obtain ⟨x, hloop, rfl⟩ := hstep
    exact hready (Ready.finish version (h.loop hloop)) (by simp)

def states (l : List (St × Input c)) (s : St) : List St := l.map Prod.fst ++ [s]

/-- Each call of `mkbp_fifo_clear_keyboard` leaves a first entry, if any, whose event is set. -/
def Careful (l : List (St × Input c)) : Prop := ∀ x ∈ l, x.2.call = .clearKeyboard → NextSet x.1

variable {l : List (St × Input c)}

theorem states_snoc (i : Input c) (s' : St) : states (l ++ [(s, i)]) s' = states l s ++ [s'] := by
  simp [states]

theorem mem_states_last : s ∈ states l s := List.mem_append_right _ (List.mem_singleton_self s)

theorem Run.ready (h : Run c l s) (hcareful : Careful l) : ∀ t ∈ states l s, Ready c t := by
  induction h with
  | reset =>
    intro t ht
    rw [List.mem_singleton.mp ht]
    exact ready_initial c
  | @call l s s' fuel i run hstep ih =>
    have hbefore : ∀ t ∈ states l s, Ready c t := ih fun x hx => hcareful x (List.mem_append_left _ hx)
    intro t ht
    rw [states_snoc, List.mem_append, List.mem_singleton] at ht
    obtain ht | rfl := ht
    · exact hbefore t ht
    · obtain ⟨hgood, hiff⟩ := (hbefore s mem_states_last).step hstep
      exact ⟨hgood, hiff.mpr (hcareful (s, i) (List.mem_append_right _ (List.mem_singleton_self _)))⟩

theorem Run.careful (h : Run c l s) (hset : ∀ t ∈ states l s, HeadSet t) : Careful l := by
  induction h with
  | reset => simp [Careful]
  | @call l s s' fuel i run hstep ih =>
    rw [states_snoc] at hset
    have hbefore : Careful l := ih fun t ht => hset t (List.mem_append_left _ ht)
    intro x hx
    rw [List.mem_append, List.mem_singleton] at hx
    obtain hx | rfl := hx
    · exact hbefore x hx
    · have hready := run.ready hbefore s mem_states_last
      exact (hready.step hstep).2.mp (hset s' (List.mem_append_right _ (List.mem_singleton_self s')))

/-- Every state of a run is served if and only if no call of `mkbp_fifo_clear_keyboard` brings an entry to
the front whose event is not set. -/
theorem getNextEvent_ends_iff (h : Run c l s) : (∀ t ∈ states l s, Served c t) ↔ Careful l := by
  constructor
  · intro hserved
    exact h.careful fun t ht => (hserved t ht).1
  · intro hcareful t ht
    exact (h.ready hcareful t ht).served

/-! ## A run that ends in the loop -/

instance (s : St) (t : EventType) : Decidable (Serves c s t) := inferInstanceAs (Decidable (_ → _))

instance (s : St) : Decidable (Stuck c s) := inferInstanceAs (Decidable (_ ∧ _))

instance (s : St) : Decidable (NextSet s) := inferInstanceAs (Decidable (∀ x ∈ (entries s).find? notKeyboard, _))

instance (call : Call c) : Decidable (call = .clearKeyboard) :=
  match call with
  | .clearKeyboard => isTrue rfl
  | .fifoAdd .. => isFalse nofun
  | .clearFifo => isFalse nofun
  | .depthUpdate .. => isFalse nofun
  | .sendEvent _ => isFalse nofun
  | .forceMkbp => isFalse nofun
  | .getNextEvent _ => isFalse nofun

instance (l : List (St × Input c)) : Decidable (Careful l) := List.decidableBAll _ _

def trace (fuel : Nat) (is : List (Input c)) : Option (List (St × Input c) × St) :=
  is.foldlM (fun p i => (step fuel i p.2).map fun s' => (p.1 ++ [(p.2, i)], s')) ([], .initial)

theorem run_of_foldlM {fuel : Nat} {is : List (Input c)} {p q : List (St × Input c) × St} (h : Run c p.1 p.2)
    (hq : is.foldlM (fun p i => (step fuel i p.2).map fun s' => (p.1 ++ [(p.2, i)], s')) p = some q) :
    Run c q.1 q.2 := by
  induction is generalizing p with
  | nil =>
    cases hq
    exact h
  | cons i is ih =>
    simp only [List.foldlM_cons, Option.bind_eq_bind, Option.bind_eq_some_iff, Option.map_eq_some_iff] at hq
    obtain ⟨_, ⟨s', hstep, rfl⟩, hrest⟩ := hq
    exact ih (.call h hstep) hrest

theorem Run.of_trace {fuel : Nat} {is : List (Input c)} {q : List (St × Input c) × St}
    (h : trace fuel is = some q) : Run c q.1 q.2 := run_of_foldlM .reset h

def awake (call : Call clamshell) : Input clamshell :=
  ⟨⟨false, 0, none, none, true⟩, fun _ => ⟨noData, 4, false, by decide⟩, call⟩

/-- A key is pressed between two buttons, the host fetches the first, and the keyboard is cleared. -/
def overtakenInputs : List (Input clamshell) :=
  [awake (.fifoAdd .button rfl noData), awake (.fifoAdd .keyMatrix rfl noData), awake (.fifoAdd .button rfl noData),
    awake (.getNextEvent 3), awake .clearKeyboard]

def clearedInputs : List (Input clamshell) :=
  [awake (.fifoAdd .button rfl noData), awake (.fifoAdd .keyMatrix rfl noData), awake (.fifoAdd .button rfl noData),
    awake .clearKeyboard, awake (.getNextEvent 3)]

theorem getNextEvent_ends_iff_cleared :
    ∃ l s, Run clamshell l s ∧ l.length = 5 ∧ ∀ t ∈ states l s, Served clamshell t := by
  have hcareful : (trace 13 clearedInputs).any fun q => decide (q.1.length = 5 ∧ Careful q.1) := by
    decide +kernel
  obtain ⟨q, hq, hdone⟩ := (Option.any_eq_true _ _).mp hcareful
  obtain ⟨hlength, hcareful⟩ := of_decide_eq_true hdone
  exact ⟨q.1, q.2, .of_trace hq, hlength, (getNextEvent_ends_iff (.of_trace hq)).mpr hcareful⟩

/-- After the button was fetched the key's event is sent, not that of the second button. -/
theorem head_not_set : ∃ l s, Run clamshell l s ∧ ¬HeadSet s ∧
    ∀ e others version fuel, mkbpGetNextEvent clamshell e others fuel version s = none := by
  have hstuck : (trace 13 overtakenInputs).any fun q => decide (¬HeadSet q.2 ∧ Stuck clamshell q.2) := by
    decide +kernel
  obtain ⟨q, hq, hdone⟩ := (Option.any_eq_true _ _).mp hstuck
  obtain ⟨hhead, hstuck⟩ := of_decide_eq_true hdone
  refine ⟨q.1, q.2, .of_trace hq, hhead, ?_⟩
  intro e others version fuel
  rw [mkbpGetNextEvent, loop_stuck hstuck, Option.map_none]

end ChromeEc.Mkbp
