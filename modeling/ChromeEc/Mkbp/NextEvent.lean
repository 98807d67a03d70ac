import ChromeEc.Mkbp.Fifo

/- `mkbp_get_next_event` of `common/mkbp_event.c`.

  One pass through the `do` loop is `pass`, and the loop runs on fuel, so that a call
  without a result is one that is still in the loop.

  What is proved: the loop ends, after at most `EC_MKBP_EVENT_COUNT` passes, if and only if
  no event bit is set or one of those that are set can be served (`getNextEvent_ends_iff`). -/
namespace ChromeEc.Mkbp
open Lib

/-- What the `get_data` of another module does: it may send its own event again. It does not
return `-EC_ERROR_BUSY`. -/
structure OtherData where
  data : Bytes
  size : Int
  again : Bool
  size_ne : size ≠ -ecErrorBusy

/-- `enum ec_status`, as far as it is returned. -/
inductive EcStatus where
  | success
  | error
  | unavailable
  deriving DecidableEq

/-- `args->response` with `args->response_size`. -/
structure Response where
  eventType : BitVec 8
  data : Bytes
  responseSize : Option Int

/-- How a pass through the loop ends. -/
inductive Pass where
  | again
  | leave (status : EcStatus)
  | served (dataSize : Int)
  deriving DecidableEq

variable (c : Config) (e : Env) (others : EventType → OtherData)

def Source.getData (src : Source) (evt : EventType) (out : Bytes) (s : St) : Int × Bytes × St :=
  match src with
  | .fifo => mkbpFifoGetNextEvent c e out evt s
  | .other =>
    let d := others evt
    (d.size, d.data, if d.again then (sendEvent e evt s).2 else s)

/-- The second half of the body of the `do` loop, for the event that was taken. -/
def serve (evt : EventType) (s : St) (r : Response) : Pass × St × Response :=
  match findMkbpEventSource c evt with
  | none => (.leave .error, s, r)
  | some src =>
    let d := src.getData c e others evt r.data s
    let r := { r with eventType := .ofNat 8 evt, data := d.2.1 }
    if d.1 = -ecErrorBusy then
      (.again, { d.2.2 with state := restoreEvent evt d.2.2.state }, r)
    else
      (.served d.1, d.2.2, r)

/-- The body of the `do` loop. -/
def pass (s : St) (r : Response) : Pass × St × Response :=
  match takeNext s.last eventCount 0 s.state with
  | (none, state) =>
    let u := setInactiveIfNoEvents state
    (if u.1 then .leave .unavailable else .again, { s with state := u.2 }, r)
  | (some i, state) =>
    let evt : EventType := ⟨(i + s.last) % eventCount, Nat.mod_lt _ (by decide)⟩
    serve c e others evt { s with state, last := evt + 1 } r

def loop : Nat → St → Response → Option (Pass × St × Response)
  | 0, _, _ => none
  | fuel + 1, s, r =>
    match pass c e others s r with
    | (.again, s, r) => loop fuel s r
    | x => some x

/-- `EC_MKBP_HAS_MORE_EVENTS`. -/
def hasMoreEvents : BitVec 8 := 0x80

/-- The most columns of a key matrix that a version of the command can hold. -/
def maxKeyMatrix (version : Nat) : Nat :=
  match version with
  | 0 => 13
  | 1 | 2 => 16
  | _ => 18

/-- `MIN(data_size, max_size)`, which compares as `size_t`. -/
def minSize (dataSize : Int) (maxSize : Nat) : Int := if 0 ≤ dataSize ∧ dataSize < maxSize then dataSize else maxSize

def finish (version : Nat) : Pass × St × Response → EcStatus × St × Response
  | (.again, s, r) => (.error, s, r)
  | (.leave status, s, r) => (status, s, r)
  | (.served dataSize, s, r) =>
    let dataSize :=
      if r.eventType = .ofNat 8 EventType.keyMatrix then minSize dataSize (maxKeyMatrix version) else dataSize
    let u := setInactiveIfNoEvents s.state
    let s := { s with state := u.2 }
    let r := if u.1 = false ∧ 2 ≤ version then { r with eventType := r.eventType ||| hasMoreEvents } else r
    if dataSize < 0 then (.error, s, r) else (.success, s, { r with responseSize := some (1 + dataSize) })

def mkbpGetNextEvent (fuel version : Nat) (s : St) : Option (EcStatus × St × Response) :=
  (loop c e others fuel s ⟨0, noData, none⟩).map (finish version)

/-! ## The loop -/

/-- `get_data` of the event has something else to say than `-EC_ERROR_BUSY`. -/
def Serves (s : St) (t : EventType) : Prop :=
  fifoBacked c t = true → s.fifoEntries ≠ 0 → (s.fifo s.fifoStart).eventType = t

/-- Some events are set, and all of them wait for another one. -/
def Stuck (s : St) : Prop :=
  s.state.events ≠ 0#32 ∧ ∀ t : EventType, s.state.events.getLsbD t = true → ¬Serves c s t

/-- The type that is found at place `k` of the search. -/
def typeAt (s : St) (k : Nat) : EventType := ⟨(k + s.last) % eventCount, Nat.mod_lt _ (by decide)⟩

variable {c e others} {s : St} {r : Response} {k : Nat}

theorem typeAt_val (s : St) (k : Nat) : (typeAt s k : Nat) = (s.last + k) % eventCount :=
  congrArg (· % eventCount) (Nat.add_comm k s.last)

theorem fifoGetNext_busy (out : Bytes) {evt : EventType} (hne : s.fifoEntries ≠ 0)
    (hother : (s.fifo s.fifoStart).eventType ≠ evt) :
    mkbpFifoGetNextEvent c e out evt s = (-(ecErrorBusy : Int), out, s) := by
  unfold mkbpFifoGetNextEvent
  rw [if_neg hne]
  exact if_pos hother

theorem fifoGetNext_empty (out : Bytes) (evt : EventType) (hnil : s.fifoEntries = 0) :
    mkbpFifoGetNextEvent c e out evt s = (-1, out, s) := if_pos hnil

theorem fifoGetNext_head (out : Bytes) {evt : EventType} (hne : s.fifoEntries ≠ 0)
    (hhead : (s.fifo s.fifoStart).eventType = evt) :
    (mkbpFifoGetNextEvent c e out evt s).1 ≠ -(ecErrorBusy : Int) ∧
      (mkbpFifoGetNextEvent c e out evt s).2.2 =
        if (popped s).fifoEntries ≠ 0 then (sendEvent e ((popped s).fifo (popped s).fifoStart).eventType (popped s)).2
        else popped s := by
  unfold mkbpFifoGetNextEvent fifoRemove
  rw [if_neg hne, if_neg (not_not.mpr hhead), if_neg hne]
  refine ⟨?_, rfl⟩
  dsimp only
  split
  · simp only [ecErrorBusy]
    omega
  · decide

theorem getData_ne_busy {src : Source} {evt : EventType} (hsrc : findMkbpEventSource c evt = some src)
    (hserves : Serves c s evt) (out : Bytes) : (src.getData c e others evt out s).1 ≠ -ecErrorBusy := by
  cases src with
  | other => exact (others evt).size_ne
  | fifo =>
    have hbacked : fifoBacked c evt = true := by simp [fifoBacked, hsrc]
    show (mkbpFifoGetNextEvent c e out evt s).1 ≠ -ecErrorBusy
    by_cases hnil : s.fifoEntries = 0
    · rw [fifoGetNext_empty out evt hnil]
      exact (by decide : (-1 : Int) ≠ -6)
    · exact (fifoGetNext_head out hnil (hserves hbacked hnil)).1

theorem pass_none (h : firstFrom eventCount s.state.events.getLsbD s.last eventCount 0 = none) :
    pass c e others s r =
      (if s.state.events = 0#32 then .leave .unavailable else .again,
        { s with state := (setInactiveIfNoEvents s.state).2 }, r) := by
  unfold pass
  rw [takeNext_eq, h]
  simp only [setInactive_fst, decide_eq_true_eq]

/-- The state in which an event that was found is served. -/
def taken (s : St) (k : Nat) : St :=
  { s with
    state := { s.state with events := s.state.events &&& ~~~bit (typeAt s k) }
    last := typeAt s k + 1 }

theorem pass_some (h : firstFrom eventCount s.state.events.getLsbD s.last eventCount 0 = some k) :
    pass c e others s r = serve c e others (typeAt s k) (taken s k) r := by
  unfold pass
  rw [takeNext_eq, h]
  simp only [Nat.add_comm s.last k]
  rfl

theorem serve_served {evt : EventType} (hserves : Serves c s evt) : (serve c e others evt s r).1 ≠ .again := by
  unfold serve
  cases hsrc : findMkbpEventSource c evt with
  | none => simp
  | some src =>
    have hne := @getData_ne_busy _ e others _ _ _ hsrc hserves r.data
    simp only [if_neg hne]
    simp

/-- An event that is not the first of the FIFO is put back. -/
theorem serve_busy {evt : EventType} (hbusy : ¬Serves c s evt) : serve c e others evt s r =
    (.again, { s with state := restoreEvent evt s.state }, { r with eventType := .ofNat 8 evt }) := by
  simp only [Serves, Classical.not_imp] at hbusy
  obtain ⟨hbacked, hne, hother⟩ := hbusy
  have hsrc : findMkbpEventSource c evt = some .fifo := by simpa [fifoBacked] using hbacked
  unfold serve
  simp only [hsrc, Source.getData, fifoGetNext_busy r.data hne hother, if_true]

theorem pass_busy (h : firstFrom eventCount s.state.events.getLsbD s.last eventCount 0 = some k)
    (hbusy : ¬Serves c s (typeAt s k)) : pass c e others s r =
      (.again, { s with last := typeAt s k + 1 }, { r with eventType := .ofNat 8 (typeAt s k) }) := by
  obtain ⟨-, -, hset, -⟩ := firstFrom_eq_some h
  have hset : s.state.events.getLsbD (typeAt s k) = true := by rw [typeAt_val]; exact hset
  rw [pass_some h, serve_busy (s := taken s k) hbusy]
  simp only [restoreEvent, taken, and_not_bit_or hset]

/-! ## The end of the loop -/

theorem loop_of_ne_again {fuel : Nat} (h : (pass c e others s r).1 ≠ .again) :
    loop c e others (fuel + 1) s r = some (pass c e others s r) := by
  rw [loop]
  generalize pass c e others s r = x at h
  obtain ⟨_ | _ | _, s', r'⟩ := x
  · exact absurd rfl h
  · rfl
  · rfl

theorem loop_of_again {fuel : Nat} {s' : St} {r' : Response} (h : pass c e others s r = (.again, s', r')) :
    loop c e others (fuel + 1) s r = loop c e others fuel s' r' := by
  rw [loop, h]

/-- An event that can be served comes closer with every pass. -/
theorem loop_ends {t : EventType} {fuel : Nat} (hset : s.state.events.getLsbD t = true) (hserves : Serves c s t)
    (hfuel : turnsTo eventCount s.last t < fuel) : (loop c e others fuel s r).isSome := by
  induction fuel generalizing s r with
  | zero => omega
  | succ fuel ih =>
    obtain ⟨k, hfirst, hle⟩ := @firstFrom_le_turnsTo _ s.last _ _ (by decide : 0 < eventCount) t.isLt hset
    by_cases hk : Serves c s (typeAt s k)
    · have hne : (pass c e others s r).1 ≠ .again := by
        rw [pass_some hfirst]
        exact serve_served (s := taken s k) hk
      rw [loop_of_ne_again hne]
      rfl
    · have hother : k ≠ turnsTo eventCount s.last t := by
        rintro rfl
        have hat : typeAt s (turnsTo eventCount s.last t) = t := by
          apply Fin.ext
          rw [typeAt_val]
          exact add_turnsTo (by decide) t.isLt
        exact hk (by rw [hat]; exact hserves)
      rw [loop_of_again (pass_busy hfirst hk)]
      refine ih hset hserves ?_
      have hcloser := @turnsTo_after _ s.last _ k (by decide : 0 < eventCount) t.isLt (by omega)
      rw [← typeAt_val] at hcloser
      exact Nat.lt_of_lt_of_le hcloser (by omega)

theorem loop_ends_of_unset (hunset : s.state.events = 0#32) (fuel : Nat) :
    (loop c e others (fuel + 1) s r).isSome := by
  have hnone : firstFrom eventCount s.state.events.getLsbD s.last eventCount 0 = none := by
    cases hfirst : firstFrom eventCount s.state.events.getLsbD s.last eventCount 0 with
    | none => rfl
    | some k =>
      obtain ⟨-, -, hset, -⟩ := firstFrom_eq_some hfirst
      simp [hunset] at hset
  have hpass := @pass_none c e others _ r hnone
  rw [if_pos hunset] at hpass
  rw [loop_of_ne_again (by rw [hpass]; simp)]
  rfl

theorem loop_stuck (hstuck : Stuck c s) (fuel : Nat) : loop c e others fuel s r = none := by
  induction fuel generalizing s r with
  | zero => rfl
  | succ fuel ih =>
    cases hfirst : firstFrom eventCount s.state.events.getLsbD s.last eventCount 0 with
    | none =>
      have hpass := @pass_none c e others _ r hfirst
      rw [if_neg hstuck.1] at hpass
      rw [loop_of_again hpass]
      apply ih
      exact ⟨by simpa using hstuck.1, fun t hset => hstuck.2 t (by simpa using hset)⟩
    | some k =>
      obtain ⟨-, -, hset, -⟩ := firstFrom_eq_some hfirst
      have hset : s.state.events.getLsbD (typeAt s k) = true := by rw [typeAt_val]; exact hset
      rw [loop_of_again (pass_busy hfirst (hstuck.2 _ hset))]
      exact ih hstuck

/-- The loop ends, and then within `EC_MKBP_EVENT_COUNT` passes, unless every event that is set waits
for another one. -/
theorem loop_isSome_iff {fuel : Nat} (hfuel : eventCount ≤ fuel) :
    (loop c e others fuel s r).isSome ↔ ¬Stuck c s := by
  constructor
  · intro hsome hstuck
    rw [loop_stuck hstuck] at hsome
    cases hsome
  · intro hfree
    simp only [Stuck, not_and, not_forall, not_not] at hfree
    by_cases hunset : s.state.events = 0#32
    · obtain ⟨n, rfl⟩ := Nat.exists_eq_add_of_lt (Nat.lt_of_lt_of_le (by decide : 0 < eventCount) hfuel)
      rw [Nat.zero_add]
      exact loop_ends_of_unset hunset n
    · obtain ⟨t, hset, hserves⟩ := hfree hunset
      exact loop_ends hset hserves (Nat.lt_of_lt_of_le (turnsTo_lt (by decide)) hfuel)

end ChromeEc.Mkbp
