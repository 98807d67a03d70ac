import ChromeEc.Lib.Steps
import ChromeEc.Task.Model

/- task_wait_event_mask and __wait_evt of core/cortex-m/task.c, one call of them.

  Between two steps of the call time may pass, anybody may post events to the task, and a timer
  that the call has armed expires some time after its deadline. Times are 64 bit words of
  microseconds, and the time that remains is cut down to 32 bits as in the source.

  What is proved (`taskWaitEventMask_spec`): events other than the timer's are returned or
  pending when the call returns, none of them twice (`Conserved`), and what was taken and is
  in the mask is returned (`Collected`). A call without a timeout returns what others have posted,
  as long as the time that remains never looks positive (`Untimed`). It can after 2^31 microseconds,
  and then the call arms a timer of its own (`returns_from_own_timer`). -/
namespace ChromeEc.Task.WaitEvent
open Lib Steps

abbrev Time := BitVec 64

structure Call where
  eventMask : Events
  timeoutUs : BitVec 32

def Call.mask (c : Call) : Events := c.eventMask ||| taskEventTimer

inductive Pc where
  /-- __wait_evt with its timeout_us -/
  | enter (timeoutUs : BitVec 32)
  | arm (deadline : Time)
  /-- The loop of __wait_evt. A timer was armed, or not. -/
  | block (timed : Bool)
  | cancel (evt : Events)
  | clearTimer (evt : Events)
  /-- Back from __wait_evt. -/
  | update (evt : Events)
  | repost
  | done (value : Events)
  deriving DecidableEq

structure State where
  now : Time
  pending : Events
  timer : Option Time
  pc : Pc
  deadline : Time
  /-- `events` -/
  collected : Events
  /-- All that was posted to the task by others, from what was there at the start. -/
  posts : List Events
  /-- All that __wait_evt has taken. -/
  taken : Events

def start (c : Call) (now : Time) (pending : Events) : State where
  now := now
  pending := pending
  timer := none
  pc := .enter c.timeoutUs
  deadline := now + c.timeoutUs.signExtend 64
  collected := 0
  posts := [pending]
  taken := 0

def timeRemainingUs (s : State) : BitVec 32 := (s.deadline - s.now).setWidth 32

inductive Action where
  | next
  | tick (us : Time)
  | post (e : Events)
  | expire
  deriving DecidableEq

def next (c : Call) (s : State) : Option State :=
  match s.pc with
  | .enter timeoutUs =>
    if 0 < timeoutUs.toInt then some { s with pc := .arm (s.now + timeoutUs.signExtend 64) }
    else some { s with pc := .block false }
  | .arm deadline => if s.timer.isSome then none else some { s with timer := some deadline, pc := .block true }
  | .block timed =>
    if s.pending = 0 then none
    else
      some { s with
        pending := 0
        taken := s.taken ||| s.pending
        pc := if timed then .cancel s.pending else .update s.pending }
  | .cancel evt => some { s with timer := none, pc := .clearTimer evt }
  | .clearTimer evt => some { s with pending := s.pending &&& ~~~taskEventTimer, pc := .update evt }
  | .update evt =>
    let events := s.collected ||| evt
    if 0 < c.timeoutUs.toInt ∧ (timeRemainingUs s).toInt ≤ 0 then
      some { s with collected := events ||| taskEventTimer, pc := .repost }
    else
      some { s with collected := events, pc := if has events c.mask then .repost else .enter (timeRemainingUs s) }
  | .repost =>
    some { s with pending := s.pending ||| (s.collected &&& ~~~c.mask), pc := .done (s.collected &&& c.mask) }
  | .done _ => none

def step (c : Call) (a : Action) (s : State) : Option State :=
  match a with
  | .next => next c s
  | .tick us => some { s with now := s.now + us }
  | .post e => some { s with pending := s.pending ||| e, posts := s.posts ++ [e] }
  | .expire =>
    match s.timer with
    | none => none
    | some deadline =>
      if deadline ≤ s.now then some { s with pending := s.pending ||| taskEventTimer, timer := none } else none

/-! ## Events are conserved -/

/-- What the call has collected, at each point of it. -/
def State.holding (s : State) : Events :=
  match s.pc with
  | .cancel evt => s.collected ||| evt
  | .clearTimer evt => s.collected ||| evt
  | .update evt => s.collected ||| evt
  | .done value => value
  | _ => s.collected

def posted (s : State) (k : Nat) : Nat := s.posts.countP (·.getLsbD k)

/-- The event is pending or collected if it was posted, and not more often than that. -/
structure Conserved (s : State) (k : Nat) : Prop where
  kept : 0 < posted s k → s.holding.getLsbD k = true ∨ s.pending.getLsbD k = true
  once : (s.holding.getLsbD k).toNat + (s.pending.getLsbD k).toNat ≤ posted s k

variable {c : Call} {s s' : State} {a : Action} {k : Nat} {now : Time} {pending : Events} {l : List (State × Action)}

theorem timer_bit : taskEventTimer.getLsbD k = decide (k = 31) := by
  rw [taskEventTimer, BitVec.getLsbD_twoPow]
  by_cases hk : k = 31
  · simp [hk]
  · simp [hk, Ne.symm hk]

theorem Conserved.keep (h : Conserved s k) (hposts : s'.posts = s.posts)
    (hkept : s.holding.getLsbD k = true ∨ s.pending.getLsbD k = true →
      s'.holding.getLsbD k = true ∨ s'.pending.getLsbD k = true)
    (honce : (s'.holding.getLsbD k).toNat + (s'.pending.getLsbD k).toNat ≤
      (s.holding.getLsbD k).toNat + (s.pending.getLsbD k).toNat) : Conserved s' k where
  kept := by
    rw [posted, hposts]
    exact fun hpos => hkept (h.kept hpos)
  once := by
    rw [posted, hposts]
    exact honce.trans h.once

theorem next_conserved (hk : k < 31) (h : Conserved s k) (hnext : next c s = some s') : Conserved s' k := by
  have htimer : taskEventTimer.getLsbD k = false := by
    rw [timer_bit]
    exact decide_eq_false (by omega)
  unfold next at hnext
  split at hnext
  case h_1 timeoutUs hpc =>
    split at hnext <;> cases hnext <;> exact h.keep rfl (by simp [State.holding, hpc]) (by simp [State.holding, hpc])
  case h_2 deadline hpc =>
    split at hnext
    · cases hnext
    · cases hnext
      exact h.keep rfl (by simp [State.holding, hpc]) (by simp [State.holding, hpc])
  case h_3 timed hpc =>
    split at hnext
    · cases hnext
    · -- what was pending is collected
      have hheld : s'.holding = s.collected ||| s.pending := by
        cases hnext
        cases timed <;> rfl
      have hbefore : s.holding = s.collected := by rw [State.holding, hpc]
      cases hnext
      refine h.keep rfl ?_ ?_ <;> rw [hheld, hbefore, BitVec.getLsbD_or] <;>
        cases s.collected.getLsbD k <;> cases s.pending.getLsbD k <;> simp
  case h_4 evt hpc =>
    cases hnext
    exact h.keep rfl (by simp [State.holding, hpc]) (by simp [State.holding, hpc])
  case h_5 evt hpc =>
    cases hnext
    refine h.keep rfl ?_ ?_ <;> simp only [State.holding, hpc, BitVec.getLsbD_or, BitVec.getLsbD_and,
      BitVec.getLsbD_not, htimer] <;> simp [show k < 32 by omega]
  case h_6 evt hpc =>
    split at hnext
    · cases hnext
      refine h.keep rfl ?_ ?_ <;> simp [State.holding, hpc, htimer]
    · cases hnext
      refine h.keep rfl ?_ ?_ <;> split <;> simp [State.holding, hpc]
  case h_7 hpc =>
    cases hnext
    refine h.keep rfl ?_ ?_ <;> simp only [State.holding, hpc, BitVec.getLsbD_or, BitVec.getLsbD_and,
      BitVec.getLsbD_not, show decide (k < 32) = true from decide_eq_true (by omega)] <;>
      cases s.collected.getLsbD k <;> cases s.pending.getLsbD k <;> cases c.mask.getLsbD k <;> simp
  case h_8 => cases hnext

theorem step_conserved (hk : k < 31) (h : Conserved s k) (hstep : step c a s = some s') : Conserved s' k := by
  cases a with
  | next => exact next_conserved hk h hstep
  | tick us =>
    cases hstep
    exact h.keep rfl id (Nat.le_refl _)
  | post e =>
    cases hstep
    have hposted : posted { s with pending := s.pending ||| e, posts := s.posts ++ [e] } k =
        posted s k + (e.getLsbD k).toNat := by
      simp only [posted, List.countP_append, List.countP_singleton]
      cases e.getLsbD k <;> rfl
    refine ⟨fun hpos => ?_, ?_⟩
    · rw [hposted] at hpos
      rw [BitVec.getLsbD_or]
      cases he : e.getLsbD k with
      | true => simp
      | false =>
        rw [he] at hpos
        rcases h.kept hpos with hheld | hpending
        · exact .inl hheld
        · exact .inr (by rw [hpending]; rfl)
    · rw [hposted]
      have honce := h.once
      have hor : (s.pending.getLsbD k || e.getLsbD k).toNat ≤ (s.pending.getLsbD k).toNat + (e.getLsbD k).toNat := by
        cases s.pending.getLsbD k <;> cases e.getLsbD k <;> decide
      show (s.holding.getLsbD k).toNat + ((s.pending ||| e).getLsbD k).toNat ≤ _
      rw [BitVec.getLsbD_or]
      omega
  | expire =>
    rw [step] at hstep
    split at hstep
    · cases hstep
    · split at hstep
      · cases hstep
        have htimer : taskEventTimer.getLsbD k = false := by
          rw [timer_bit]
          exact decide_eq_false (by omega)
        refine h.keep rfl ?_ ?_ <;> simp [State.holding, htimer]
      · cases hstep

theorem run_conserved (hk : k < 31) (h : Run (step c) (start c now pending) l s) : Conserved s k := by
  refine h.holds (P := fun s => Conserved s k) ?_ fun _ _ _ hs hstep => step_conserved hk hs hstep
  refine ⟨fun hpos => .inr ?_, ?_⟩
  · cases hbit : pending.getLsbD k with
    | true => exact hbit
    | false => simp [posted, start, hbit] at hpos
  · simp only [start, State.holding, posted, List.countP_singleton]
    cases pending.getLsbD k <;> simp

/-! ## What was taken is returned -/

/-- What was taken is collected, until only what is in the mask is returned. -/
structure Collected (c : Call) (s : State) : Prop where
  taken : ∀ k, s.taken.getLsbD k = true → c.mask.getLsbD k = true → s.holding.getLsbD k = true
  /-- The loop ends with something that is in the mask. -/
  found : s.pc = .repost → has s.collected c.mask = true
  value : ∀ v, s.pc = .done v → v ≠ 0 ∧ ∀ k, v.getLsbD k = true → c.mask.getLsbD k = true

theorem has_timer {a : Events} : has (a ||| taskEventTimer) c.mask = true := by
  have hmask : has taskEventTimer c.mask = true := by
    have hand : taskEventTimer &&& c.mask = taskEventTimer := by
      apply BitVec.eq_of_getLsbD_eq
      intro k hk
      rw [Call.mask, BitVec.getLsbD_and, BitVec.getLsbD_or]
      cases taskEventTimer.getLsbD k <;> simp
    rw [has, hand]
    decide
  rw [has_or, hmask, Bool.or_true]

theorem Collected.keep (h : Collected c s) (htaken : s'.taken = s.taken)
    (hholding : ∀ k, c.mask.getLsbD k = true → s.holding.getLsbD k = true → s'.holding.getLsbD k = true)
    (hfound : s'.pc = .repost → has s'.collected c.mask = true) (hvalue : ∀ v, s'.pc ≠ .done v) : Collected c s' where
  taken := by
    rw [htaken]
    exact fun k hk hmask => hholding k hmask (h.taken k hk hmask)
  found := hfound
  value := fun v hv => absurd hv (hvalue v)

theorem next_collected (h : Collected c s) (hnext : next c s = some s') : Collected c s' := by
  unfold next at hnext
  split at hnext
  case h_1 timeoutUs hpc =>
    split at hnext <;> cases hnext <;> refine h.keep rfl ?_ ?_ ?_ <;> simp [State.holding, hpc]
  case h_2 deadline hpc =>
    split at hnext
    · cases hnext
    · cases hnext
      refine h.keep rfl ?_ ?_ ?_ <;> simp [State.holding, hpc]
  case h_3 timed hpc =>
    split at hnext
    · cases hnext
    · have hheld : s'.holding = s.collected ||| s.pending := by
        cases hnext
        cases timed <;> rfl
      have hbefore : s.holding = s.collected := by rw [State.holding, hpc]
      have hpc' : ∀ p, s'.pc = p → p = .cancel s.pending ∨ p = .update s.pending := by
        cases hnext
        cases timed
        · exact fun p hp => .inr hp.symm
        · exact fun p hp => .inl hp.symm
      have htaken : s'.taken = s.taken ||| s.pending := by cases hnext; rfl
      refine ⟨fun k hk hmask => ?_, fun hp => ?_, fun v hp => ?_⟩
      · rw [htaken, BitVec.getLsbD_or, Bool.or_eq_true] at hk
        rw [hheld, BitVec.getLsbD_or, Bool.or_eq_true]
        exact hk.imp (fun hold => hbefore ▸ h.taken k hold hmask) id
      · rcases hpc' _ hp with hp | hp <;> cases hp
      · rcases hpc' _ hp with hp | hp <;> cases hp
  case h_4 evt hpc =>
    cases hnext
    refine h.keep rfl ?_ ?_ ?_ <;> simp [State.holding, hpc]
  case h_5 evt hpc =>
    cases hnext
    refine h.keep rfl ?_ ?_ ?_ <;> simp [State.holding, hpc]
  case h_6 evt hpc =>
    have hbefore : s.holding = s.collected ||| evt := by rw [State.holding, hpc]
    split at hnext
    · cases hnext
      refine h.keep rfl (fun k _ hk => ?_) (fun _ => has_timer) (fun v hv => by cases hv)
      rw [hbefore] at hk
      simp only [State.holding, BitVec.getLsbD_or (x := s.collected ||| evt), hk, Bool.true_or]
    · cases hnext
      cases hfound : has (s.collected ||| evt) c.mask with
      | true => exact h.keep rfl (fun k _ hk => hbefore ▸ hk) (fun _ => hfound) (fun v hv => by cases hv)
      | false => exact h.keep rfl (fun k _ hk => hbefore ▸ hk) (fun hp => by cases hp) (fun v hv => by cases hv)
  case h_7 hpc =>
    have hfound := h.found hpc
    cases hnext
    refine ⟨fun k hk hmask => ?_, (fun hp => by cases hp), fun v hv => ?_⟩
    · have hheld := h.taken k hk hmask
      simp only [State.holding, hpc] at hheld
      simp only [State.holding, BitVec.getLsbD_and, hheld, hmask, Bool.and_self]
    · cases hv
      refine ⟨by simpa [has] using hfound, fun k hk => ?_⟩
      rw [BitVec.getLsbD_and, Bool.and_eq_true] at hk
      exact hk.2
  case h_8 => cases hnext

theorem run_collected (h : Run (step c) (start c now pending) l s) : Collected c s := by
  refine h.holds (P := Collected c) ?_ fun s a s' hs hstep => ?_
  · exact ⟨(fun k hk => by simp [start] at hk), (fun hp => by cases hp), fun v hv => by cases hv⟩
  · cases a with
    | next => exact next_collected hs hstep
    | tick us =>
      cases hstep
      exact ⟨hs.taken, hs.found, hs.value⟩
    | post e =>
      cases hstep
      exact ⟨hs.taken, hs.found, hs.value⟩
    | expire =>
      rw [step] at hstep
      split at hstep
      · cases hstep
      · split at hstep
        · cases hstep
          exact ⟨hs.taken, hs.found, hs.value⟩
        · cases hstep

/-! ## The timer is not armed -/

/-- The step is not a wakeup without an event of the mask at a time when the difference to the deadline, cut
    down to 32 bits, is positive. -/
def inTime (c : Call) (x : State × Action) : Bool :=
  match x.1.pc, x.2 with
  | .update evt, .next => has (x.1.collected ||| evt) c.mask || decide ((timeRemainingUs x.1).toInt ≤ 0)
  | _, _ => true

structure Untimed (s : State) : Prop where
  timer : s.timer = none
  pc : match s.pc with
    | .enter timeoutUs => timeoutUs.toInt ≤ 0
    | .arm _ => False
    | .block timed => timed = false
    | .cancel _ => False
    | .clearTimer _ => False
    | _ => True
  posts : ∀ k, s.holding.getLsbD k = true ∨ s.pending.getLsbD k = true → 0 < posted s k

theorem next_untimed (hzero : c.timeoutUs.toInt ≤ 0) (hok : inTime c (s, .next) = true) (h : Untimed s)
    (hnext : next c s = some s') : Untimed s' := by
  have hat := h.pc
  unfold next at hnext
  split at hnext
  case h_1 timeoutUs hpc =>
    rw [hpc] at hat
    have hposts := h.posts
    rw [State.holding, hpc] at hposts
    split at hnext
    · omega
    · cases hnext
      exact ⟨h.timer, rfl, hposts⟩
  case h_2 deadline hpc =>
    rw [hpc] at hat
    exact hat.elim
  case h_3 timed hpc =>
    rw [hpc] at hat
    obtain rfl : timed = false := hat
    have hposts := h.posts
    rw [State.holding, hpc] at hposts
    split at hnext
    · cases hnext
    · cases hnext
      refine ⟨h.timer, trivial, fun k hk => hposts k ?_⟩
      simpa [State.holding] using hk
  case h_4 evt hpc =>
    rw [hpc] at hat
    exact hat.elim
  case h_5 evt hpc =>
    rw [hpc] at hat
    exact hat.elim
  case h_6 evt hpc =>
    have hposts := h.posts
    rw [State.holding, hpc] at hposts
    split at hnext
    · omega
    · cases hnext
      cases hfound : has (s.collected ||| evt) c.mask with
      | true => exact ⟨h.timer, trivial, hposts⟩
      | false =>
        simp only [inTime, hpc, hfound, Bool.false_or, decide_eq_true_eq] at hok
        exact ⟨h.timer, hok, hposts⟩
  case h_7 hpc =>
    have hposts := h.posts
    rw [State.holding, hpc] at hposts
    cases hnext
    refine ⟨h.timer, trivial, fun k hk => hposts k ?_⟩
    simp only [State.holding, BitVec.getLsbD_and, BitVec.getLsbD_or, Bool.and_eq_true, Bool.or_eq_true] at hk
    rcases hk with hk | hk | hk
    · exact .inl hk.1
    · exact .inr hk
    · exact .inl hk.1
  case h_8 => cases hnext

theorem run_untimed (hzero : c.timeoutUs.toInt ≤ 0) (h : Run (step c) (start c now pending) l s)
    (hok : ∀ x ∈ l, inTime c x = true) :
    Untimed s := by
  refine h.invariant (P := Untimed) ?_ (fun s a s' hs hokStep hstep => ?_) hok
  · refine ⟨rfl, hzero, fun k hk => ?_⟩
    have hpending : pending.getLsbD k = true := by simpa [start, State.holding] using hk
    simp [posted, start, hpending]
  · cases a with
    | next => exact next_untimed hzero hokStep hs hstep
    | tick us =>
      cases hstep
      exact ⟨hs.timer, hs.pc, hs.posts⟩
    | post e =>
      cases hstep
      refine ⟨hs.timer, hs.pc, fun k hk => ?_⟩
      rw [posted, List.countP_append]
      have hk' : (s.holding.getLsbD k = true ∨ s.pending.getLsbD k = true) ∨ e.getLsbD k = true := by
        rcases hk with hk | hk
        · exact .inl (.inl hk)
        · rw [BitVec.getLsbD_or, Bool.or_eq_true] at hk
          exact hk.imp .inr id
      rcases hk' with hold | hnew
      · exact Nat.lt_add_right _ (hs.posts k hold)
      · simp [hnew]
    | expire =>
      rw [step, hs.timer] at hstep
      cases hstep

/-! ## The whole call -/

/-- What holds when the call returns. Without a timeout, what it returns was posted by others if each
    wakeup before that comes in time. -/
theorem taskWaitEventMask_spec (c : Call) (now : Time) (pending : Events) (l : List (State × Action)) (s : State)
    (value : Events) (h : Run (step c) (start c now pending) l s) (hdone : s.pc = .done value) :
    (∀ k < 31, 0 < posted s k → c.eventMask.getLsbD k = false → s.pending.getLsbD k = true) ∧
      (∀ k < 31, 0 < posted s k → value.getLsbD k = true ∨ s.pending.getLsbD k = true) ∧
      (∀ k < 31, (value.getLsbD k).toNat + (s.pending.getLsbD k).toNat ≤ posted s k) ∧
      (∀ k, s.taken.getLsbD k = true → c.mask.getLsbD k = true → value.getLsbD k = true) ∧
      (c.timeoutUs.toInt ≤ 0 → (∀ x ∈ l, inTime c x = true) →
        (∃ e ∈ s.posts, has e c.mask = true) ∧ ∀ k, value.getLsbD k = true → 0 < posted s k) := by
  have hcollected := run_collected h
  obtain ⟨hsome, hmask⟩ := hcollected.value value hdone
  have hholding : s.holding = value := by rw [State.holding, hdone]
  refine ⟨fun k hk hpos hout => ?_, fun k hk hpos => hholding ▸ (run_conserved hk h).kept hpos,
    fun k hk => hholding ▸ (run_conserved hk h).once, fun k htaken hin => hholding ▸ hcollected.taken k htaken hin,
    fun hzero hok => ?_⟩
  · rcases (run_conserved hk h).kept hpos with hheld | hpending
    · have hbit := hmask k (hholding ▸ hheld)
      rw [Call.mask, BitVec.getLsbD_or, hout, timer_bit, Bool.false_or, decide_eq_true_eq] at hbit
      omega
    · exact hpending
  · have hposts : ∀ k, value.getLsbD k = true → 0 < posted s k :=
      fun k hk => (run_untimed hzero h hok).posts k (.inl (hholding.symm ▸ hk))
    refine ⟨?_, hposts⟩
    obtain ⟨k, hk⟩ : ∃ k, value.getLsbD k = true := by
      by_contra hnone
      refine hsome (BitVec.eq_of_getLsbD_eq fun k _ => ?_)
      have hbit : value.getLsbD k = false := Bool.eq_false_iff.mpr fun hk => hnone ⟨k, hk⟩
      simpa using hbit
    obtain ⟨e, he, hbit⟩ := List.countP_pos_iff.mp (hposts k hk)
    refine ⟨e, he, ?_⟩
    rw [has, bne_iff_ne]
    intro hzero
    have hand : (e &&& c.mask).getLsbD k = true := by rw [BitVec.getLsbD_and, hbit, hmask k hk, Bool.and_self]
    rw [hzero] at hand
    simp at hand

def forever : Call := { eventMask := 1, timeoutUs := -1 }

/-- Another event comes first, then the one that is waited for. -/
theorem taskWaitEventMask_spec_second : ∃ l s, Run (step forever) (start forever 0 0) l s ∧ s.pc = .done 1 ∧
    (∃ e ∈ s.posts, has e forever.mask = true) ∧ s.pending.getLsbD 1 = true := by
  have hseen : (trace (step forever) [.next, .post 2, .next, .tick 5, .next, .next, .post 1, .next, .next, .next]
      ([], start forever 0 0)).any fun r =>
        decide (r.2.pc = .done 1 ∧ r.1.all (inTime forever) = true ∧ posted r.2 1 = 1) := by decide +kernel
  obtain ⟨l, s, run, -, hdone, hok, hposted⟩ := exists_run hseen
  have hspec := taskWaitEventMask_spec forever 0 0 l s 1 run hdone
  refine ⟨l, s, run, hdone, (hspec.2.2.2.2 (by decide) (List.all_eq_true.mp hok)).1, ?_⟩
  exact hspec.1 1 (by decide) (Nat.lt_of_lt_of_eq Nat.one_pos hposted.symm) (by decide)

/-- An event that is not waited for comes more than 2^31 microseconds after the call. The time
    that remains seems positive then, a timer is armed, and the call returns when it expires. -/
theorem returns_from_own_timer : ∃ l s, Run (step forever) (start forever 0 0) l s ∧ forever.timeoutUs.toInt ≤ 0 ∧
    s.pc = .done taskEventTimer ∧ s.posts = [0, 2] := by
  have hseen : (trace (step forever) [.next, .tick 0x80000007, .post 2, .next, .next, .next, .next, .tick 0x80000000,
      .expire, .next, .next, .next, .next, .next] ([], start forever 0 0)).any fun r =>
        decide (r.2.pc = .done taskEventTimer ∧ r.2.posts = [0, 2]) := by decide +kernel
  obtain ⟨l, s, run, -, hdone, hposts⟩ := exists_run hseen
  exact ⟨l, s, run, by decide, hdone, hposts⟩

end ChromeEc.Task.WaitEvent
