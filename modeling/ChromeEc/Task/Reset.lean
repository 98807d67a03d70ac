import ChromeEc.Lib.Steps
import ChromeEc.Task.Model

/- Resetting tasks: task_reset, task_reset_cleanup, task_enable_resets, task_disable_resets and
  deferred_task_reset of core/cortex-m/task.c.

  Each task is somewhere in one of the functions, and any of them may take its next atomic
  step. A task that is re-initialised is at its start again, wherever it was, and calls
  task_reset_cleanup before anything else. A task calls task_enable_resets only after it has
  disabled them. Besides, anybody may post events to a task, and a task that does not wait for a
  reset may clear its own.

  What is proved (`reset_protocol`): the lock of a task is released only when nobody waits, a task
  is re-initialised only while its lock is held and at most once for each time that it is taken,
  and no requester that waits is forgotten. Only the first start of a task can break this: it takes
  the lock of a requester that is about to reset it for its own (`reset_without_lock`). It is
  excluded step by step (`InOrder`). -/
namespace ChromeEc.Task.Reset
open Lib Steps

variable {n : Nat}

/-- The build: the tasks of CONFIG_TASK_RESET_LIST, and TASK_ID_HOOKS, which runs deferred calls. -/
structure Config (n : Nat) where
  supported : Fin n → Bool
  hooks : Fin n

/-- A word of task_reset_state: TASK_RESET_LOCK and the bits below. The bit `n` stands for
    requesters that do not wait. -/
structure ResetState (n : Nat) where
  locked : Bool
  waiters : Finset (Fin (n + 1))

inductive Pc (n : Nat) where
  | running
  /-- At its start, before task_reset_cleanup -/
  | startup
  /-- task_reset_cleanup before try_release_reset_lock -/
  | cleanup
  /-- The lock was not released. -/
  | lookup
  /-- task_reset_cleanup before atomic_clear_bits -/
  | found (notifyId : Fin (n + 1))
  /-- task_reset_cleanup before task_set_event -/
  | notify (notifyId : Fin n)
  | enable
  /-- task_enable_resets before try_release_reset_lock -/
  | tryRelease
  /-- task_enable_resets before atomic_or -/
  | defer
  /-- task_disable_resets before try_acquire_reset_lock -/
  | disable
  /-- task_reset before it tries to take the lock -/
  | reset (id : Fin n) (wait : Bool)
  /-- task_reset with the lock, before do_task_reset -/
  | doReset (id : Fin n)
  /-- task_reset in task_wait_event_mask, with the events that it has collected -/
  | wait (id : Fin n) (events : Events)
  | repost (events : Events)
  /-- deferred_task_reset before do_task_reset -/
  | deferredReset (id : Fin n)
  /-- sleep_forever -/
  | sleeping
  deriving DecidableEq

structure State (n : Nat) where
  resets : Fin n → ResetState n
  /-- deferred_reset_task_ids -/
  deferred : Finset (Fin n)
  events : Fin n → Events
  pc : Fin n → Pc n
  disabled : Fin n → Bool
  /-- How often the task was re-initialised since its lock was taken. -/
  reinits : Fin n → Nat
  /-- A task was re-initialised without its lock. -/
  unheld : Bool

def start (cfg : Config n) : State n where
  resets := fun _ => { locked := false, waiters := ∅ }
  deferred := ∅
  events := fun _ => 0
  pc := fun t => if cfg.supported t then .startup else .running
  disabled := fun _ => false
  reinits := fun _ => 0
  unheld := false

def State.goto (s : State n) (t : Fin n) (p : Pc n) : State n := { s with pc := Function.update s.pc t p }

def State.setReset (s : State n) (id : Fin n) (x : ResetState n) : State n :=
  { s with resets := Function.update s.resets id x }

def State.setEvents (s : State n) (t : Fin n) (e : Events) : State n :=
  { s with events := Function.update s.events t e }

def State.setDisabled (s : State n) (t : Fin n) (b : Bool) : State n :=
  { s with disabled := Function.update s.disabled t b }

/-- task_set_event -/
def State.post (s : State n) (t : Fin n) (e : Events) : State n := s.setEvents t (s.events t ||| e)

/-! ## Steps -/

def acquire (s : State n) (id : Fin n) : State n :=
  { s.setReset id { s.resets id with locked := true } with reinits := Function.update s.reinits id 0 }

def release (s : State n) (id : Fin n) : State n := s.setReset id { s.resets id with locked := false }

def addWaiter (s : State n) (id : Fin n) (w : Fin (n + 1)) : State n :=
  s.setReset id { s.resets id with waiters := insert w (s.resets id).waiters }

def removeWaiter (s : State n) (id : Fin n) (w : Fin (n + 1)) : State n :=
  s.setReset id { s.resets id with waiters := (s.resets id).waiters.erase w }

def doTaskReset (s : State n) (id : Fin n) : State n :=
  { (s.goto id .startup).setDisabled id false with
    reinits := Function.update s.reinits id (s.reinits id + 1)
    unheld := s.unheld || !(s.resets id).locked }

/-- TASK_RESET_STATE_LOCKED -/
def stateLocked (x : ResetState n) : Bool := x.locked && x.waiters = ∅

/-- TASK_RESET_STATE_UNLOCKED -/
def stateUnlocked (x : ResetState n) : Bool := !x.locked && x.waiters = ∅

def resetMask : Events := taskEventResetDone ||| taskEventTimer

/-- One turn of task_wait_event_mask: the events of the task are taken. -/
def collect (s : State n) (t id : Fin n) (events : Events) : State n :=
  let collected := events ||| s.events t
  (s.setEvents t 0).goto t (if has collected resetMask then .repost collected else .wait id collected)

/-- Who is told, unless it is the bit of those that do not wait. -/
def notified (w : Fin (n + 1)) : Pc n := if h : w.val < n then .notify ⟨w, h⟩ else .cleanup

def waiterId (t : Fin n) (wait : Bool) : Fin (n + 1) := if wait then t.castSucc else Fin.last n

inductive Action (n : Nat) where
  | enableResets
  | disableResets
  | reset (id : Fin n) (wait : Bool)
  /-- deferred_task_reset finds a task. -/
  | deferred
  | next
  | post (e : Events)
  | clearBits (e : Events)
  deriving DecidableEq

def next (s : State n) (t : Fin n) : Option (State n) :=
  match s.pc t with
  | .running => none
  | .startup => some (s.goto t (if (s.resets t).locked then .cleanup else .running))
  | .cleanup => if stateLocked (s.resets t) then some (release (s.goto t .running) t) else some (s.goto t .lookup)
  | .lookup =>
    match (s.resets t).waiters.max with
    | ⊥ => none
    | (w : Fin (n + 1)) => some (s.goto t (.found w))
  | .found w => some (removeWaiter (s.goto t (notified w)) t w)
  | .notify id => some ((s.post id taskEventResetDone).goto t .cleanup)
  | .enable => some (s.goto t (if stateUnlocked (s.resets t) then .running else .tryRelease))
  | .tryRelease =>
    if stateLocked (s.resets t) then some ((release (s.goto t .running) t).setDisabled t false) else some (s.goto t .defer)
  | .defer => some { s.goto t .sleeping with deferred := insert t s.deferred }
  | .disable =>
    if stateUnlocked (s.resets t) then some ((acquire (s.goto t .running) t).setDisabled t true)
    else some (s.goto t .sleeping)
  | .reset id wait =>
    if (s.resets id).locked then
      some ((addWaiter s id (waiterId t wait)).goto t (if wait then .wait id 0 else .running))
    else some ((acquire s id).goto t (.doReset id))
  | .doReset id => some (doTaskReset (s.goto t .running) id)
  | .wait id events => if s.events t = 0 then none else some (collect s t id events)
  | .repost events => some ((s.post t (events &&& ~~~resetMask)).goto t .running)
  | .deferredReset id => some (doTaskReset (s.goto t .running) id)
  | .sleeping => none

/-- Task `x.1` takes a step, or something happens to it. -/
def step (cfg : Config n) (x : Fin n × Action n) (s : State n) : Option (State n) :=
  match x.2, s.pc x.1 with
  | .enableResets, .running => if cfg.supported x.1 && s.disabled x.1 then some (s.goto x.1 .enable) else none
  | .disableResets, .running => if cfg.supported x.1 then some (s.goto x.1 .disable) else none
  | .reset id wait, .running => if id ≠ x.1 ∧ cfg.supported id then some (s.goto x.1 (.reset id wait)) else none
  | .deferred, .running =>
    if x.1 = cfg.hooks then
      match s.deferred.max with
      | ⊥ => none
      | (id : Fin n) => some ({ s with deferred := s.deferred.erase id }.goto x.1 (.deferredReset id))
    else none
  | .next, _ => next s x.1
  | .post e, _ => some (s.post x.1 e)
  | .clearBits e, .running => some (s.setEvents x.1 (s.events x.1 &&& ~~~e))
  | .clearBits e, .sleeping => some (s.setEvents x.1 (s.events x.1 &&& ~~~e))
  | _, _ => none

/-! ## The invariant -/

/-- Where task_reset_cleanup goes on to release the lock. -/
def Pc.Cleaning : Pc n → Prop
  | .cleanup => True
  | .lookup => True
  | .found _ => True
  | .notify _ => True
  | _ => False

def Pc.Free : Pc n → Prop
  | .notify _ => False
  | .sleeping => False
  | _ => True

/-- Where the task takes over no lock. -/
def Pc.Plain : Pc n → Prop
  | .cleanup => False
  | .lookup => False
  | .found _ => False
  | .notify _ => False
  | .doReset _ => False
  | _ => True

/-- The lock of the task is held, it was not re-initialised since, and resets are disabled or not. -/
structure Held (s : State n) (id : Fin n) (disabled : Bool) : Prop where
  locked : (s.resets id).locked = true
  reinits : s.reinits id = 0
  disabled : s.disabled id = disabled

def At (cfg : Config n) (s : State n) (t : Fin n) : Pc n → Prop
  | .startup => s.disabled t = false
  | .cleanup => (s.resets t).locked = true ∧ s.disabled t = false
  | .lookup => (s.resets t).locked = true ∧ s.disabled t = false
  | .found _ => (s.resets t).locked = true ∧ s.disabled t = false
  | .notify _ => (s.resets t).locked = true ∧ s.disabled t = false
  | .enable => s.disabled t = true
  | .tryRelease => s.disabled t = true
  | .defer => s.disabled t = true
  | .reset id _ => id ≠ t
  | .doReset id => Held s id false ∧ ¬(s.pc id).Cleaning
  | .wait id _ =>
    t.castSucc ∈ (s.resets id).waiters ∨ s.pc id = .notify t ∨ has (s.events t) taskEventResetDone = true
  | .deferredReset id => Held s id true ∧ s.pc id = .sleeping ∧ id ∉ s.deferred ∧ t = cfg.hooks
  | _ => True

structure Inv (cfg : Config n) (s : State n) : Prop where
  position : ∀ t, At cfg s t (s.pc t)
  /-- The lock is taken by one requester. -/
  once : ∀ id t u, s.pc t = .doReset id → s.pc u = .doReset id → t = u
  deferred : ∀ id ∈ s.deferred, Held s id true ∧ s.pc id = .sleeping
  disabled : ∀ id, s.disabled id = true → Held s id true
  reinits : ∀ id, s.reinits id ≤ 1
  unheld : s.unheld = false

variable {cfg : Config n} {s s' : State n} {t u id : Fin n} {p : Pc n} {e : Events} {l : List (State n × Fin n × Action n)}

theorem Inv.at_pc (h : Inv cfg s) (hpc : s.pc t = p) : At cfg s t p := hpc ▸ h.position t

@[simp] theorem goto_self : (s.goto t p).pc t = p := Function.update_self ..
theorem goto_of_ne (h : u ≠ t) : (s.goto t p).pc u = s.pc u := Function.update_of_ne h ..

@[simp] theorem setEvents_self : (s.setEvents t e).events t = e := Function.update_self ..
theorem setEvents_of_ne (h : u ≠ t) : (s.setEvents t e).events u = s.events u := Function.update_of_ne h ..

theorem setReset_self {x : ResetState n} : (s.setReset id x).resets id = x := Function.update_self ..
theorem setReset_of_ne {x : ResetState n} (h : u ≠ id) : (s.setReset id x).resets u = s.resets u :=
  Function.update_of_ne h ..

theorem locked_setReset {x : ResetState n} (hx : x.locked = (s.resets id).locked) :
    ((s.setReset id x).resets u).locked = (s.resets u).locked := by
  obtain rfl | hu := eq_or_ne u id
  · rw [setReset_self, hx]
  · rw [setReset_of_ne hu]

theorem Inv.nobody (h : Inv cfg s) (hfree : (s.resets id).locked = false) :
    (∀ q, s.pc q ≠ .doReset id) ∧ (∀ q, s.pc q ≠ .deferredReset id) ∧ id ∉ s.deferred ∧ s.disabled id = false ∧
      ¬(s.pc id).Cleaning := by
  have hlocked : (s.resets id).locked ≠ true := by simp [hfree]
  refine ⟨fun q hq => ?_, fun q hq => ?_, fun hmem => hlocked (h.deferred id hmem).1.locked, ?_, fun hclean => ?_⟩
  · have hat := h.at_pc hq
    exact hlocked hat.1.locked
  · have hat := h.at_pc hq
    exact hlocked hat.1.locked
  · exact Bool.eq_false_iff.mpr fun hset => hlocked (h.disabled id hset).locked
  · have hat := h.position id
    cases hpc : s.pc id <;> rw [hpc] at hat hclean <;> first | exact hclean.elim | exact hlocked hat.1

theorem Inv.own (h : Inv cfg s) (hset : s.disabled id = true) : ∀ q, s.pc q ≠ .doReset id := by
  intro q hq
  have hat := h.at_pc hq
  exact Bool.noConfusion (hset.symm.trans hat.1.disabled)

theorem Inv.awake (h : Inv cfg s) (hpc : s.pc id ≠ .sleeping) : (∀ q, s.pc q ≠ .deferredReset id) ∧ id ∉ s.deferred := by
  refine ⟨fun q hq => ?_, fun hmem => hpc (h.deferred id hmem).2⟩
  have hat := h.at_pc hq
  exact hpc hat.2.1

theorem Inv.notQueued (h : Inv cfg s) (q x : Fin n) (hq : s.pc q = .deferredReset x) : x ∉ s.deferred :=
  (h.at_pc hq).2.2.1

/-- What another task relies on does not change. -/
structure Keeps (s s' : State n) (u : Fin n) : Prop where
  own : (s.resets u).locked = (s'.resets u).locked
  disabled : s'.disabled u = s.disabled u
  taken : ∀ id, s.pc u = .doReset id → Held s id false ∧ ¬(s.pc id).Cleaning → Held s' id false ∧ ¬(s'.pc id).Cleaning
  queued : ∀ id, s.pc u = .deferredReset id → Held s id true ∧ s.pc id = .sleeping ∧ id ∉ s.deferred →
    Held s' id true ∧ s'.pc id = .sleeping ∧ id ∉ s'.deferred
  waits : ∀ id events, s.pc u = .wait id events →
    u.castSucc ∈ (s.resets id).waiters ∨ s.pc id = .notify u ∨ has (s.events u) taskEventResetDone = true →
    u.castSucc ∈ (s'.resets id).waiters ∨ s'.pc id = .notify u ∨ has (s'.events u) taskEventResetDone = true

theorem At.keep (h : At cfg s u (s.pc u)) (hkeeps : Keeps s s' u) : At cfg s' u (s.pc u) := by
  cases hpc : s.pc u with
  | startup => rw [hpc] at h; exact hkeeps.disabled.trans h
  | cleanup => rw [hpc] at h; exact ⟨hkeeps.own.symm.trans h.1, hkeeps.disabled.trans h.2⟩
  | lookup => rw [hpc] at h; exact ⟨hkeeps.own.symm.trans h.1, hkeeps.disabled.trans h.2⟩
  | found w => rw [hpc] at h; exact ⟨hkeeps.own.symm.trans h.1, hkeeps.disabled.trans h.2⟩
  | notify q => rw [hpc] at h; exact ⟨hkeeps.own.symm.trans h.1, hkeeps.disabled.trans h.2⟩
  | enable => rw [hpc] at h; exact hkeeps.disabled.trans h
  | tryRelease => rw [hpc] at h; exact hkeeps.disabled.trans h
  | defer => rw [hpc] at h; exact hkeeps.disabled.trans h
  | reset id wait => rw [hpc] at h; exact h
  | doReset id => rw [hpc] at h; exact hkeeps.taken id hpc h
  | wait id events => rw [hpc] at h; exact hkeeps.waits id events hpc h
  | deferredReset id =>
    rw [hpc] at h
    obtain ⟨hheld, hsleeps, hmem, hhooks⟩ := h
    obtain ⟨hheld', hsleeps', hmem'⟩ := hkeeps.queued id hpc ⟨hheld, hsleeps, hmem⟩
    exact ⟨hheld', hsleeps', hmem', hhooks⟩
  | _ => exact trivial

/-- A task goes on. Nothing else changes but its events, which may only grow for the others. -/
theorem Inv.move (h : Inv cfg s) {events : Fin n → Events}
    (hevents : ∀ u, u ≠ t → has (s.events u) taskEventResetDone = true → has (events u) taskEventResetDone = true)
    (hnotify : ∀ u, s.pc t = .notify u → u ≠ t → has (events u) taskEventResetDone = true)
    (hawake : s.pc t = .sleeping → p = .sleeping)
    (hclean : p.Cleaning → ∀ q, s.pc q ≠ .doReset t) (honce : ∀ id, p = .doReset id → ∀ q, s.pc q ≠ .doReset id)
    (hself : At cfg { s.goto t p with events := events } t p) : Inv cfg { s.goto t p with events := events } where
  position := by
    intro u
    obtain rfl | hu := eq_or_ne u t
    · show At cfg _ u ((s.goto u p).pc u)
      rw [goto_self]
      exact hself
    · show At cfg _ u ((s.goto t p).pc u)
      rw [goto_of_ne hu]
      refine (h.position u).keep ⟨rfl, rfl, fun id hpc hat => ⟨⟨hat.1.locked, hat.1.reinits, hat.1.disabled⟩, ?_⟩,
        fun id hpc hat => ⟨⟨hat.1.locked, hat.1.reinits, hat.1.disabled⟩, ?_, hat.2.2⟩, fun id events' hpc hat => ?_⟩
      · intro hcleaning
        obtain rfl | hid := eq_or_ne id t
        · have hp : ((s.goto id p).pc id).Cleaning := hcleaning
          rw [goto_self] at hp
          exact hclean hp u hpc
        · have hp : ((s.goto t p).pc id).Cleaning := hcleaning
          rw [goto_of_ne hid] at hp
          exact hat.2 hp
      · show (s.goto t p).pc id = .sleeping
        obtain rfl | hid := eq_or_ne id t
        · rw [goto_self]
          exact hawake hat.2.1
        · rw [goto_of_ne hid]
          exact hat.2.1
      · rcases hat with hmem | hnotified | hset
        · exact .inl hmem
        · obtain rfl | hid := eq_or_ne id t
          · exact .inr (.inr (hnotify u hnotified hu))
          · exact .inr (.inl ((goto_of_ne hid).trans hnotified))
        · exact .inr (.inr (hevents u hu hset))
  once := by
    have hold : ∀ id q, (s.goto t p).pc q = .doReset id → q = t ∧ p = .doReset id ∨ q ≠ t ∧ s.pc q = .doReset id := by
      intro id q hq
      obtain rfl | hne := eq_or_ne q t
      · exact .inl ⟨rfl, goto_self.symm.trans hq⟩
      · exact .inr ⟨hne, (goto_of_ne hne).symm.trans hq⟩
    intro id q q' hq hq'
    rcases hold id q hq with ⟨hqt, hp⟩ | ⟨-, hqold⟩ <;> rcases hold id q' hq' with ⟨hqt', hp'⟩ | ⟨-, hqold'⟩
    · exact hqt.trans hqt'.symm
    · exact absurd hqold' (honce id hp q')
    · exact absurd hqold (honce id hp' q)
    · exact h.once id q q' hqold hqold'
  deferred := by
    intro id hmem
    obtain ⟨hheld, hsleeps⟩ := h.deferred id hmem
    refine ⟨⟨hheld.locked, hheld.reinits, hheld.disabled⟩, ?_⟩
    show (s.goto t p).pc id = .sleeping
    obtain rfl | hid := eq_or_ne id t
    · rw [goto_self]
      exact hawake hsleeps
    · rw [goto_of_ne hid]
      exact hsleeps
  disabled := fun id hset => ⟨(h.disabled id hset).locked, (h.disabled id hset).reinits, hset⟩
  reinits := h.reinits
  unheld := h.unheld

theorem Pc.Free.quiet {p₀ : Pc n} (hfree : p₀.Free) (hpc : s.pc t = p₀) :
    (∀ u, s.pc t ≠ .notify u) ∧ s.pc t ≠ .sleeping := by
  subst hpc
  refine ⟨fun u hu => ?_, fun hs => ?_⟩
  · rw [hu] at hfree
    exact hfree
  · rw [hs] at hfree
    exact hfree

theorem Pc.Plain.cases (hp : p.Plain) : ¬p.Cleaning ∧ ∀ id, p ≠ .doReset id := by
  refine ⟨fun hclean => ?_, fun id heq => ?_⟩
  · cases p <;> first | exact hp | exact hclean
  · rw [heq] at hp
    exact hp

theorem Inv.goto {p₀ : Pc n} (h : Inv cfg s) (hpc : s.pc t = p₀) (hfree : p₀.Free)
    (hclean : p.Cleaning → ∀ q, s.pc q ≠ .doReset t) (honce : ∀ id, p ≠ .doReset id) (hself : At cfg (s.goto t p) t p) :
    Inv cfg (s.goto t p) :=
  have ⟨hnotify, hawake⟩ := hfree.quiet hpc
  h.move (fun _ _ hset => hset) (fun u hu => absurd hu (hnotify u)) (fun hs => absurd hs hawake) hclean
    (fun id hp => absurd hp (honce id)) hself

theorem Inv.goto_plain {p₀ : Pc n} (h : Inv cfg s) (hpc : s.pc t = p₀) (hfree : p₀.Free) (hp : p.Plain)
    (hself : At cfg (s.goto t p) t p) : Inv cfg (s.goto t p) :=
  have ⟨hclean, honce⟩ := hp.cases
  h.goto hpc hfree (fun hc => absurd hc hclean) honce hself

/-! ## Changes of a lock -/

theorem Inv.release (h : Inv cfg s) (hpc : s.pc t = .running) (hself : s.disabled t = false)
    (htaken : ∀ q, s.pc q ≠ .doReset t) : Inv cfg (release s t) where
  position := by
    obtain ⟨hqueued, -⟩ := @Inv.awake _ _ _ t h (by rw [hpc]; exact fun heq => by cases heq)
    intro u
    show At cfg (Reset.release s t) u (s.pc u)
    obtain rfl | hu := eq_or_ne u t
    · rw [hpc]
      exact trivial
    · have hother : ∀ id, id ≠ t → (Reset.release s t).resets id = s.resets id := fun id hid => setReset_of_ne hid
      refine (h.position u).keep ⟨by rw [hother u hu], rfl,
        fun id hp hat => ?_, fun id hp hat => ?_, fun id events hp hat => ?_⟩
      · have hid : id ≠ t := fun heq => htaken u (heq ▸ hp)
        exact ⟨⟨by rw [hother id hid]; exact hat.1.locked, hat.1.reinits, hat.1.disabled⟩, hat.2⟩
      · have hid : id ≠ t := fun heq => hqueued u (heq ▸ hp)
        exact ⟨⟨by rw [hother id hid]; exact hat.1.locked, hat.1.reinits, hat.1.disabled⟩, hat.2⟩
      · have hwaiters : ((Reset.release s t).resets id).waiters = (s.resets id).waiters := by
          obtain rfl | hid := eq_or_ne id t
          · rw [Reset.release, setReset_self]
          · rw [hother id hid]
        rw [hwaiters]
        exact hat
  once := h.once
  deferred := by
    intro id hmem
    obtain ⟨hheld, hsleeps⟩ := h.deferred id hmem
    have hid : id ≠ t := by
      rintro rfl
      rw [hpc] at hsleeps
      cases hsleeps
    exact ⟨⟨by rw [Reset.release, setReset_of_ne hid]; exact hheld.locked, hheld.reinits, hheld.disabled⟩, hsleeps⟩
  disabled := by
    intro id hset
    have hid : id ≠ t := by
      rintro rfl
      exact Bool.noConfusion (hself.symm.trans hset)
    have hheld := h.disabled id hset
    exact ⟨by rw [Reset.release, setReset_of_ne hid]; exact hheld.locked, hheld.reinits, hset⟩
  reinits := h.reinits
  unheld := h.unheld

theorem Inv.acquire (h : Inv cfg s) (hfree : (s.resets id).locked = false) : Inv cfg (acquire s id) := by
  obtain ⟨htaken, hqueued, hdeferred, hdisabled, hclean⟩ := h.nobody hfree
  have hother : ∀ u, u ≠ id → (Reset.acquire s id).resets u = s.resets u := fun u hu => setReset_of_ne hu
  have hreinits : ∀ u, u ≠ id → (Reset.acquire s id).reinits u = s.reinits u := fun u hu => Function.update_of_ne hu ..
  have hwaiters : ∀ u, ((Reset.acquire s id).resets u).waiters = (s.resets u).waiters := by
    intro u
    obtain rfl | hu := eq_or_ne u id
    · show ((s.setReset u _).resets u).waiters = _
      rw [setReset_self]
    · rw [hother u hu]
  have hheld : ∀ u b, u ≠ id → Held s u b → Held (Reset.acquire s id) u b := fun u b hu hu' =>
    ⟨by rw [hother u hu]; exact hu'.locked, by rw [hreinits u hu]; exact hu'.reinits, hu'.disabled⟩
  constructor
  case position =>
    intro u
    show At cfg (Reset.acquire s id) u (s.pc u)
    have hat := h.position u
    obtain rfl | hu := eq_or_ne u id
    · -- the task whose lock it is does not rely on it
      cases hpc : s.pc u <;> rw [hpc] at hat hclean <;>
        first
        | exact absurd trivial hclean
        | exact hat
        | (obtain ⟨hat, hrest⟩ := hat
           refine ⟨hheld _ _ ?_ hat, hrest⟩
           rintro rfl
           first | exact htaken _ hpc | exact hqueued _ hpc)
        | (rw [At, hwaiters]; exact hat)
    · refine hat.keep ⟨by rw [hother u hu], rfl, fun x hp hx => ?_, fun x hp hx => ?_, fun x events hp hx => ?_⟩
      · exact ⟨hheld x false (fun heq => htaken u (heq ▸ hp)) hx.1, hx.2⟩
      · exact ⟨hheld x true (fun heq => hqueued u (heq ▸ hp)) hx.1, hx.2⟩
      · rw [hwaiters]
        exact hx
  case once => exact h.once
  case deferred =>
    intro x hmem
    obtain ⟨hx, hsleeps⟩ := h.deferred x hmem
    exact ⟨hheld x true (fun heq => hdeferred (heq ▸ hmem)) hx, hsleeps⟩
  case disabled =>
    intro x hset
    refine hheld x true (fun heq => ?_) (h.disabled x hset)
    rw [heq] at hset
    exact Bool.noConfusion (hdisabled.symm.trans hset)
  case reinits =>
    intro x
    obtain rfl | hx := eq_or_ne x id
    · show Function.update s.reinits x 0 x ≤ 1
      rw [Function.update_self]
      exact Nat.zero_le 1
    · rw [hreinits x hx]
      exact h.reinits x
  case unheld => exact h.unheld

/-- The locks and the places of all tasks stay as they are, and whoever waits is still told. -/
theorem Inv.sameLocks (h : Inv cfg s) {resets : Fin n → ResetState n} {ids : Finset (Fin n)} {events : Fin n → Events}
    (hlocked : ∀ u, (resets u).locked = (s.resets u).locked) (hids : ∀ x ∈ ids, Held s x true ∧ s.pc x = .sleeping)
    (hqueued : ∀ q x, s.pc q = .deferredReset x → x ∉ ids)
    (hwaits : ∀ u x events', s.pc u = .wait x events' →
      u.castSucc ∈ (s.resets x).waiters ∨ s.pc x = .notify u ∨ has (s.events u) taskEventResetDone = true →
      u.castSucc ∈ (resets x).waiters ∨ s.pc x = .notify u ∨ has (events u) taskEventResetDone = true) :
    Inv cfg { s with resets := resets, deferred := ids, events := events } := by
  have hheld : ∀ u b, Held s u b → Held { s with resets := resets, deferred := ids, events := events } u b :=
    fun u b hu => ⟨(hlocked u).trans hu.locked, hu.reinits, hu.disabled⟩
  constructor
  case position =>
    exact fun u => (h.position u).keep ⟨(hlocked u).symm, rfl, fun x _ hx => ⟨hheld x false hx.1, hx.2⟩,
      fun x hp hx => ⟨hheld x true hx.1, hx.2.1, hqueued u x hp⟩, hwaits u⟩
  case once => exact h.once
  case deferred => exact fun x hmem => ⟨hheld x true (hids x hmem).1, (hids x hmem).2⟩
  case disabled => exact fun x hset => hheld x true (h.disabled x hset)
  case reinits => exact h.reinits
  case unheld => exact h.unheld

theorem Inv.setWaiters (h : Inv cfg s) {w : Finset (Fin (n + 1))}
    (hw : ∀ u, u.castSucc ∈ (s.resets id).waiters → u.castSucc ∈ w ∨ s.pc id = .notify u) :
    Inv cfg (s.setReset id { s.resets id with waiters := w }) := by
  refine h.sameLocks (fun u => locked_setReset rfl) h.deferred h.notQueued fun u x _ _ hx => ?_
  obtain rfl | hne := eq_or_ne x id
  · rw [Function.update_self]
    rcases hx with hmem | hrest
    · exact (hw u hmem).imp id .inl
    · exact .inr hrest
  · rw [Function.update_of_ne hne]
    exact hx

theorem Inv.setDisabled (h : Inv cfg s) {b : Bool} (hpc : s.pc t = .running)
    (hheld : b = true → Held s t false ∧ ∀ q, s.pc q ≠ .doReset t) :
    Inv cfg (s.setDisabled t b) := by
  obtain ⟨hqueued, hdeferred⟩ := @Inv.awake _ _ _ t h (by rw [hpc]; exact fun heq => by cases heq)
  have hother : ∀ u, u ≠ t → (s.setDisabled t b).disabled u = s.disabled u := fun u hu => Function.update_of_ne hu ..
  have hkeeps : ∀ u c, u ≠ t → Held s u c → Held (s.setDisabled t b) u c := fun u c hu hx =>
    ⟨hx.locked, hx.reinits, (hother u hu).trans hx.disabled⟩
  constructor
  case position =>
    intro u
    show At cfg (s.setDisabled t b) u (s.pc u)
    obtain rfl | hu := eq_or_ne u t
    · rw [hpc]
      exact trivial
    · refine (h.position u).keep ⟨rfl, hother u hu, fun x hp hx => ?_, fun x hp hx => ?_, fun x events _ hx => hx⟩
      · obtain rfl | hne := eq_or_ne x t
        · cases b with
          | true => exact absurd hp ((hheld rfl).2 u)
          | false =>
            refine ⟨⟨hx.1.locked, hx.1.reinits, ?_⟩, hx.2⟩
            exact Function.update_self ..
        · exact ⟨hkeeps x false hne hx.1, hx.2⟩
      · exact ⟨hkeeps x true (fun heq => hqueued u (heq ▸ hp)) hx.1, hx.2⟩
  case once => exact h.once
  case deferred =>
    intro x hmem
    exact ⟨hkeeps x true (fun heq => hdeferred (heq ▸ hmem)) (h.deferred x hmem).1, (h.deferred x hmem).2⟩
  case disabled =>
    intro x hset
    obtain rfl | hne := eq_or_ne x t
    · have hb : b = true := by
        have hself : (s.setDisabled x b).disabled x = b := Function.update_self ..
        exact hself.symm.trans hset
      obtain ⟨hx, -⟩ := hheld hb
      exact ⟨hx.locked, hx.reinits, hset⟩
    · exact hkeeps x true hne (h.disabled x ((hother x hne).symm.trans hset))
  case reinits => exact h.reinits
  case unheld => exact h.unheld

theorem Inv.setDeferred (h : Inv cfg s) {ids : Finset (Fin n)} (hids : ∀ x ∈ ids, Held s x true ∧ s.pc x = .sleeping)
    (hqueued : ∀ q x, s.pc q = .deferredReset x → x ∉ ids) : Inv cfg { s with deferred := ids } :=
  h.sameLocks (fun _ => rfl) hids hqueued fun _ _ _ _ hx => hx

/-- A task is re-initialised by whoever has its lock, and by nobody else. -/
theorem Inv.doTaskReset (h : Inv cfg s) {b : Bool} (hheld : Held s id b) (htaken : ∀ q, s.pc q ≠ .doReset id)
    (hqueued : ∀ q, s.pc q ≠ .deferredReset id) (hdeferred : id ∉ s.deferred) (hclean : ¬(s.pc id).Cleaning) :
    Inv cfg (doTaskReset s id) := by
  have hpc : ∀ u, u ≠ id → (Reset.doTaskReset s id).pc u = s.pc u := fun u hu => goto_of_ne hu
  have hself : (Reset.doTaskReset s id).pc id = .startup := goto_self
  have hdisabled : ∀ u, u ≠ id → (Reset.doTaskReset s id).disabled u = s.disabled u :=
    fun u hu => Function.update_of_ne hu ..
  have hreinits : ∀ u, u ≠ id → (Reset.doTaskReset s id).reinits u = s.reinits u := fun u hu => Function.update_of_ne hu ..
  have hkeeps : ∀ u c, u ≠ id → Held s u c → Held (Reset.doTaskReset s id) u c := fun u c hu hx =>
    ⟨hx.locked, (hreinits u hu).trans hx.reinits, (hdisabled u hu).trans hx.disabled⟩
  constructor
  case position =>
    intro u
    obtain rfl | hu := eq_or_ne u id
    · rw [hself]
      exact Function.update_self ..
    · rw [hpc u hu]
      refine (h.position u).keep ⟨rfl, hdisabled u hu, fun x hp hx => ?_, fun x hp hx => ?_, fun x events _ hx => ?_⟩
      · have hne : x ≠ id := fun heq => htaken u (heq ▸ hp)
        exact ⟨hkeeps x false hne hx.1, by rw [hpc x hne]; exact hx.2⟩
      · have hne : x ≠ id := fun heq => hqueued u (heq ▸ hp)
        exact ⟨hkeeps x true hne hx.1, (hpc x hne).trans hx.2.1, hx.2.2⟩
      · rcases hx with hmem | hnotified | hset
        · exact .inl hmem
        · have hne : x ≠ id := by
            rintro rfl
            rw [hnotified] at hclean
            exact hclean trivial
          exact .inr (.inl ((hpc x hne).trans hnotified))
        · exact .inr (.inr hset)
  case once =>
    have hold : ∀ x q, (Reset.doTaskReset s id).pc q = .doReset x → s.pc q = .doReset x := by
      intro x q hq
      obtain rfl | hne := eq_or_ne q id
      · rw [hself] at hq
        cases hq
      · exact (hpc q hne).symm.trans hq
    exact fun x q q' hq hq' => h.once x q q' (hold x q hq) (hold x q' hq')
  case deferred =>
    intro x hmem
    have hne : x ≠ id := fun heq => hdeferred (heq ▸ hmem)
    exact ⟨hkeeps x true hne (h.deferred x hmem).1, (hpc x hne).trans (h.deferred x hmem).2⟩
  case disabled =>
    intro x hset
    have hne : x ≠ id := by
      rintro rfl
      have hoff : (Reset.doTaskReset s x).disabled x = false := Function.update_self ..
      exact Bool.noConfusion (hoff.symm.trans hset)
    exact hkeeps x true hne (h.disabled x ((hdisabled x hne).symm.trans hset))
  case reinits =>
    intro x
    obtain rfl | hne := eq_or_ne x id
    · have hone : (Reset.doTaskReset s x).reinits x = s.reinits x + 1 := Function.update_self ..
      rw [hone, hheld.reinits]
    · rw [hreinits x hne]
      exact h.reinits x
  case unheld =>
    show (s.unheld || !(s.resets id).locked) = false
    rw [h.unheld, hheld.locked]
    rfl

/-! ## Steps keep the invariant -/

/-- task_reset_cleanup does not start in a task whose lock a requester has taken to re-initialise it. -/
def InOrder (x : State n × Fin n × Action n) : Prop :=
  x.2.2 = .next → x.1.pc x.2.1 = .startup → ∀ q, x.1.pc q ≠ .doReset x.2.1

instance (x : State n × Fin n × Action n) : Decidable (InOrder x) :=
  inferInstanceAs (Decidable (x.2.2 = .next → x.1.pc x.2.1 = .startup → ∀ q, x.1.pc q ≠ .doReset x.2.1))

theorem Inv.cleaning (h : Inv cfg s) (hclean : (s.pc t).Cleaning) : ∀ q, s.pc q ≠ .doReset t := by
  intro q hq
  have hat := h.at_pc hq
  exact hat.2 hclean

theorem goto_ne {q : Fin n} (hp : p ≠ .doReset id) (hq : s.pc q ≠ .doReset id) : (s.goto t p).pc q ≠ .doReset id := by
  obtain rfl | hne := eq_or_ne q t
  · rw [goto_self]
    exact hp
  · rw [goto_of_ne hne]
    exact hq

theorem inv_cleanup (h : Inv cfg s) (hpc : s.pc t = .cleanup) (hnext : next s t = some s') : Inv cfg s' := by
  have hat := h.at_pc hpc
  have htaken := h.cleaning (t := t) (by rw [hpc]; exact trivial)
  simp only [next, hpc] at hnext
  split at hnext
  · cases hnext
    have hrun : Inv cfg (s.goto t .running) := h.goto_plain hpc trivial trivial trivial
    exact hrun.release goto_self hat.2 fun q => goto_ne (fun heq => by cases heq) (htaken q)
  · cases hnext
    exact h.goto hpc trivial (fun _ => htaken) (fun id hp => by cases hp) hat

theorem notified_spec {w : Fin (n + 1)} : (notified w : Pc n).Cleaning ∧ (∀ id, (notified w : Pc n) ≠ .doReset id) ∧
    ∀ u : Fin n, u.castSucc = w → (notified w : Pc n) = .notify u := by
  rw [notified]
  split
  · refine ⟨trivial, (fun id hp => by cases hp), fun u hu => ?_⟩
    subst hu
    rfl
  · rename_i hlast
    refine ⟨trivial, (fun id hp => by cases hp), fun u hu => absurd ?_ hlast⟩
    rw [← hu]
    exact u.isLt

theorem inv_found {w : Fin (n + 1)} (h : Inv cfg s) (hpc : s.pc t = .found w) :
    Inv cfg (removeWaiter (s.goto t (notified w)) t w) := by
  have hat := h.at_pc hpc
  have htaken := h.cleaning (t := t) (by rw [hpc]; exact trivial)
  obtain ⟨hclean, honce, hnotified⟩ := notified_spec (n := n) (w := w)
  have hself : At cfg (s.goto t (notified w)) t (notified w) := by
    rw [notified]
    split <;> exact hat
  have hgo : Inv cfg (s.goto t (notified w)) :=
    h.goto hpc trivial (fun _ => htaken) honce hself
  refine hgo.setWaiters fun u hmem => ?_
  by_cases hw : u.castSucc = w
  · exact .inr (by rw [goto_self]; exact hnotified u hw)
  · exact .inl (Finset.mem_erase.mpr ⟨hw, hmem⟩)

theorem has_post {c : Events} (h : has (s.events u) c = true) : has ((s.post t e).events u) c = true := by
  obtain rfl | hu := eq_or_ne u t
  · rw [State.post, setEvents_self, has_or, h]
    rfl
  · rw [State.post, setEvents_of_ne hu]
    exact h

theorem inv_notify (h : Inv cfg s) (hpc : s.pc t = .notify id) :
    Inv cfg ((s.post id taskEventResetDone).goto t .cleanup) := by
  have hat := h.at_pc hpc
  have htaken := h.cleaning (t := t) (by rw [hpc]; exact trivial)
  have hawake : s.pc t ≠ .sleeping := fun hs => by cases hpc.symm.trans hs
  refine @Inv.move _ _ _ t .cleanup h (s.post id taskEventResetDone).events (fun u _ hset => has_post hset)
    (fun u hu _ => ?_) (fun hs => absurd hs hawake) (fun _ => htaken) (fun id hp => by cases hp) hat
  cases hpc.symm.trans hu
  have hbit : has taskEventResetDone taskEventResetDone = true := by decide
  rw [State.post, setEvents_self, has_or, hbit, Bool.or_true]

theorem inv_tryRelease (h : Inv cfg s) (hpc : s.pc t = .tryRelease) (hnext : next s t = some s') : Inv cfg s' := by
  have hat : s.disabled t = true := h.at_pc hpc
  simp only [next, hpc] at hnext
  split at hnext
  · cases hnext
    have hrun : Inv cfg (s.goto t .running) := h.goto_plain hpc trivial trivial trivial
    have hoff : Inv cfg ((s.goto t .running).setDisabled t false) := hrun.setDisabled goto_self fun hb => by cases hb
    exact hoff.release goto_self (Function.update_self ..) fun q => goto_ne (fun heq => by cases heq) (h.own hat q)
  · cases hnext
    exact h.goto_plain hpc trivial trivial hat

theorem inv_defer (h : Inv cfg s) (hpc : s.pc t = .defer) :
    Inv cfg { s.goto t .sleeping with deferred := insert t s.deferred } := by
  have hat : s.disabled t = true := h.at_pc hpc
  have hheld := h.disabled t hat
  obtain ⟨hqueued, -⟩ := @Inv.awake _ _ _ t h (by rw [hpc]; exact fun heq => by cases heq)
  have hgo : Inv cfg (s.goto t .sleeping) := h.goto_plain hpc trivial trivial trivial
  refine hgo.setDeferred (fun x hx => ?_) fun q x hq hx => ?_
  · rcases Finset.mem_insert.mp hx with rfl | hx
    · exact ⟨⟨hheld.locked, hheld.reinits, hheld.disabled⟩, goto_self⟩
    · exact hgo.deferred x hx
  · rcases Finset.mem_insert.mp hx with rfl | hx
    · obtain rfl | hne := eq_or_ne q x
      · rw [goto_self] at hq
        cases hq
      · rw [goto_of_ne hne] at hq
        exact hqueued q hq
    · exact hgo.notQueued q x hq hx

theorem inv_disable (h : Inv cfg s) (hpc : s.pc t = .disable) (hnext : next s t = some s') : Inv cfg s' := by
  simp only [next, hpc] at hnext
  split at hnext
  · rename_i hunlocked
    cases hnext
    have hfree : (s.resets t).locked = false := by
      rw [stateUnlocked, Bool.and_eq_true, Bool.not_eq_true'] at hunlocked
      exact hunlocked.1
    have hrun : Inv cfg (s.goto t .running) := h.goto_plain hpc trivial trivial trivial
    obtain ⟨htaken, -, -, hdisabled, -⟩ := @Inv.nobody _ _ _ t hrun hfree
    refine (hrun.acquire hfree).setDisabled goto_self fun _ => ⟨⟨?_, Function.update_self .., hdisabled⟩, htaken⟩
    show ((((s.goto t .running).setReset t _).resets t)).locked = true
    rw [setReset_self]
  · cases hnext
    exact h.goto_plain hpc trivial trivial trivial

theorem inv_reset {wait : Bool} (h : Inv cfg s) (hpc : s.pc t = .reset id wait)
    (hnext : next s t = some s') : Inv cfg s' := by
  have hne : id ≠ t := h.at_pc hpc
  simp only [next, hpc] at hnext
  split at hnext
  · cases hnext
    have hadd : Inv cfg (addWaiter s id (waiterId t wait)) :=
      h.setWaiters fun u hmem => .inl (Finset.mem_insert_of_mem hmem)
    refine hadd.goto_plain hpc trivial ?_ ?_
    · cases wait <;> exact trivial
    · cases wait with
      | false => exact trivial
      | true =>
        refine .inl ?_
        show t.castSucc ∈ ((s.setReset id _).resets id).waiters
        rw [setReset_self]
        exact Finset.mem_insert_self ..
  · rename_i hunlocked
    cases hnext
    have hfree : (s.resets id).locked = false := Bool.eq_false_iff.mpr hunlocked
    obtain ⟨htaken, -, -, hdisabled, hclean⟩ := h.nobody hfree
    refine @Inv.move _ _ _ t (.doReset id) (h.acquire hfree) s.events (fun _ _ hset => hset)
      (fun u hu => by cases hpc.symm.trans hu) (fun hs => by cases hpc.symm.trans hs)
        (fun hc => hc.elim) (fun x hx q => ?_)
      ⟨⟨?_, Function.update_self .., hdisabled⟩, ?_⟩
    · cases hx
      exact htaken q
    · show ((s.setReset id _).resets id).locked = true
      rw [setReset_self]
    · show ¬(((Reset.acquire s id).goto t (.doReset id)).pc id).Cleaning
      rw [goto_of_ne hne]
      exact hclean

theorem inv_doReset (h : Inv cfg s) (hpc : s.pc t = .doReset id) : Inv cfg (doTaskReset (s.goto t .running) id) := by
  have hat : Held s id false ∧ ¬(s.pc id).Cleaning := h.at_pc hpc
  have hgo : Inv cfg (s.goto t .running) := h.goto_plain hpc trivial trivial trivial
  refine hgo.doTaskReset (b := false) ⟨hat.1.locked, hat.1.reinits, hat.1.disabled⟩ (fun q hq => ?_) (fun q hq => ?_)
    (fun hmem => ?_) ?_
  · obtain rfl | hne := eq_or_ne q t
    · rw [goto_self] at hq
      cases hq
    · rw [goto_of_ne hne] at hq
      exact hne (h.once id q t hq hpc)
  · have hold := hgo.at_pc hq
    exact Bool.noConfusion (hold.1.disabled.symm.trans hat.1.disabled)
  · exact Bool.noConfusion ((h.deferred id hmem).1.disabled.symm.trans hat.1.disabled)
  · obtain rfl | hne := eq_or_ne id t
    · rw [goto_self]
      exact fun hc => hc
    · rw [goto_of_ne hne]
      exact hat.2

theorem inv_deferredReset (h : Inv cfg s) (hpc : s.pc t = .deferredReset id) :
    Inv cfg (doTaskReset (s.goto t .running) id) := by
  have hat : Held s id true ∧ s.pc id = .sleeping ∧ id ∉ s.deferred ∧ t = cfg.hooks := h.at_pc hpc
  obtain ⟨hheld, hsleeps, hdeferred, hhooks⟩ := hat
  have hgo : Inv cfg (s.goto t .running) := h.goto_plain hpc trivial trivial trivial
  have hne : id ≠ t := by
    rintro rfl
    rw [hpc] at hsleeps
    cases hsleeps
  refine hgo.doTaskReset (b := true) ⟨hheld.locked, hheld.reinits, hheld.disabled⟩ (fun q hq => ?_) (fun q hq => ?_)
    hdeferred ?_
  · have hold := hgo.at_pc hq
    exact Bool.noConfusion (hold.1.disabled.symm.trans hheld.disabled)
  · have hold := hgo.at_pc hq
    obtain rfl : q = t := hold.2.2.2.trans hhooks.symm
    rw [goto_self] at hq
    cases hq
  · rw [goto_of_ne hne, hsleeps]
    exact fun hc => hc

theorem has_mask {a : Events} (h : has a resetMask = false) : has a taskEventResetDone = false :=
  has_mono (by decide) h

theorem inv_collect {events : Events} (h : Inv cfg s) (hpc : s.pc t = .wait id events) :
    Inv cfg (collect s t id events) := by
  have hat : t.castSucc ∈ (s.resets id).waiters ∨ s.pc id = .notify t ∨
    has (s.events t) taskEventResetDone = true := h.at_pc hpc
  have hmove : ∀ p : Pc n, ¬p.Cleaning → (∀ x, p ≠ .doReset x) → At cfg ((s.setEvents t 0).goto t p) t p →
      Inv cfg ((s.setEvents t 0).goto t p) := fun p hclean honce hself =>
    @Inv.move _ _ _ t p h (s.setEvents t 0).events (fun u hu hset => by rw [setEvents_of_ne hu]; exact hset)
      (fun u hu => by cases hpc.symm.trans hu) (fun hs => by cases hpc.symm.trans hs) (fun hc => absurd hc hclean)
      (fun x hp => absurd hp (honce x)) hself
  rw [collect]
  split
  · exact hmove _ (fun hc => hc) (fun x hp => by cases hp) trivial
  · rename_i hnone
    refine hmove _ (fun hc => hc) (fun x hp => by cases hp) ?_
    -- the event was not there, so the task is still a waiter or about to be told
    have hnone' : has (s.events t) taskEventResetDone = false := has_mask (has_left (Bool.eq_false_iff.mpr hnone))
    rcases hat with hmem | hnotified | hset
    · exact .inl hmem
    · refine .inr (.inl ?_)
      show ((s.setEvents t 0).goto t _).pc id = .notify t
      obtain rfl | hne := eq_or_ne id t
      · cases hpc.symm.trans hnotified
      · rw [goto_of_ne hne]
        exact hnotified
    · exact absurd (hnone'.symm.trans hset) Bool.false_ne_true

/-- Events are posted, or a task that does not wait for a reset clears its own. -/
theorem inv_setEvents (h : Inv cfg s) {events : Fin n → Events}
    (hevents : ∀ u id x, s.pc u = .wait id x → has (s.events u) taskEventResetDone = true →
      has (events u) taskEventResetDone = true) : Inv cfg { s with events := events } :=
  h.sameLocks (fun _ => rfl) h.deferred h.notQueued fun u id x hp hx => hx.imp_right (Or.imp_right (hevents u id x hp))

theorem inv_next (h : Inv cfg s) (hok : s.pc t = .startup → ∀ q, s.pc q ≠ .doReset t) (hnext : next s t = some s') :
    Inv cfg s' := by
  have hat := h.position t
  cases hpc : s.pc t with
  | running =>
    simp only [next, hpc] at hnext
    cases hnext
  | startup =>
    rw [hpc] at hat
    simp only [next, hpc] at hnext
    cases hnext
    split
    · rename_i hlocked
      exact h.goto hpc trivial (fun _ => hok hpc) (fun id hp => by cases hp) ⟨hlocked, hat⟩
    · exact h.goto_plain hpc trivial trivial trivial
  | cleanup => exact inv_cleanup h hpc hnext
  | lookup =>
    rw [hpc] at hat
    simp only [next, hpc] at hnext
    split at hnext
    · cases hnext
    · cases hnext
      exact h.goto hpc trivial (fun _ => h.cleaning (by rw [hpc]; exact trivial)) (fun id hp => by cases hp) hat
  | found w =>
    simp only [next, hpc] at hnext
    cases hnext
    exact inv_found h hpc
  | notify id =>
    simp only [next, hpc] at hnext
    cases hnext
    exact inv_notify h hpc
  | enable =>
    rw [hpc] at hat
    simp only [next, hpc] at hnext
    cases hnext
    split
    · exact h.goto_plain hpc trivial trivial trivial
    · exact h.goto_plain hpc trivial trivial hat
  | tryRelease => exact inv_tryRelease h hpc hnext
  | defer =>
    simp only [next, hpc] at hnext
    cases hnext
    exact inv_defer h hpc
  | disable => exact inv_disable h hpc hnext
  | reset id wait => exact inv_reset h hpc hnext
  | doReset id =>
    simp only [next, hpc] at hnext
    cases hnext
    exact inv_doReset h hpc
  | wait id events =>
    simp only [next, hpc] at hnext
    split at hnext
    · cases hnext
    · cases hnext
      exact inv_collect h hpc
  | repost events =>
    simp only [next, hpc] at hnext
    cases hnext
    exact @Inv.move _ _ _ t .running h (s.post t (events &&& ~~~resetMask)).events (fun u _ hset => has_post hset)
      (fun u hu => by cases hpc.symm.trans hu) (fun hs => by cases hpc.symm.trans hs) (fun hc => hc.elim)
      (fun id hp => by cases hp) trivial
  | deferredReset id =>
    simp only [next, hpc] at hnext
    cases hnext
    exact inv_deferredReset h hpc
  | sleeping =>
    simp only [next, hpc] at hnext
    cases hnext

theorem inv_step {a : Action n} (h : Inv cfg s) (hok : InOrder (s, t, a)) (hstep : step cfg (t, a) s = some s') :
    Inv cfg s' := by
  have hclear : ∀ e, (∀ id events, s.pc t ≠ .wait id events) → Inv cfg (s.setEvents t (s.events t &&& ~~~e)) := by
    intro e hnot
    refine inv_setEvents h fun u id events hp hset => ?_
    have hu : u ≠ t := fun heq => hnot id events (heq ▸ hp)
    have hsame : (s.setEvents t (s.events t &&& ~~~e)).events u = s.events u := setEvents_of_ne hu
    exact (congrArg (has · taskEventResetDone) hsame).trans hset
  unfold step at hstep
  dsimp only at hstep
  split at hstep
  case h_1 hpc =>
    split at hstep
    · rename_i hguard
      cases hstep
      rw [Bool.and_eq_true] at hguard
      exact h.goto_plain hpc trivial trivial hguard.2
    · cases hstep
  case h_2 hpc =>
    split at hstep
    · cases hstep
      exact h.goto_plain hpc trivial trivial trivial
    · cases hstep
  case h_3 id wait hpc =>
    split at hstep
    · rename_i hguard
      cases hstep
      exact h.goto_plain hpc trivial trivial hguard.1
    · cases hstep
  case h_4 hpc =>
    split at hstep
    · rename_i hhooks
      split at hstep
      · cases hstep
      · rename_i id hmax
        cases hstep
        obtain ⟨hheld, hsleeps⟩ := h.deferred id (Finset.mem_of_max hmax)
        have hne : id ≠ t := by
          intro heq
          rw [heq] at hsleeps
          cases hpc.symm.trans hsleeps
        have hless : Inv cfg { s with deferred := s.deferred.erase id } :=
          h.setDeferred (fun y hy => h.deferred y (Finset.mem_of_mem_erase hy)) fun q y hq hy =>
            h.notQueued q y hq (Finset.mem_of_mem_erase hy)
        refine hless.goto_plain hpc trivial trivial
          ⟨⟨hheld.locked, hheld.reinits, hheld.disabled⟩, ?_, Finset.notMem_erase id _, hhooks⟩
        rw [goto_of_ne hne]
        exact hsleeps
    · cases hstep
  case h_5 => exact inv_next h (hok rfl) hstep
  case h_6 e =>
    cases hstep
    exact inv_setEvents h fun u id events _ hset => has_post hset
  case h_7 e hpc =>
    cases hstep
    exact hclear e fun id events hp => by cases hpc.symm.trans hp
  case h_8 e hpc =>
    cases hstep
    exact hclear e fun id events hp => by cases hpc.symm.trans hp
  case h_9 => cases hstep

theorem inv_start : Inv cfg (start cfg) where
  position := by
    intro t
    show At cfg (start cfg) t (if cfg.supported t then .startup else .running)
    split
    · exact rfl
    · exact trivial
  once := by
    intro id t u ht
    have hp : (if cfg.supported t then Pc.startup else Pc.running) = .doReset id := ht
    split at hp <;> cases hp
  deferred := fun id hmem => absurd hmem (Finset.notMem_empty id)
  disabled := fun id hset => by cases hset
  reinits := fun _ => Nat.zero_le 1
  unheld := rfl

theorem inv_run (h : Run (step cfg) (start cfg) l s) (hok : ∀ x ∈ l, InOrder x) : Inv cfg s :=
  h.invariant (P := Inv cfg) inv_start (fun _ _ _ hinv hx hstep => inv_step hinv hx hstep) hok

/-! ## The protocol -/

/-- A lock is released only when nobody waits. -/
theorem release_empty (hstate : stateLocked (s.resets t) = true) (hheld : (s.resets id).locked = true)
    (hfree : ((release s t).resets id).locked = false) : (s.resets id).waiters = ∅ := by
  obtain rfl | hne := eq_or_ne id t
  · rw [stateLocked, Bool.and_eq_true, decide_eq_true_eq] at hstate
    exact hstate.2
  · rw [release, setReset_of_ne hne] at hfree
    exact Bool.noConfusion (hfree.symm.trans hheld)

theorem next_release (hnext : next s t = some s') (hheld : (s.resets id).locked = true)
    (hfree : (s'.resets id).locked = false) : (s.resets id).waiters = ∅ := by
  -- all but the two ways to release a lock leave it as it is, or take it
  have hsame : (s'.resets id).locked = (s.resets id).locked → (s.resets id).waiters = ∅ :=
    fun heq => Bool.noConfusion (hfree.symm.trans (heq.trans hheld))
  unfold next at hnext
  split at hnext
  case h_3 =>
    split at hnext
    · rename_i hstate
      cases hnext
      exact release_empty hstate hheld hfree
    · cases hnext
      exact hsame rfl
  case h_8 =>
    split at hnext
    · rename_i hstate
      cases hnext
      exact release_empty hstate hheld hfree
    · cases hnext
      exact hsame rfl
  case h_10 =>
    split at hnext
    · cases hnext
      obtain rfl | hne := eq_or_ne id t
      · have htaken : ((acquire (s.goto id .running) id).resets id).locked = true := by
          show (((s.goto id .running).setReset id _).resets id).locked = true
          rw [setReset_self]
        exact Bool.noConfusion (hfree.symm.trans htaken)
      · exact hsame (congrArg ResetState.locked (setReset_of_ne hne))
    · cases hnext
      exact hsame rfl
  case h_11 x wait _ =>
    split at hnext
    · cases hnext
      exact hsame (locked_setReset rfl)
    · cases hnext
      obtain rfl | hne := eq_or_ne id x
      · have htaken : ((acquire s id).resets id).locked = true := by
          show ((s.setReset id _).resets id).locked = true
          rw [setReset_self]
        exact Bool.noConfusion (hfree.symm.trans htaken)
      · exact hsame (congrArg ResetState.locked (setReset_of_ne hne))
  case h_5 =>
    cases hnext
    exact hsame (locked_setReset rfl)
  case h_13 =>
    split at hnext
    · cases hnext
    · cases hnext
      exact hsame rfl
  case h_4 =>
    split at hnext
    · cases hnext
    · cases hnext
      exact hsame rfl
  all_goals first
    | (cases hnext; exact hsame rfl)
    | cases hnext

theorem step_release {a : Action n} (hstep : step cfg (t, a) s = some s') (hheld : (s.resets id).locked = true)
    (hfree : (s'.resets id).locked = false) : (s.resets id).waiters = ∅ := by
  have hsame : s'.resets = s.resets → (s.resets id).waiters = ∅ := by
    intro heq
    rw [heq] at hfree
    exact Bool.noConfusion (hfree.symm.trans hheld)
  unfold step at hstep
  dsimp only at hstep
  split at hstep
  case h_4 =>
    split at hstep
    · split at hstep
      · cases hstep
      · cases hstep
        exact hsame rfl
    · cases hstep
  case h_5 => exact next_release hstep hheld hfree
  case h_9 => cases hstep
  all_goals first
    | (cases hstep; exact hsame rfl)
    | (split at hstep
       · cases hstep
         exact hsame rfl
       · cases hstep)

/-- The lock of a task is released only when nobody waits. If task_reset_cleanup never starts between
    the moment that a requester takes the lock and the reset, then a task is re-initialised only with
    its lock held and once for each time that it is taken, and no requester that waits is forgotten. -/
theorem reset_protocol (cfg : Config n) (l : List (State n × Fin n × Action n)) (s : State n)
    (h : Run (step cfg) (start cfg) l s) (hok : ∀ x ∈ l, InOrder x) :
    (∀ t a s', step cfg (t, a) s = some s' → ∀ id, (s.resets id).locked = true → (s'.resets id).locked = false →
        (s.resets id).waiters = ∅) ∧
      s.unheld = false ∧ (∀ id, s.reinits id ≤ 1) ∧
      ∀ q id events, s.pc q = .wait id events →
        q.castSucc ∈ (s.resets id).waiters ∨ s.pc id = .notify q ∨ has (s.events q) taskEventResetDone = true := by
  have hinv := inv_run h hok
  refine ⟨fun t a s' hstep id hheld hfree => step_release hstep hheld hfree, hinv.unheld,
    hinv.reinits, fun q id events hpc => ?_⟩
  have hat := hinv.position q
  rw [hpc] at hat
  exact hat

local instance neZero_two : NeZero 2 := Nat.instNeZeroSucc

/-- Task 0 asks task 1 to reset itself and waits. -/
def waitsForReset : List (Fin 2 × Action 2) :=
  [(1, .next), (1, .disableResets), (1, .next), (0, .reset 1 true), (0, .next), (1, .enableResets), (1, .next), (1, .next),
    (1, .next)]

def build : Config 2 where
  supported := fun t => t == 1
  hooks := 0

theorem reset_protocol_waits : ∃ l s, Run (step build) (start build) l s ∧ l.map Prod.snd = waitsForReset ∧
    s.pc 0 = .wait 1 0 ∧
    ((0 : Fin 2).castSucc ∈ (s.resets 1).waiters ∨ s.pc 1 = .notify 0 ∨ has (s.events 0) taskEventResetDone = true) := by
  have hseen : (trace (step build) waitsForReset ([], start build)).any fun r =>
      decide (r.2.pc 0 = .wait 1 0 ∧ ∀ x ∈ r.1, InOrder x) := by decide +kernel
  obtain ⟨l, s, run, hlabels, hpc, hall⟩ := exists_run hseen
  exact ⟨l, s, run, hlabels, hpc, (reset_protocol build l s run hall).2.2.2 0 1 0 hpc⟩

/-- Task 0 takes the lock of task 1, which starts for the first time then. It takes the lock for a sign
    that it was reset and releases it, and is re-initialised without it. -/
theorem reset_without_lock : ∃ l s, Run (step build) (start build) l s ∧
    l.map Prod.snd = [(0, .reset 1 false), (0, .next), (1, .next), (1, .next), (0, .next)] ∧ s.unheld = true := by
  have hseen : (trace (step build) [(0, .reset 1 false), (0, .next), (1, .next), (1, .next), (0, .next)]
      ([], start build)).any fun r => decide (r.2.unheld = true) := by decide +kernel
  obtain ⟨l, s, run, hlabels, hunheld⟩ := exists_run hseen
  exact ⟨l, s, run, hlabels, hunheld⟩

end ChromeEc.Task.Reset
