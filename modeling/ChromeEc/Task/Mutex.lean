import ChromeEc.Lib.Steps
import ChromeEc.Task.Model

/- Mutexes: mutex_lock, mutex_try_lock and mutex_unlock of core/cortex-m/task.c, after task_start.

  Each task is somewhere in one of the functions, and any of them may take its next atomic step.
  A task locks what it likes, also when it holds other mutexes, and unlocks what it holds. Besides,
  anybody may post events to a task at any time, and a timer that a wait has armed may be
  cancelled. The other steps are those of task_wait_event_mask.

  What is proved: two tasks never hold the same mutex, and no wakeup is lost
  (`mutex_correct`). A waiter registers before it tries, so the unlock of whoever it has to wait
  for takes its bit along (`At`, `Notified`). Its event is erased by nobody but itself, and not
  while it waits. -/
namespace ChromeEc.Task.Mutex
open Lib Steps

variable {n : Nat}

/-- `lock` is 0 or 2. -/
structure MutexNr (n : Nat) where
  lock : Nat
  waiters : Finset (Fin n)

inductive Pc (n : Nat) where
  | running
  /-- mutex_lock before the waiter bit is set -/
  | lock (m : Nat)
  /-- mutex_lock at mutex_try_lock -/
  | tryLock (m : Nat)
  /-- mutex_lock in task_wait_event_mask, with the events that it has collected -/
  | wait (m : Nat) (events : Events)
  /-- task_wait_event_mask posts the other events again. -/
  | repost (m : Nat) (events : Events)
  /-- mutex_lock after mutex_try_lock succeeded -/
  | locked (m : Nat)
  /-- mutex_try_lock from outside -/
  | tryOnly (m : Nat)
  | unlock (m : Nat)
  /-- mutex_unlock, with the waiters that have not got their event -/
  | notify (m : Nat) (waiters : Finset (Fin n))
  | clearEvent
  deriving DecidableEq

structure State (n : Nat) where
  mutexes : Nat → MutexNr n
  events : Fin n → Events
  pc : Fin n → Pc n
  held : Fin n → Finset Nat

def start : State n where
  mutexes := fun _ => { lock := 0, waiters := ∅ }
  events := fun _ => 0
  pc := fun _ => .running
  held := fun _ => ∅

def State.goto (s : State n) (t : Fin n) (p : Pc n) : State n := { s with pc := Function.update s.pc t p }

def State.setMutex (s : State n) (m : Nat) (x : MutexNr n) : State n :=
  { s with mutexes := Function.update s.mutexes m x }

def State.setEvents (s : State n) (t : Fin n) (e : Events) : State n :=
  { s with events := Function.update s.events t e }

def State.setHeld (s : State n) (t : Fin n) (ms : Finset Nat) : State n :=
  { s with held := Function.update s.held t ms }

/-- task_set_event -/
def State.post (s : State n) (t : Fin n) (e : Events) : State n := s.setEvents t (s.events t ||| e)

/-! ## Steps -/

/-- The mask of the wait in mutex_lock. The timer is always in it. -/
def waitMask : Events := taskEventMutex ||| taskEventTimer

/-- The exchange in mutex_try_lock: `acquired` if the lock was free, `failed` if somebody has it. -/
def tryLock (s : State n) (t : Fin n) (m : Nat) (acquired failed : Pc n) : State n :=
  if (s.mutexes m).lock = 0 then
    ((s.setMutex m { s.mutexes m with lock := 2 }).setHeld t (insert m (s.held t))).goto t acquired
  else if (s.mutexes m).lock = 2 then s.goto t failed
  else s

/-- One turn of task_wait_event_mask: the events of the task are taken. -/
def collect (s : State n) (t : Fin n) (m : Nat) (events : Events) : State n :=
  let collected := events ||| s.events t
  (s.setEvents t 0).goto t (if has collected waitMask then .repost m collected else .wait m collected)

inductive Action (n : Nat) where
  | lock (m : Nat)
  | tryLock (m : Nat)
  | unlock (m : Nat)
  | next
  /-- A timer that the task armed while it waited is cancelled. -/
  | cancelTimer
  | post (e : Events)

def next (s : State n) (t : Fin n) : Option (State n) :=
  match s.pc t with
  | .running => none
  | .lock m =>
    some ((s.setMutex m { s.mutexes m with waiters := insert t (s.mutexes m).waiters }).goto t (.tryLock m))
  | .tryLock m => some (tryLock s t m (.locked m) (.wait m 0))
  | .wait m events => if s.events t = 0 then none else some (collect s t m events)
  | .repost m events => some ((s.post t (events &&& ~~~waitMask)).goto t (.tryLock m))
  | .locked m =>
    some ((s.setMutex m { s.mutexes m with waiters := (s.mutexes m).waiters.erase t }).goto t .running)
  | .tryOnly m => some (tryLock s t m .running .running)
  | .unlock m =>
    some (((s.setMutex m { s.mutexes m with lock := 0 }).setHeld t ((s.held t).erase m)).goto t
      (.notify m (s.mutexes m).waiters))
  | .notify m waiters =>
    match waiters.max with
    | ⊥ => some (s.goto t .clearEvent)
    | (id : Fin n) => some ((s.post id taskEventMutex).goto t (.notify m (waiters.erase id)))
  | .clearEvent => some ((s.setEvents t (s.events t &&& ~~~taskEventMutex)).goto t .running)

/-- Task `x.1` takes a step, or something happens to it. -/
def step (x : Fin n × Action n) (s : State n) : Option (State n) :=
  match x.2, s.pc x.1 with
  | .lock m, .running => some (s.goto x.1 (.lock m))
  | .tryLock m, .running => some (s.goto x.1 (.tryOnly m))
  | .unlock m, .running => if m ∈ s.held x.1 then some (s.goto x.1 (.unlock m)) else none
  | .next, _ => next s x.1
  | .cancelTimer, _ => some (s.setEvents x.1 (s.events x.1 &&& ~~~taskEventTimer))
  | .post e, _ => some (s.post x.1 e)
  | _, _ => none

/-! ## The invariant -/

/-- An unlock of the mutex is about to post the event to the task. -/
def Notified (s : State n) (m : Nat) (t : Fin n) : Prop := ∃ u w, s.pc u = .notify m w ∧ t ∈ w

def At (s : State n) (t : Fin n) : Pc n → Prop
  | .tryLock m => t ∈ (s.mutexes m).waiters
  | .wait m _ =>
    t ∈ (s.mutexes m).waiters ∧
      ((s.mutexes m).lock = 0 → has (s.events t) taskEventMutex = true ∨ Notified s m t)
  | .repost m _ => t ∈ (s.mutexes m).waiters
  | .unlock m => m ∈ s.held t
  | _ => True

structure Inv (s : State n) : Prop where
  locked : ∀ m t, m ∈ s.held t → (s.mutexes m).lock = 2
  exclusive : ∀ m t u, m ∈ s.held t → m ∈ s.held u → t = u
  position : ∀ t, At s t (s.pc t)

variable {s s' : State n} {t u : Fin n} {m : Nat} {p : Pc n} {e : Events}

@[simp] theorem goto_mutexes : (s.goto t p).mutexes = s.mutexes := rfl
@[simp] theorem goto_events : (s.goto t p).events = s.events := rfl
@[simp] theorem goto_self : (s.goto t p).pc t = p := Function.update_self ..
theorem goto_of_ne (h : u ≠ t) : (s.goto t p).pc u = s.pc u := Function.update_of_ne h ..

@[simp] theorem setEvents_self : (s.setEvents t e).events t = e := Function.update_self ..
theorem setEvents_of_ne (h : u ≠ t) : (s.setEvents t e).events u = s.events u := Function.update_of_ne h ..

theorem has_post {c : Events} (h : has (s.events u) c = true) : has ((s.post t e).events u) c = true := by
  obtain rfl | hu := eq_or_ne u t
  · rw [State.post, setEvents_self, has_or, h]
    rfl
  · rw [State.post, setEvents_of_ne hu]
    exact h

theorem has_post_self {c : Events} (h : has e c = true) : has ((s.post t e).events t) c = true := by
  rw [State.post, setEvents_self, has_or, h, Bool.or_true]

/-- What the other tasks need of a step. -/
structure Keeps (s s' : State n) (u : Fin n) : Prop where
  pc : s'.pc u = s.pc u
  waiters : ∀ m, u ∈ (s.mutexes m).waiters → u ∈ (s'.mutexes m).waiters
  held : ∀ m, m ∈ s.held u → m ∈ s'.held u
  woken : ∀ m, u ∈ (s.mutexes m).waiters →
    ((s.mutexes m).lock = 0 → has (s.events u) taskEventMutex = true ∨ Notified s m u) →
    (s'.mutexes m).lock = 0 → has (s'.events u) taskEventMutex = true ∨ Notified s' m u

theorem At.mono (h : At s u p) (hkeeps : Keeps s s' u) : At s' u p := by
  cases p with
  | tryLock m => exact hkeeps.waiters m h
  | wait m events => exact ⟨hkeeps.waiters m h.1, hkeeps.woken m h.1 h.2⟩
  | repost m events => exact hkeeps.waiters m h
  | unlock m => exact hkeeps.held m h
  | _ => exact trivial

theorem Inv.at_pc (h : Inv s) (hpc : s.pc t = p) : At s t p := hpc ▸ h.position t

theorem not_notify (hpc : s.pc t = p) (hp : ∀ k w, p ≠ .notify k w) : ∀ k w, s.pc t ≠ .notify k w := hpc ▸ hp

theorem Inv.move (h : Inv s) (hlocked : ∀ m t, m ∈ s'.held t → (s'.mutexes m).lock = 2)
    (hexclusive : ∀ m t u, m ∈ s'.held t → m ∈ s'.held u → t = u) (hothers : ∀ u, u ≠ t → Keeps s s' u)
    (hself : At s' t (s'.pc t)) : Inv s' where
  locked := hlocked
  exclusive := hexclusive
  position := by
    intro u
    obtain rfl | hu := eq_or_ne u t
    · exact hself
    · rw [(hothers u hu).pc]
      exact (h.position u).mono (hothers u hu)

theorem Notified.keep (h : Notified s m u) (hpc : ∀ v, v ≠ t → s'.pc v = s.pc v)
    (hself : ∀ w, s.pc t = .notify m w → u ∈ w → has (s'.events u) taskEventMutex = true ∨ Notified s' m u) :
    has (s'.events u) taskEventMutex = true ∨ Notified s' m u := by
  obtain ⟨v, w, hv, hu⟩ := h
  obtain rfl | hne := eq_or_ne v t
  · exact hself w hv hu
  · exact .inr ⟨v, w, (hpc v hne).trans hv, hu⟩

theorem Inv.quiet (h : Inv s) (hmutexes : s'.mutexes = s.mutexes) (hheld : s'.held = s.held)
    (hpc : ∀ u, u ≠ t → s'.pc u = s.pc u)
    (hevents : ∀ u, u ≠ t → has (s.events u) taskEventMutex = true → has (s'.events u) taskEventMutex = true)
    (hnotify : ∀ m w u, s.pc t = .notify m w → u ∈ w → u ≠ t → has (s'.events u) taskEventMutex = true ∨ Notified s' m u)
    (hself : At s' t (s'.pc t)) : Inv s' := by
  refine h.move (t := t) ?_ ?_ (fun u hu => ⟨hpc u hu, ?_, ?_, ?_⟩) hself
  · rw [hmutexes, hheld]
    exact h.locked
  · rw [hheld]
    exact h.exclusive
  · rw [hmutexes]
    exact fun m hm => hm
  · rw [hheld]
    exact fun m hm => hm
  · rw [hmutexes]
    intro m _ hwoken hfree
    rcases hwoken hfree with hset | hnotified
    · exact .inl (hevents u hu hset)
    · exact hnotified.keep hpc fun w hw hmem => hnotify m w u hw hmem hu

theorem Inv.goto (h : Inv s) (hself : At (s.goto t p) t p) (hnotify : ∀ m w, s.pc t = .notify m w → w = ∅) :
    Inv (s.goto t p) := by
  refine h.quiet rfl rfl (fun u hu => goto_of_ne hu) (fun u _ hset => hset) (fun m w u hw hmem _ => ?_) ?_
  · rw [hnotify m w hw] at hmem
    exact absurd hmem (Finset.notMem_empty u)
  · rw [goto_self]
    exact hself

/-! ## Steps keep the invariant -/

@[simp] theorem setMutex_self {x : MutexNr n} : (s.setMutex m x).mutexes m = x := Function.update_self ..
theorem setMutex_of_ne {x : MutexNr n} {k : Nat} (h : k ≠ m) : (s.setMutex m x).mutexes k = s.mutexes k :=
  Function.update_of_ne h ..

@[simp] theorem setHeld_mutexes {ms : Finset Nat} : (s.setHeld t ms).mutexes = s.mutexes := rfl
theorem setHeld_of_ne {ms : Finset Nat} (h : u ≠ t) : (s.setHeld t ms).held u = s.held u := Function.update_of_ne h ..

/-- What others need does not depend on where a task goes that has nothing to post. -/
theorem keeps_goto (hpc : s'.pc = s.pc) (hu : u ≠ t) (hnot : ∀ m w, s.pc t ≠ .notify m w)
    (hevents : s'.events = s.events) (hwaiters : ∀ m, u ∈ (s.mutexes m).waiters → u ∈ (s'.mutexes m).waiters)
    (hheld : ∀ m, m ∈ s.held u → m ∈ s'.held u)
    (hlock : ∀ m, (s'.mutexes m).lock = 0 →
      (s.mutexes m).lock = 0 ∨ ∃ w, p = .notify m w ∧ (u ∈ (s.mutexes m).waiters → u ∈ w)) :
    Keeps s (s'.goto t p) u where
  pc := (goto_of_ne hu).trans (congrFun hpc u)
  waiters := hwaiters
  held := hheld
  woken := by
    intro m hmem hwoken hfree
    rcases hlock m hfree with hold | ⟨w, rfl, hw⟩
    · rcases hwoken hold with hset | hnotified
      · exact .inl (by rw [goto_events, hevents]; exact hset)
      · refine hnotified.keep (t := t) (fun v hv => (goto_of_ne hv).trans (congrFun hpc v)) fun w hw _ => ?_
        exact absurd hw (hnot m w)
    · exact .inr ⟨t, w, goto_self, hw hmem⟩

theorem inv_tryLock {acquired failed : Pc n} (h : Inv s) (hnot : ∀ m w, s.pc t ≠ .notify m w)
    (hacquired : ∀ x, At x t acquired)
    (hfailed : (s.mutexes m).lock = 2 → At (s.goto t failed) t failed) : Inv (tryLock s t m acquired failed) := by
  rw [tryLock]
  split
  · rename_i hfree
    have hnobody : ∀ u, m ∉ s.held u := fun u hu => by
      rw [h.locked m u hu] at hfree
      cases hfree
    have hheld : ∀ u k, k ≠ m → k ∈ Function.update s.held t (insert m (s.held t)) u → k ∈ s.held u := by
      intro u k hk hmem
      obtain rfl | hu := eq_or_ne u t
      · rw [Function.update_self] at hmem
        exact (Finset.mem_insert.mp hmem).resolve_left hk
      · rwa [Function.update_of_ne hu] at hmem
    have honly : ∀ u, m ∈ Function.update s.held t (insert m (s.held t)) u → u = t := by
      intro u hmem
      by_contra hu
      rw [Function.update_of_ne hu] at hmem
      exact hnobody u hmem
    refine h.move (t := t) (fun k u hmem => ?_) (fun k u v hmem hmem' => ?_) (fun u hu => ?_) ?_
    · obtain rfl | hk := eq_or_ne k m
      · rw [goto_mutexes, setHeld_mutexes, setMutex_self]
      · rw [goto_mutexes, setHeld_mutexes, setMutex_of_ne hk]
        exact h.locked k u (hheld u k hk hmem)
    · obtain rfl | hk := eq_or_ne k m
      · exact (honly u hmem).trans (honly v hmem').symm
      · exact h.exclusive k u v (hheld u k hk hmem) (hheld v k hk hmem')
    · refine keeps_goto rfl hu hnot rfl (fun k hk => ?_) (fun k hk => ?_) fun k hk => ?_
      · obtain rfl | hkm := eq_or_ne k m
        · rw [setHeld_mutexes, setMutex_self]
          exact hk
        · rw [setHeld_mutexes, setMutex_of_ne hkm]
          exact hk
      · rw [setHeld_of_ne hu]
        exact hk
      · obtain rfl | hkm := eq_or_ne k m
        · rw [setHeld_mutexes, setMutex_self] at hk
          cases hk
        · rw [setHeld_mutexes, setMutex_of_ne hkm] at hk
          exact .inl hk
    · rw [goto_self]
      exact hacquired _
  · split
    · rename_i hheld
      exact h.goto (hfailed hheld) fun k w hw => absurd hw (hnot k w)
    · exact h

theorem inv_setWaiters {w : Finset (Fin n)} (h : Inv s) (hnot : ∀ k w, s.pc t ≠ .notify k w)
    (hw : ∀ u, u ≠ t → u ∈ (s.mutexes m).waiters → u ∈ w)
    (hself : At ((s.setMutex m { s.mutexes m with waiters := w }).goto t p) t p) :
    Inv ((s.setMutex m { s.mutexes m with waiters := w }).goto t p) := by
  have hlock : ∀ k, ((s.setMutex m { s.mutexes m with waiters := w }).mutexes k).lock = (s.mutexes k).lock := by
    intro k
    obtain rfl | hk := eq_or_ne k m
    · rw [setMutex_self]
    · rw [setMutex_of_ne hk]
  refine h.move (t := t) (fun k u hmem => ?_) h.exclusive (fun u hu => ?_) (by rw [goto_self]; exact hself)
  · rw [goto_mutexes, hlock]
    exact h.locked k u hmem
  · refine keeps_goto rfl hu hnot rfl (fun k hk => ?_) (fun k hk => hk) fun k hk => ?_
    · obtain rfl | hkm := eq_or_ne k m
      · rw [setMutex_self]
        exact hw u hu hk
      · rw [setMutex_of_ne hkm]
        exact hk
    · rw [hlock] at hk
      exact .inl hk

theorem inv_release (h : Inv s) (hheld : m ∈ s.held t) (hnot : ∀ k w, s.pc t ≠ .notify k w) :
    Inv (((s.setMutex m { s.mutexes m with lock := 0 }).setHeld t ((s.held t).erase m)).goto t
      (.notify m (s.mutexes m).waiters)) := by
  have hsub : ∀ u k, k ∈ Function.update s.held t ((s.held t).erase m) u → k ∈ s.held u ∧ (k = m → u ≠ t) := by
    intro u k hmem
    obtain rfl | hu := eq_or_ne u t
    · rw [Function.update_self] at hmem
      exact ⟨Finset.mem_of_mem_erase hmem, fun hk => absurd hk (Finset.ne_of_mem_erase hmem)⟩
    · rw [Function.update_of_ne hu] at hmem
      exact ⟨hmem, fun _ => hu⟩
  refine h.move (t := t) (fun k u hmem => ?_) (fun k u v hmem hmem' => ?_) (fun u hu => ?_) ?_
  · obtain ⟨hold, hne⟩ := hsub u k hmem
    have hk : k ≠ m := fun hk => hne hk (h.exclusive k u t hold (hk ▸ hheld))
    rw [goto_mutexes, setHeld_mutexes, setMutex_of_ne hk]
    exact h.locked k u hold
  · exact h.exclusive k u v (hsub u k hmem).1 (hsub v k hmem').1
  · refine keeps_goto rfl hu hnot rfl (fun k hk => ?_) (fun k hk => ?_) fun k hk => ?_
    · obtain rfl | hkm := eq_or_ne k m
      · rw [setHeld_mutexes, setMutex_self]
        exact hk
      · rw [setHeld_mutexes, setMutex_of_ne hkm]
        exact hk
    · rw [setHeld_of_ne hu]
      exact hk
    · obtain rfl | hkm := eq_or_ne k m
      · exact .inr ⟨_, rfl, id⟩
      · rw [setHeld_mutexes, setMutex_of_ne hkm] at hk
        exact .inl hk
  · rw [goto_self]
    exact trivial

theorem inv_setEvents (h : Inv s) (hnot : ∀ k w, s.pc t ≠ .notify k w) (hself : At ((s.setEvents t e).goto t p) t p) :
    Inv ((s.setEvents t e).goto t p) := by
  refine h.quiet rfl rfl (fun u hu => goto_of_ne hu) (fun u hu hset => ?_) (fun k w u hw => absurd hw (hnot k w)) ?_
  · rw [goto_events, setEvents_of_ne hu]
    exact hset
  · rw [goto_self]
    exact hself

theorem has_mask {a : Events} (h : has a waitMask = false) : has a taskEventMutex = false :=
  has_mono (by decide) h

theorem inv_collect {events : Events} (h : Inv s) (hpc : s.pc t = .wait m events) : Inv (collect s t m events) := by
  have hnot : ∀ k w, s.pc t ≠ .notify k w := not_notify hpc fun k w heq => by cases heq
  obtain ⟨hmem, hwoken⟩ := h.at_pc hpc
  rw [collect]
  split
  · exact inv_setEvents h hnot hmem
  · rename_i hnone
    refine inv_setEvents h hnot ⟨hmem, fun hfree => ?_⟩
    -- the mutex event was not there, so an unlock still has to post it
    have hnone' : has (s.events t) taskEventMutex = false := has_mask (has_left (Bool.eq_false_iff.mpr hnone))
    rcases hwoken hfree with hset | hnotified
    · exact absurd (hnone'.symm.trans hset) Bool.false_ne_true
    · refine hnotified.keep (t := t) (fun v hv => goto_of_ne hv) fun w hw => absurd hw (hnot m w)

theorem inv_post (h : Inv s) : Inv (s.post t e) := by
  refine h.quiet (t := t) rfl rfl (fun u _ => rfl) (fun u _ hset => has_post hset) (fun k w u hw hu _ => ?_) ?_
  · exact .inr ⟨t, w, hw, hu⟩
  · refine (h.position t).mono ⟨rfl, fun _ hm => hm, fun _ hm => hm, fun k _ hwoken hfree => ?_⟩
    exact (hwoken hfree).imp has_post id

theorem inv_cancelTimer (h : Inv s) : Inv (s.setEvents t (s.events t &&& ~~~taskEventTimer)) := by
  have hsame : ∀ u, has ((s.setEvents t (s.events t &&& ~~~taskEventTimer)).events u) taskEventMutex =
      has (s.events u) taskEventMutex := by
    intro u
    obtain rfl | hu := eq_or_ne u t
    · rw [setEvents_self]
      exact has_clear (by decide)
    · rw [setEvents_of_ne hu]
  refine h.quiet (t := t) rfl rfl (fun u _ => rfl) (fun u _ hset => (hsame u).trans hset) (fun k w u hw hu _ => ?_) ?_
  · exact .inr ⟨t, w, hw, hu⟩
  · refine (h.position t).mono ⟨rfl, fun _ hm => hm, fun _ hm => hm, fun k _ hwoken hfree => ?_⟩
    exact (hwoken hfree).imp (fun hset => (hsame t).trans hset) id

theorem inv_notify {w : Finset (Fin n)} {id : Fin n} (h : Inv s) (hpc : s.pc t = .notify m w) :
    Inv ((s.post id taskEventMutex).goto t (.notify m (w.erase id))) := by
  refine h.quiet rfl rfl (fun u hu => goto_of_ne hu) (fun u _ hset => has_post hset) (fun k w' u hw hu _ => ?_) ?_
  · rw [hpc] at hw
    obtain ⟨rfl, rfl⟩ := Pc.notify.inj hw
    obtain rfl | hid := eq_or_ne u id
    · exact .inl (has_post_self (by decide))
    · exact .inr ⟨t, w.erase id, goto_self, Finset.mem_erase.mpr ⟨hid, hu⟩⟩
  · rw [goto_self]
    exact trivial

theorem inv_next (h : Inv s) (hnext : next s t = some s') : Inv s' := by
  unfold next at hnext
  split at hnext
  case h_1 => cases hnext
  case h_2 m hpc =>
    cases hnext
    refine inv_setWaiters h (not_notify hpc fun k w hw => by cases hw) (fun u _ hu => Finset.mem_insert_of_mem hu) ?_
    show t ∈ (((s.setMutex m _).goto t _).mutexes m).waiters
    rw [goto_mutexes, setMutex_self]
    exact Finset.mem_insert_self ..
  case h_3 m hpc =>
    cases hnext
    refine inv_tryLock h (not_notify hpc fun k w hw => by cases hw) (fun x => trivial)
      fun hheld => ⟨h.at_pc hpc, fun hfree => ?_⟩
    rw [goto_mutexes, hheld] at hfree
    cases hfree
  case h_4 m events hpc =>
    split at hnext
    · cases hnext
    · cases hnext
      exact inv_collect h hpc
  case h_5 m events hpc =>
    cases hnext
    exact inv_setEvents h (not_notify hpc fun k w hw => by cases hw) (h.at_pc hpc)
  case h_6 m hpc =>
    cases hnext
    exact inv_setWaiters h (not_notify hpc fun k w hw => by cases hw)
      (fun u hu hmem => Finset.mem_erase.mpr ⟨hu, hmem⟩) trivial
  case h_7 m hpc =>
    cases hnext
    exact inv_tryLock h (not_notify hpc fun k w hw => by cases hw) (fun x => trivial) fun _ => trivial
  case h_8 m hpc =>
    cases hnext
    exact inv_release h (h.at_pc hpc) (not_notify hpc fun k w hw => by cases hw)
  case h_9 m w hpc =>
    split at hnext
    · rename_i hmax
      cases hnext
      refine h.goto trivial fun k w' hw' => ?_
      rw [hpc] at hw'
      obtain ⟨-, rfl⟩ := Pc.notify.inj hw'
      exact Finset.max_eq_bot.mp hmax
    · cases hnext
      exact inv_notify h hpc
  case h_10 hpc =>
    cases hnext
    exact inv_setEvents h (not_notify hpc fun k w hw => by cases hw) trivial

theorem inv_step {x : Fin n × Action n} (h : Inv s) (hstep : step x s = some s') : Inv s' := by
  have hidle : ∀ p, s.pc x.1 = .running → At (s.goto x.1 p) x.1 p → Inv (s.goto x.1 p) := fun p hpc hself =>
    h.goto hself fun k w hw => by rw [hpc] at hw; cases hw
  unfold step at hstep
  split at hstep
  case h_1 hpc =>
    cases hstep
    exact hidle _ hpc trivial
  case h_2 hpc =>
    cases hstep
    exact hidle _ hpc trivial
  case h_3 hpc =>
    split at hstep
    · rename_i hheld
      cases hstep
      exact hidle _ hpc hheld
    · cases hstep
  case h_4 => exact inv_next h hstep
  case h_5 =>
    cases hstep
    exact inv_cancelTimer h
  case h_6 =>
    cases hstep
    exact inv_post h
  case h_7 => cases hstep

theorem inv_start : Inv (start : State n) where
  locked := fun _ _ hm => absurd hm (Finset.notMem_empty _)
  exclusive := fun _ _ _ hm => absurd hm (Finset.notMem_empty _)
  position := fun _ => trivial

theorem inv_run {l : List (State n × Fin n × Action n)} (h : Run step start l s) : Inv s :=
  h.holds inv_start fun _ _ _ hinv hstep => inv_step hinv hstep

/-- At most one task is between an acquire and the release of a mutex. A task that waits for a free
    mutex has its event, or an unlock of that mutex is about to post it. -/
theorem mutex_correct (l : List (State n × Fin n × Action n)) (s : State n) (h : Run step start l s) :
    (∀ m t u, m ∈ s.held t → m ∈ s.held u → t = u) ∧
      ∀ m, (s.mutexes m).lock = 0 → (∀ u w, s.pc u ≠ .notify m w) →
        ∀ t events, s.pc t = .wait m events → has (s.events t) taskEventMutex = true := by
  have hinv := inv_run h
  refine ⟨hinv.exclusive, fun m hfree hnobody t events hpc => ?_⟩
  have hat := hinv.position t
  rw [hpc] at hat
  rcases hat.2 hfree with hset | ⟨u, w, hu, -⟩
  · exact hset
  · exact absurd hu (hnobody u w)

local instance neZero_two : NeZero 2 := Nat.instNeZeroSucc

/-- Task 1 waits for what task 0 has locked, while task 0 unlocks it. -/
def handover : List (Fin 2 × Action 2) :=
  [(0, .lock 5), (0, .next), (0, .next), (0, .next), (1, .lock 5), (1, .next), (1, .next), (0, .unlock 5),
    (1, .post 1), (1, .next), (0, .next), (0, .next), (0, .next)]

theorem mutex_correct_handover : ∃ l s, Run step start l s ∧ l.map Prod.snd = handover ∧
    s.pc 1 = .wait 5 1 ∧ has (s.events 1) taskEventMutex = true := by
  have hseen : (trace step handover ([], start)).any fun r =>
      decide (r.2.pc 0 = .clearEvent ∧ r.2.pc 1 = .wait 5 1 ∧ (r.2.mutexes 5).lock = 0) := by decide +kernel
  obtain ⟨l, s, run, hlabels, hzero, hone, hfree⟩ := exists_run hseen
  have hnobody : ∀ u w, s.pc u ≠ .notify 5 w := by
    refine Fin.forall_fin_two.mpr ⟨fun w hw => ?_, fun w hw => ?_⟩
    · cases hzero.symm.trans hw
    · cases hone.symm.trans hw
  exact ⟨l, s, run, hlabels, hone, (mutex_correct l s run).2 5 hfree hnobody 1 1 hone⟩

end ChromeEc.Task.Mutex
