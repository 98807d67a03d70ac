import ChromeEc.Lib.Steps
import ChromeEc.Task.Model
import Mathlib.Data.Fintype.Basic

/- The scheduler of core/cortex-m/task.c from task_start on.

  The processor runs the current task, or the innermost of the interrupt handlers in progress.
  An interrupt may come before every step while interrupts are on. svc_handler is one step,
  since it masks everything, and it is the only place where the current task changes. What it
  and the interrupt handlers share with the tasks is read and written one word at a time.

  What is proved: no wakeup is lost, svc_handler always finds a task and makes the highest one
  current (`no_wakeup_lost`). What keeps the ready bit of a task that has an event is that only the task
  itself gives it up, inside svc_handler, after another look at its events (`descheduled_sub`). -/
namespace ChromeEc.Task.Scheduler
open Lib Steps

variable {n : Nat}

/-- The build: TASK_ID_HOOKS and CONFIG_TASK_PROFILING. -/
structure Config (n : Nat) where
  hooks : Fin n
  profiling : Bool

inductive Pc (n : Nat) where
  | running
  /-- __wait_evt before its atomic_clear -/
  | clear (resched : Fin n)
  /-- __wait_evt before its system call: there was no event. -/
  | desched (resched : Fin n)
  /-- task_set_event before its system call -/
  | setEvent (receiver : Fin n)
  /-- task_set_event with interrupts off -/
  | setReady (receiver : Fin n)
  | setFlag
  /-- task_enable_all_tasks between its two stores -/
  | enableAll
  /-- before a system call that deschedules and reschedules nothing -/
  | yield
  deriving DecidableEq

inductive Handler (n : Nat) where
  | running
  | setReady (receiver : Fin n)
  | setFlag
  /-- task_resched_if_needed has decided. -/
  | leaving (resched : Bool)
  deriving DecidableEq

structure Kernel (n : Nat) where
  events : Fin n → Events
  tasksReady : Finset (Fin n)
  tasksEnabled : Finset (Fin n)
  /-- `none` is the scratchpad that task_start runs on. -/
  currentTask : Option (Fin n)
  needReschedOrProfiling : Bool
  interruptsOn : Bool
  /-- The interrupt handlers in progress, innermost first. -/
  handlers : List (Handler n)
  pc : Fin n → Pc n
  /-- How often svc_handler ran. -/
  svcCalls : Nat
  /-- An ASSERT of svc_handler failed. -/
  asserted : Bool

def Kernel.goto (s : Kernel n) (t : Fin n) (p : Pc n) : Kernel n := { s with pc := Function.update s.pc t p }

def Kernel.setEvents (s : Kernel n) (t : Fin n) (e : Events) : Kernel n :=
  { s with events := Function.update s.events t e }

/-- The current task takes itself off the ready list, unless it has an event. -/
def Kernel.descheduled (s : Kernel n) : Finset (Fin n) :=
  match s.currentTask with
  | none => s.tasksReady
  | some current => if s.events current = 0 then s.tasksReady.erase current else s.tasksReady

variable {cfg : Config n} {s s' : Kernel n} {t u : Fin n} {p : Pc n} {e : Events}

@[simp] theorem goto_self : (s.goto t p).pc t = p := Function.update_self ..
theorem goto_of_ne (h : u ≠ t) : (s.goto t p).pc u = s.pc u := Function.update_of_ne h ..

@[simp] theorem setEvents_self : (s.setEvents t e).events t = e := Function.update_self ..
theorem setEvents_of_ne (h : u ≠ t) : (s.setEvents t e).events u = s.events u := Function.update_of_ne h ..

theorem descheduled_sub (hevents : s.events t ≠ 0) (hready : t ∈ s.tasksReady) : t ∈ s.descheduled := by
  rw [Kernel.descheduled]
  split
  · exact hready
  · rename_i current _
    split
    · rename_i hzero
      refine Finset.mem_erase.mpr ⟨?_, hready⟩
      rintro rfl
      exact hevents hzero
    · exact hready

/-- A task_set_event for the task is between its two updates. -/
def Setting (s : Kernel n) (t : Fin n) : Prop :=
  (∃ u, s.pc u = .setEvent t ∨ s.pc u = .setReady t) ∨ .setReady t ∈ s.handlers

theorem Setting.goto (h : Setting s u) : Setting (s.goto t p) u ∨ s.pc t = .setEvent u ∨ s.pc t = .setReady u := by
  rcases h with ⟨v, hv⟩ | hhandler
  · obtain rfl | hne := eq_or_ne v t
    · exact .inr hv
    · exact .inl (.inl ⟨v, by rwa [goto_of_ne hne]⟩)
  · exact .inl (.inr hhandler)

variable [NeZero n]

def idle : Fin n := 0

/-- __task_start has set the flag and is about to call __schedule. -/
def start (cfg : Config n) : Kernel n where
  events := fun _ => 0
  tasksReady := {cfg.hooks}
  tasksEnabled := {cfg.hooks, idle}
  currentTask := none
  needReschedOrProfiling := true
  interruptsOn := true
  handlers := []
  pc := fun _ => .running
  svcCalls := 0
  asserted := false

def svcHandler (cfg : Config n) (desched : Bool) (resched : Fin n) (s : Kernel n) : Kernel n :=
  let ready := insert resched (if desched then s.descheduled else s.tasksReady)
  match (ready ∩ s.tasksEnabled).max with
  | ⊥ => { s with tasksReady := ready, svcCalls := s.svcCalls + 1, asserted := true }
  | (next : Fin n) =>
    { s with
      tasksReady := ready
      currentTask := some next
      needReschedOrProfiling := cfg.profiling && s.needReschedOrProfiling
      svcCalls := s.svcCalls + 1 }

def setFlag (cfg : Config n) (s : Kernel n) : Kernel n :=
  { s with needReschedOrProfiling := s.needReschedOrProfiling || !cfg.profiling }

/-! ## Steps -/

inductive Action (n : Nat) where
  /-- task_set_event -/
  | setEvent (receiver : Fin n) (event : Events)
  /-- task_wait_event or task_wait_event_mask -/
  | wait
  /-- A task posts events to itself with atomic_or. -/
  | repost (event : Events)
  | clearBits (event : Events)
  | enableTask (t : Fin n)
  | disableTask (t : Fin n)
  | enableAllTasks
  | interruptDisable
  | interruptEnable
  | next

def taskStep (cfg : Config n) (t : Fin n) (a : Action n) (s : Kernel n) : Option (Kernel n) :=
  match a, s.pc t with
  | .setEvent receiver event, .running =>
    some ((s.setEvents receiver (s.events receiver ||| event)).goto t
      (if s.interruptsOn then .setEvent receiver else .setReady receiver))
  | .wait, .running => if s.interruptsOn then some (s.goto t (.clear idle)) else none
  | .repost event, .running => some (s.setEvents t (s.events t ||| event))
  | .clearBits event, .running => some (s.setEvents t (s.events t &&& ~~~event))
  | .enableTask u, .running => some { s with tasksEnabled := insert u s.tasksEnabled }
  | .disableTask u, .running =>
    if u = idle then none
    else
      some ({ s with tasksEnabled := s.tasksEnabled.erase u }.goto t
        (if s.interruptsOn && u = t then .yield else .running))
  | .enableAllTasks, .running => some ({ s with tasksEnabled := Finset.univ }.goto t .enableAll)
  | .interruptDisable, .running => some { s with interruptsOn := false }
  | .interruptEnable, .running => some { s with interruptsOn := true }
  | .next, .clear resched =>
    if s.events t = 0 then some (s.goto t (.desched resched)) else some ((s.setEvents t 0).goto t .running)
  | .next, .desched resched => some (svcHandler cfg true resched (s.goto t (.clear idle)))
  | .next, .setEvent receiver => some (svcHandler cfg false receiver (s.goto t .running))
  | .next, .setReady receiver => some ({ s with tasksReady := insert receiver s.tasksReady }.goto t .setFlag)
  | .next, .setFlag => some ((setFlag cfg s).goto t .running)
  | .next, .enableAll =>
    some ({ s with tasksReady := Finset.univ }.goto t (if s.interruptsOn then .yield else .running))
  | .next, .yield => some (svcHandler cfg false idle (s.goto t .running))
  | _, _ => none

/-- A step of the innermost handler. It leaves after its last step, through svc_handler if it has decided so. -/
def handlerStep (cfg : Config n) (a : Action n) (h : Handler n) (rest : List (Handler n)) (s : Kernel n) :
    Option (Kernel n) :=
  match a, h with
  | .setEvent receiver event, .running =>
    some { s.setEvents receiver (s.events receiver ||| event) with handlers := .setReady receiver :: rest }
  | .enableTask u, .running => some { s with tasksEnabled := insert u s.tasksEnabled }
  | .disableTask u, .running => if u = idle then none else some { s with tasksEnabled := s.tasksEnabled.erase u }
  | .next, .running => some { s with handlers := .leaving (s.needReschedOrProfiling && rest.isEmpty) :: rest }
  | .next, .setReady receiver =>
    some { s with tasksReady := insert receiver s.tasksReady, handlers := .setFlag :: rest }
  | .next, .setFlag => some { setFlag cfg s with handlers := .running :: rest }
  | .next, .leaving resched =>
    some (if resched then svcHandler cfg false idle { s with handlers := rest } else { s with handlers := rest })
  | _, _ => none

inductive Label (n : Nat) where
  | interrupt
  /-- What the processor runs takes a step. -/
  | run (a : Action n)

def step (cfg : Config n) (x : Label n) (s : Kernel n) : Option (Kernel n) :=
  match x with
  | .interrupt => if s.interruptsOn then some { s with handlers := .running :: s.handlers } else none
  | .run a =>
    match s.handlers, s.currentTask with
    | h :: rest, _ => handlerStep cfg a h rest s
    | [], some t => taskStep cfg t a s
    | [], none => some (svcHandler cfg false idle s)

/-! ## The invariant -/

/-- __wait_evt reschedules the idle task. -/
def WaitsIdle : Pc n → Prop
  | .clear resched => resched = idle
  | .desched resched => resched = idle
  | _ => True

/-- Where a task is not about to make another one ready. -/
def Pc.Silent : Pc n → Prop
  | .setEvent _ => False
  | .setReady _ => False
  | _ => True

structure Inv (s : Kernel n) : Prop where
  ready : ∀ t, s.events t ≠ 0 → t ∈ s.tasksReady ∨ Setting s t
  current : ∀ t, s.currentTask = some t → t ∈ s.tasksReady
  /-- From the first system call on the idle task is ready. -/
  idleReady : s.currentTask ≠ none → idle ∈ s.tasksReady
  idleEnabled : idle ∈ s.tasksEnabled
  waits : ∀ t, WaitsIdle (s.pc t)
  asserted : s.asserted = false

/-- The current task is the highest of those that are ready and enabled. -/
def Highest (s : Kernel n) : Prop := ∃ t, s.currentTask = some t ∧ (s.tasksReady ∩ s.tasksEnabled).max = t

theorem WaitsIdle.goto (h : ∀ u, WaitsIdle (s.pc u)) (hp : WaitsIdle p) : ∀ u, WaitsIdle ((s.goto t p).pc u) := by
  intro u
  obtain rfl | hu := eq_or_ne u t
  · rw [goto_self]
    exact hp
  · rw [goto_of_ne hu]
    exact h u

/-- What svc_handler needs: whoever has an event is ready, or its event is about to be announced. -/
structure Entry (s : Kernel n) (desched : Bool) (resched : Fin n) : Prop where
  ready : ∀ t, s.events t ≠ 0 → t ∈ s.tasksReady ∨ Setting s t ∨ t = resched
  idleReady : resched = idle ∨ desched = false ∧ idle ∈ s.tasksReady
  idleEnabled : idle ∈ s.tasksEnabled
  waits : ∀ t, WaitsIdle (s.pc t)
  asserted : s.asserted = false

theorem inv_svcHandler {desched : Bool} {resched : Fin n} (h : Entry s desched resched) :
    Inv (svcHandler cfg desched resched s) ∧ Highest (svcHandler cfg desched resched s) := by
  have hidle : idle ∈ insert resched (if desched then s.descheduled else s.tasksReady) := by
    rcases h.idleReady with rfl | ⟨rfl, hready⟩
    · exact Finset.mem_insert_self ..
    · exact Finset.mem_insert_of_mem hready
  have hready : ∀ t, s.events t ≠ 0 →
      t ∈ insert resched (if desched then s.descheduled else s.tasksReady) ∨ Setting s t := by
    intro t hevents
    rcases h.ready t hevents with hmem | hsetting | rfl
    · refine .inl (Finset.mem_insert_of_mem ?_)
      split
      · exact descheduled_sub hevents hmem
      · exact hmem
    · exact .inr hsetting
    · exact .inl (Finset.mem_insert_self ..)
  rw [svcHandler]
  generalize insert resched (if desched then s.descheduled else s.tasksReady) = ready at hidle hready
  split
  · -- the ASSERT: the idle task is always there
    rename_i hnone
    have hmem := Finset.mem_inter.mpr ⟨hidle, h.idleEnabled⟩
    rw [Finset.max_eq_bot.mp hnone] at hmem
    exact absurd hmem (Finset.notMem_empty _)
  · rename_i next hmax
    have hnext : next ∈ ready := (Finset.mem_inter.mp (Finset.mem_of_max hmax)).1
    refine ⟨⟨hready, fun t ht => ?_, fun _ => hidle, h.idleEnabled, h.waits, h.asserted⟩, next, rfl, hmax⟩
    exact Option.some.inj ht ▸ hnext

/-- A step without svc_handler: nobody loses its ready bit, and who gets an event is announced. -/
theorem Inv.quiet (h : Inv s) (hready : ∀ t, t ∈ s.tasksReady → t ∈ s'.tasksReady)
    (hevents : ∀ t, s'.events t ≠ 0 → s.events t ≠ 0 ∨ t ∈ s'.tasksReady ∨ Setting s' t)
    (hsetting : ∀ t, Setting s t → t ∈ s'.tasksReady ∨ Setting s' t) (hcurrent : s'.currentTask = s.currentTask)
    (henabled : idle ∈ s'.tasksEnabled) (hwaits : ∀ t, WaitsIdle (s'.pc t)) (hasserted : s'.asserted = s.asserted) :
    Inv s' where
  ready := by
    intro t ht
    rcases hevents t ht with hold | hnew
    · rcases h.ready t hold with hmem | hset
      · exact .inl (hready t hmem)
      · exact hsetting t hset
    · exact hnew
  current := fun t ht => hready t (h.current t (hcurrent ▸ ht))
  idleReady := fun hsome => hready _ (h.idleReady (hcurrent ▸ hsome))
  idleEnabled := henabled
  waits := hwaits
  asserted := hasserted.trans h.asserted

theorem Inv.frame (h : Inv s) {ready enabled : Finset (Fin n)} {flag on : Bool} (hready : s.tasksReady ⊆ ready)
    (henabled : idle ∈ enabled) :
    Inv { s with tasksReady := ready, tasksEnabled := enabled, needReschedOrProfiling := flag, interruptsOn := on } := by
  refine h.quiet (fun _ hmem => hready hmem) (fun _ hne => .inl hne) (fun _ hset => .inr hset) rfl henabled h.waits rfl

/-- A task goes on, and what it was about to make ready is ready. -/
theorem Inv.goto (h : Inv s) (hp : WaitsIdle p)
    (hpc : ∀ u, s.pc t = .setEvent u ∨ s.pc t = .setReady u → u ∈ s.tasksReady) :
    Inv (s.goto t p) := by
  refine h.quiet (fun _ hmem => hmem) (fun _ hne => .inl hne) (fun u hset => ?_) rfl h.idleEnabled
    (WaitsIdle.goto h.waits hp) rfl
  rcases hset.goto (t := t) (p := p) with hset | hpending
  · exact .inr hset
  · exact .inl (hpc u hpending)

omit [NeZero n] in
theorem Pc.Silent.nobody {q : Pc n} (hsilent : q.Silent) (hpc : s.pc t = q) :
    ¬(s.pc t = .setEvent u ∨ s.pc t = .setReady u) := by
  subst hpc
  rintro (hset | hset) <;> rw [hset] at hsilent <;> exact hsilent

theorem Inv.goto_silent {p₀ : Pc n} (h : Inv s) (hpc : s.pc t = p₀) (hsilent : p₀.Silent) (hp : WaitsIdle p) :
    Inv (s.goto t p) :=
  h.goto hp fun _ hu => absurd hu (hsilent.nobody hpc)

/-! ## Steps keep the invariant -/

/-- The invariant holds after a step, and the current task is the right one if svc_handler ran. -/
def Good (s s' : Kernel n) : Prop := Inv s' ∧ (s'.svcCalls ≠ s.svcCalls → Highest s')

theorem Inv.good (h : Inv s') (hcalls : s'.svcCalls = s.svcCalls) : Good s s' := ⟨h, fun hne => absurd hcalls hne⟩

/-- A task makes its system call. What it was about to make ready is rescheduled. -/
theorem good_svc {desched : Bool} {resched : Fin n} (h : Inv s) (hp : WaitsIdle p)
    (hpc : ∀ u, s.pc t = .setEvent u ∨ s.pc t = .setReady u → u = resched)
    (hidle : resched = idle ∨ desched = false ∧ idle ∈ s.tasksReady) :
    Good s (svcHandler cfg desched resched (s.goto t p)) := by
  have hentry : Entry (s.goto t p) desched resched :=
    { ready := by
        intro u hevents
        rcases h.ready u hevents with hmem | hset
        · exact .inl hmem
        · rcases hset.goto (t := t) (p := p) with hset | hpending
          · exact .inr (.inl hset)
          · exact .inr (.inr (hpc u hpending))
      idleReady := hidle
      idleEnabled := h.idleEnabled
      waits := WaitsIdle.goto h.waits hp
      asserted := h.asserted }
  obtain ⟨hinv, hhighest⟩ := @inv_svcHandler _ cfg _ _ _ _ hentry
  exact ⟨hinv, fun _ => hhighest⟩

theorem inv_setEvents (h : Inv s) (hset : e ≠ 0 → s.events t ≠ 0 ∨ t ∈ s.tasksReady) : Inv (s.setEvents t e) := by
  refine h.quiet (fun _ hmem => hmem) (fun u hne => ?_) (fun _ hset => .inr hset) rfl h.idleEnabled h.waits rfl
  obtain rfl | hu := eq_or_ne u t
  · rw [setEvents_self] at hne
    exact (hset hne).imp id .inl
  · rw [setEvents_of_ne hu] at hne
    exact .inl hne

theorem and_ne_zero {a b : Events} (h : a &&& b ≠ 0) : a ≠ 0 := by
  rintro rfl
  exact h BitVec.zero_and

theorem inv_setEvent {receiver : Fin n} (h : Inv s) (hpc : s.pc t = .running) :
    Inv ((s.setEvents receiver (s.events receiver ||| e)).goto t
      (if s.interruptsOn then .setEvent receiver else .setReady receiver)) := by
  refine h.quiet (fun _ hmem => hmem) (fun u hne => ?_) (fun u hset => ?_) rfl h.idleEnabled ?_ rfl
  · obtain rfl | hu := eq_or_ne u receiver
    · refine .inr (.inr (.inl ⟨t, ?_⟩))
      rw [goto_self]
      split
      · exact .inl rfl
      · exact .inr rfl
    · refine .inl ?_
      have hsame : (s.setEvents receiver (s.events receiver ||| e)).events u = s.events u := setEvents_of_ne hu
      exact hsame ▸ hne
  · have hset' : Setting (s.setEvents receiver (s.events receiver ||| e)) u := hset
    rcases hset'.goto (t := t) (p := if s.interruptsOn then .setEvent receiver
      else .setReady receiver) with hset | hpending
    · exact .inr hset
    · exact absurd hpending (Pc.Silent.nobody (q := .running) trivial hpc)
  · refine WaitsIdle.goto (s := s.setEvents receiver (s.events receiver ||| e)) h.waits ?_
    split <;> exact trivial

theorem good_taskStep {a : Action n} (h : Inv s) (hcurrent : s.currentTask = some t)
    (hstep : taskStep cfg t a s = some s') : Good s s' := by
  have hready := h.current t hcurrent
  have hidle : idle ∈ s.tasksReady := h.idleReady (by rw [hcurrent]; exact Option.some_ne_none t)
  unfold taskStep at hstep
  split at hstep
  case h_1 receiver event hpc =>
    cases hstep
    exact (inv_setEvent h hpc).good rfl
  case h_2 hpc =>
    split at hstep
    · cases hstep
      exact (h.goto_silent (p := .clear idle) hpc trivial rfl).good rfl
    · cases hstep
  case h_3 event hpc =>
    cases hstep
    exact (inv_setEvents h fun _ => .inr hready).good rfl
  case h_4 event hpc =>
    cases hstep
    exact (inv_setEvents h fun hne => .inl (and_ne_zero hne)).good rfl
  case h_5 u hpc =>
    cases hstep
    exact (h.frame (Finset.Subset.refl _) (Finset.mem_insert_of_mem h.idleEnabled)).good rfl
  case h_6 u hpc =>
    split at hstep
    · cases hstep
    · rename_i hu
      cases hstep
      have henabled : Inv { s with tasksEnabled := s.tasksEnabled.erase u } :=
        h.frame (Finset.Subset.refl _) (Finset.mem_erase.mpr ⟨fun heq => hu heq.symm, h.idleEnabled⟩)
      refine (henabled.goto_silent hpc trivial ?_).good rfl
      split <;> exact trivial
  case h_7 hpc =>
    cases hstep
    have henabled : Inv { s with tasksEnabled := Finset.univ } := h.frame (Finset.Subset.refl _) (Finset.mem_univ _)
    exact (henabled.goto_silent (p := .enableAll) hpc trivial trivial).good rfl
  case h_8 hpc =>
    cases hstep
    have hoff : Inv { s with interruptsOn := false } := h.frame (Finset.Subset.refl _) h.idleEnabled
    exact hoff.good rfl
  case h_9 hpc =>
    cases hstep
    have hon : Inv { s with interruptsOn := true } := h.frame (Finset.Subset.refl _) h.idleEnabled
    exact hon.good rfl
  case h_10 resched hpc =>
    have hresched := h.waits t
    rw [hpc] at hresched
    split at hstep
    · cases hstep
      exact (h.goto_silent (p := .desched resched) hpc trivial hresched).good rfl
    · cases hstep
      have hclear : Inv (s.setEvents t 0) := inv_setEvents h fun hne => absurd rfl hne
      exact (hclear.goto_silent (p := .running) hpc trivial trivial).good rfl
  case h_11 resched hpc =>
    have hresched := h.waits t
    rw [hpc] at hresched
    cases hstep
    exact good_svc h rfl (fun u hu => absurd hu (Pc.Silent.nobody (q := .desched resched) trivial hpc)) (.inl hresched)
  case h_12 receiver hpc =>
    cases hstep
    refine good_svc h trivial (fun u hu => ?_) (.inr ⟨rfl, hidle⟩)
    rcases hu with hu | hu
    · cases hpc.symm.trans hu
      rfl
    · cases hpc.symm.trans hu
  case h_13 receiver hpc =>
    cases hstep
    have hinsert : Inv { s with tasksReady := insert receiver s.tasksReady } :=
      h.frame (Finset.subset_insert ..) h.idleEnabled
    refine (hinsert.goto (p := .setFlag) trivial fun u hu => ?_).good rfl
    rcases hu with hu | hu
    · cases hpc.symm.trans hu
    · cases hpc.symm.trans hu
      exact Finset.mem_insert_self ..
  case h_14 hpc =>
    cases hstep
    have hflag : Inv (setFlag cfg s) := h.frame (Finset.Subset.refl _) h.idleEnabled
    exact (hflag.goto_silent (p := .running) hpc trivial trivial).good rfl
  case h_15 hpc =>
    cases hstep
    have hall : Inv { s with tasksReady := Finset.univ } := h.frame (Finset.subset_univ _) h.idleEnabled
    refine (hall.goto ?_ fun u _ => Finset.mem_univ u).good rfl
    split <;> exact trivial
  case h_16 hpc =>
    cases hstep
    exact good_svc h trivial (fun u hu => absurd hu (Pc.Silent.nobody (q := .yield) trivial hpc)) (.inl rfl)
  case h_17 => cases hstep

/-- A handler goes on, and what it was about to make ready is ready. -/
theorem Inv.setHandlers (h : Inv s) {hs : List (Handler n)}
    (hpending : ∀ t, .setReady t ∈ s.handlers → t ∈ s.tasksReady ∨ .setReady t ∈ hs) : Inv { s with handlers := hs } := by
  refine h.quiet (fun _ hmem => hmem) (fun _ hne => .inl hne) (fun t hset => ?_) rfl h.idleEnabled h.waits rfl
  rcases hset with htask | hhandler
  · exact .inr (.inl htask)
  · exact (hpending t hhandler).imp id .inr

theorem good_handlerStep {a : Action n} {handler : Handler n} {rest : List (Handler n)} (h : Inv s)
    (hhandlers : s.handlers = handler :: rest) (hstep : handlerStep cfg a handler rest s = some s') : Good s s' := by
  -- what the other handlers were about to do stays to be done
  have hrest : ∀ {x : Handler n}, (∀ t, handler ≠ .setReady t) → ∀ t, .setReady t ∈ s.handlers →
      t ∈ s.tasksReady ∨ .setReady t ∈ x :: rest := by
    intro x hno t ht
    rw [hhandlers] at ht
    rcases List.mem_cons.mp ht with heq | hmem
    · exact absurd heq.symm (hno t)
    · exact .inr (List.mem_cons_of_mem _ hmem)
  unfold handlerStep at hstep
  split at hstep
  case h_1 receiver event =>
    cases hstep
    refine Inv.good ?_ rfl
    refine h.quiet (fun _ hmem => hmem) (fun u hne => ?_) (fun u hset => ?_) rfl h.idleEnabled h.waits rfl
    · obtain rfl | hu := eq_or_ne u receiver
      · exact .inr (.inr (.inr List.mem_cons_self))
      · have hsame : (s.setEvents receiver (s.events receiver ||| event)).events u = s.events u := setEvents_of_ne hu
        exact .inl (hsame ▸ hne)
    · rcases hset with htask | hhandler
      · exact .inr (.inl htask)
      · exact (hrest (fun t heq => by cases heq) u hhandler).imp id .inr
  case h_2 u =>
    cases hstep
    have henabled : Inv { s with tasksEnabled := insert u s.tasksEnabled } :=
      h.frame (Finset.Subset.refl _) (Finset.mem_insert_of_mem h.idleEnabled)
    exact henabled.good rfl
  case h_3 u =>
    split at hstep
    · cases hstep
    · rename_i hu
      cases hstep
      have henabled : Inv { s with tasksEnabled := s.tasksEnabled.erase u } :=
        h.frame (Finset.Subset.refl _) (Finset.mem_erase.mpr ⟨fun heq => hu heq.symm, h.idleEnabled⟩)
      exact henabled.good rfl
  case h_4 =>
    cases hstep
    exact (h.setHandlers (hrest fun t heq => by cases heq)).good rfl
  case h_5 receiver =>
    cases hstep
    have hinsert : Inv { s with tasksReady := insert receiver s.tasksReady } :=
      h.frame (Finset.subset_insert ..) h.idleEnabled
    refine (@Inv.setHandlers _ _ _ hinsert (.setFlag :: rest) fun t ht => ?_).good rfl
    have ht' : .setReady t ∈ Handler.setReady receiver :: rest := hhandlers ▸ ht
    rcases List.mem_cons.mp ht' with heq | hmem
    · cases heq
      exact .inl (Finset.mem_insert_self ..)
    · exact .inr (List.mem_cons_of_mem _ hmem)
  case h_6 =>
    cases hstep
    have hflag : Inv (setFlag cfg s) := h.frame (Finset.Subset.refl _) h.idleEnabled
    exact (hflag.setHandlers (hrest fun t heq => by cases heq)).good rfl
  case h_7 resched =>
    have hpop : Inv { s with handlers := rest } := by
      refine h.setHandlers fun t ht => ?_
      rw [hhandlers] at ht
      rcases List.mem_cons.mp ht with heq | hmem
      · cases heq
      · exact .inr hmem
    cases hstep
    split
    · obtain ⟨hinv, hhighest⟩ := @inv_svcHandler _ cfg _ _ false idle
        ⟨fun t ht => (hpop.ready t ht).imp id .inl, .inl rfl, hpop.idleEnabled, hpop.waits, hpop.asserted⟩
      exact ⟨hinv, fun _ => hhighest⟩
    · exact hpop.good rfl
  case h_8 => cases hstep

theorem good_step {x : Label n} (h : Inv s) (hstep : step cfg x s = some s') : Good s s' := by
  unfold step at hstep
  split at hstep
  · split at hstep
    · cases hstep
      refine (h.setHandlers fun t ht => .inr (List.mem_cons_of_mem _ ht)).good rfl
    · cases hstep
  · split at hstep
    · rename_i handler rest _ hhandlers
      exact good_handlerStep h hhandlers hstep
    · rename_i t _ hcurrent
      exact good_taskStep h hcurrent hstep
    · cases hstep
      obtain ⟨hinv, hhighest⟩ := @inv_svcHandler _ cfg _ _ false idle
        ⟨fun t ht => (h.ready t ht).imp id .inl, .inl rfl, h.idleEnabled, h.waits, h.asserted⟩
      exact ⟨hinv, fun _ => hhighest⟩

theorem inv_start : Inv (start cfg) where
  ready := fun _ hne => absurd rfl hne
  current := fun _ h => by cases h
  idleReady := fun h => absurd rfl h
  idleEnabled := Finset.mem_insert_of_mem (Finset.mem_singleton_self _)
  waits := fun _ => trivial
  asserted := rfl

theorem inv_run {l : List (Kernel n × Label n)} (h : Run (step cfg) (start cfg) l s) : Inv s :=
  h.holds inv_start fun _ _ _ hinv hstep => (good_step hinv hstep).1

/-- Where a task is blocked in __wait_evt. -/
def Pc.Blocked : Pc n → Prop
  | .clear _ => True
  | .desched _ => True
  | _ => False

/-- A task that waits and has an event is ready, or the task_set_event is between its two updates.
    After svc_handler the current task is the highest of those that are ready and enabled, and there always is one. -/
theorem no_wakeup_lost (cfg : Config n) (l : List (Kernel n × Label n)) (s : Kernel n)
    (h : Run (step cfg) (start cfg) l s) :
    (∀ t, s.events t ≠ 0 → (s.pc t).Blocked → t ∈ s.tasksReady ∨ Setting s t) ∧
      (∀ x s', step cfg x s = some s' → s'.svcCalls ≠ s.svcCalls → Highest s') ∧ s.asserted = false := by
  have hinv := inv_run h
  exact ⟨fun t hne _ => hinv.ready t hne, fun x s' hstep => (good_step hinv hstep).2, hinv.asserted⟩

local instance neZero_two : NeZero 2 := Nat.instNeZeroSucc

/-- The hooks task waits, and an interrupt posts its event when it has found none. -/
def lateEvent : List (Label 2) :=
  [.run .next, .run .wait, .run .next, .interrupt, .run (.setEvent 1 4), .interrupt, .run .next, .run .next]

def build : Config 2 where
  hooks := 1
  profiling := false

theorem no_wakeup_lost_lateEvent : ∃ l s, Run (step build) (start build) l s ∧ l.map Prod.snd = lateEvent ∧
    s.events 1 = 4 ∧ s.pc 1 = .desched 0 ∧ (1 ∈ s.tasksReady ∨ Setting s 1) := by
  have hseen : (trace (step build) lateEvent ([], start build)).any fun r =>
      decide (r.2.events 1 = 4 ∧ r.2.pc 1 = .desched 0) := by decide +kernel
  obtain ⟨l, s, run, hlabels, hevents, hpc⟩ := exists_run hseen
  refine ⟨l, s, run, hlabels, hevents, hpc, ?_⟩
  have hevents' : s.events 1 ≠ 0 := by
    rw [show s.events 1 = 4 from hevents]
    decide
  have hblocked : (s.pc 1).Blocked := by
    rw [show s.pc 1 = .desched 0 from hpc]
    exact trivial
  exact (no_wakeup_lost build l s run).1 1 hevents' hblocked

end ChromeEc.Task.Scheduler
