import Mathlib.Algebra.Group.Int.Defs
import Mathlib.Algebra.Group.Nat.Defs
import Mathlib.Logic.Function.Basic
import ChromeEc.Lib.Alarms

/- Deferred calls and the loop of the hook task, `common/hooks.c`.

  The hook task is cut wherever interrupts are enabled, and between the slots too: inside a step
  nothing else runs. A call of `hook_call_deferred` may come between any two steps, from an
  interrupt, from another task or from the routine or hook that the hook task is just calling, and
  time may pass. A routine is called with its slot cleared, so a call for it from then on is one for
  later. `task_wait_event` may return at any time, so `task_wake`, which makes it return earlier, is
  left out, and so is `hook_task_started`, which only decides whether it is called.

  The clock has 64 bits of microseconds and does not get to their end. A slot holds 0 where nothing is
  pending, so what a call asks for is lost if its deadline is 0, and comes too early if the deadline
  does not fit (`DeadlineFits`).

  Correspondence (C ↔ Lean):
    `__deferred_until` ↔ `St.deferredUntil`
    `last_tick`, `last_second` ↔ the fields of `St`
    where the hook task is ↔ `Pc`, with the `t` and `i` of the loop it is in
    `hook_call_deferred` ↔ `hookCallDeferred`
    a step of `hook_task` ↔ `taskStep`
    the loop that works out how
      long to sleep ↔ `sleepFrom`
  `St.log` notes the calls and the routines called, for the statements. The routines of HOOK_INIT,
  HOOK_TICK and HOOK_SECOND act through calls of `hook_call_deferred` only. -/
namespace ChromeEc.Hooks
open ChromeEc.Lib

def second : Nat := 1000000

/-- DEFERRED_FUNCS_COUNT and HOOK_TICK_INTERVAL. -/
structure Config where
  deferredFuncsCount : Nat
  hookTickInterval : Nat
  tick_pos : 0 < hookTickInterval
  tick_fits : hookTickInterval < 2 ^ 31

/-- Where the hook task is. -/
inductive Pc where
  /-- It has not been started. -/
  | off
  /-- In hook_notify(HOOK_INIT) -/
  | init
  | top
  | scan (t i : Nat)
  | running (t i : Nat)
  | scanned (t : Nat)
  /-- In hook_notify(HOOK_TICK) -/
  | ticking (t : Nat)
  | ticked (t : Nat)
  /-- In hook_notify(HOOK_SECOND) -/
  | seconding (t : Nat)
  /-- The time is read anew. -/
  | plan
  /-- `next` is worked out from the next tick. -/
  | planned (t : Nat) (next : Int)
  /-- In task_wait_event(next) -/
  | waiting (next : Int)
  deriving DecidableEq

structure St where
  now : Nat
  deferredUntil : Nat → Nat
  lastTick : Nat
  lastSecond : Nat
  pc : Pc
  log : List (Alarms.Event Nat)

def sub64 (a b : Nat) : Nat := (a + 2 ^ 64 - b) % 2 ^ 64

def add64 (a b : Nat) : Nat := (a + b) % 2 ^ 64

/-- The conversion of 64 bits to an `int`. -/
def toInt (x : Nat) : Int := ((x : Int) + 2 ^ 31) % 2 ^ 32 - 2 ^ 31

/-- Before the hook task is started, with the clock at `now`. -/
def St.initial (c : Config) (now : Nat) : St where
  now := now
  deferredUntil := fun _ => 0
  lastTick := sub64 0 c.hookTickInterval
  lastSecond := sub64 0 second
  pc := .off
  log := []

inductive Rv where
  | success
  | inval
  deriving DecidableEq

def hookCallDeferred (c : Config) (i : Nat) (us : Int) (s : St) : St × Rv :=
  if c.deferredFuncsCount ≤ i then
    -- Routine not registered
    (s, .inval)
  else if us = -1 then
    ({ s with deferredUntil := Function.update s.deferredUntil i 0, log := .cancel i :: s.log }, .success)
  else
    ({ s with
        deferredUntil := Function.update s.deferredUntil i ((s.now + us) % 2 ^ 64).toNat
        log := .set i (s.now + us) :: s.log },
      .success)

/-- The loop over the slots from `i` on, of which `k` are left. -/
def sleepFrom (deferredUntil : Nat → Nat) (t : Nat) : Nat → Nat → Int → Int
  | 0, _, next => next
  | k + 1, i, next =>
    if next ≤ 0 then next
    else
      sleepFrom deferredUntil t k (i + 1)
        (if deferredUntil i = 0 then next
        else if deferredUntil i < t then 0
        else if ((deferredUntil i - t : Nat) : Int) < next then ((deferredUntil i - t : Nat) : Int)
        else next)

/-- How long the hook task sleeps, if `next` is the time to the next tick. -/
def sleepTime (c : Config) (s : St) (t : Nat) (next : Int) : Int :=
  sleepFrom s.deferredUntil t c.deferredFuncsCount 0 next

def tickTime (c : Config) (s : St) (t : Nat) : Int :=
  if t < add64 s.lastTick c.hookTickInterval then toInt (sub64 (add64 s.lastTick c.hookTickInterval) t) else 0

def taskStep (c : Config) (s : St) : St :=
  match s.pc with
  | .off => { s with pc := .init }
  | .init => { s with pc := .top }
  | .top => { s with pc := .scan s.now 0 }
  | .scan t i =>
    if c.deferredFuncsCount ≤ i then { s with pc := .scanned t }
    else if s.deferredUntil i ≠ 0 ∧ s.deferredUntil i < t then
      -- Clear timer first, so it can request itself be called later.
      { s with
        deferredUntil := Function.update s.deferredUntil i 0
        pc := .running t i
        log := .ring i s.now :: s.log }
    else { s with pc := .scan t (i + 1) }
  | .running t i => { s with pc := .scan t (i + 1) }
  | .scanned t =>
    if c.hookTickInterval ≤ sub64 t s.lastTick then { s with pc := .ticking t } else { s with pc := .ticked t }
  | .ticking t => { s with lastTick := t, pc := .ticked t }
  | .ticked t => if second ≤ sub64 t s.lastSecond then { s with pc := .seconding t } else { s with pc := .plan }
  | .seconding t => { s with lastSecond := t, pc := .plan }
  | .plan => { s with pc := .planned s.now (tickTime c s s.now) }
  | .planned t next =>
    if 0 < sleepTime c s t next then { s with pc := .waiting (sleepTime c s t next) } else { s with pc := .top }
  | .waiting _ => { s with pc := .top }

inductive Action where
  | pass (us : Nat)
  | call (i : Nat) (us : Int)
  | task
  deriving DecidableEq

def step (c : Config) (s : St) : Action → St
  | .pass us => if s.now + us < 2 ^ 64 then { s with now := s.now + us } else s
  | .call i us => (hookCallDeferred c i us s).1
  | .task => taskStep c s

def run (c : Config) : St → List Action → St := List.foldl (step c)

/-- A call asks for a delay, or cancels. -/
def Action.Asks : Action → Prop
  | .call _ us => -1 ≤ us
  | _ => True

/-- The deadline of a call is not 0 and fits into 64 bits. -/
def DeadlineFits (c : Config) (s : St) : Action → Prop
  | .call i us => i < c.deferredFuncsCount → us ≠ -1 → 0 < s.now + us ∧ s.now + us < 2 ^ 64
  | _ => True

def AllFit (c : Config) : St → List Action → Prop
  | _, [] => True
  | s, a :: rest => DeadlineFits c s a ∧ AllFit c (step c s a) rest

structure Served (c : Config) (s : St) : Prop where
  /-- A routine is called only for the last call for it, which no call has cancelled and for which it was
      not called yet, and not before the deadline. -/
  inOrder : Alarms.InOrder s.log
  /-- Every scheduling has led to one call, was superseded or cancelled, or is pending. -/
  once : ∀ i, Alarms.sets i s.log = Alarms.rings i s.log + Alarms.dropped i s.log + (Alarms.pending i s.log).toList.length
  /-- Behind the loop over the routines no deadline before its time is pending. -/
  caughtUp : ∀ t, s.pc = .scanned t → ∀ i d, Alarms.pending i s.log = some d → t ≤ d
  /-- The sleep ends before the earliest deadline and the next tick. -/
  sleep : ∀ t next, s.pc = .planned t next → 0 < sleepTime c s t next →
    (∀ i d, Alarms.pending i s.log = some d → t + sleepTime c s t next ≤ d) ∧
      s.lastTick ≤ t ∧ t + sleepTime c s t next ≤ s.lastTick + c.hookTickInterval

section

open Alarms (pending)

variable {c : Config} {s : St} {a : Action}

/-- Of the slots below k none has a deadline before t. -/
def Passed (s : St) (t k : Nat) : Prop := ∀ j < k, ∀ d, pending j s.log = some d → t ≤ d

/-- What is known where the hook task is. -/
def At (c : Config) (s : St) : Pc → Prop
  | .scan t i => t ≤ s.now ∧ Passed s t i
  | .running t i => t ≤ s.now ∧ i < c.deferredFuncsCount ∧ Passed s t (i + 1)
  | .scanned t => t ≤ s.now ∧ Passed s t c.deferredFuncsCount
  | .ticking t => t ≤ s.now
  | .planned t next => t ≤ s.now ∧ (0 < next → s.lastTick ≤ t ∧ t + next ≤ s.lastTick + c.hookTickInterval)
  | _ => True

/-- A slot holds the deadline that is pending. -/
def Slot (s : St) (i : Nat) : Prop :=
  match pending i s.log with
  | none => s.deferredUntil i = 0
  | some d => s.deferredUntil i = d ∧ 0 < d

structure Inv (c : Config) (s : St) : Prop where
  clock : s.now < 2 ^ 64
  slots : ∀ i < c.deferredFuncsCount, Slot s i
  unregistered : ∀ i, c.deferredFuncsCount ≤ i → pending i s.log = none
  inOrder : Alarms.InOrder s.log
  tick : s.lastTick ≤ s.now ∨ s.lastTick = sub64 0 c.hookTickInterval
  place : At c s s.pc

theorem slot_of_none {i : Nat} (h : pending i s.log = none) : Slot s i ↔ s.deferredUntil i = 0 := by rw [Slot, h]

theorem slot_of_some {i : Nat} {d : Int} (h : pending i s.log = some d) : Slot s i ↔ s.deferredUntil i = d ∧ 0 < d := by
  rw [Slot, h]

theorem inv_initial (c : Config) {now : Nat} (hnow : now < 2 ^ 64) : Inv c (St.initial c now) where
  clock := hnow
  slots _ _ := rfl
  unregistered _ _ := rfl
  inOrder := trivial
  tick := .inr rfl
  place := trivial

/-- Time passes and calls are made, but no slot already passed gets a deadline before the loop's time. -/
theorem At.mono {s' : St} {p : Pc} (h : At c s p) (hnow : s.now ≤ s'.now) (htick : s'.lastTick = s.lastTick)
    (hpassed : ∀ t k, t ≤ s.now → Passed s t k → Passed s' t k) : At c s' p := by
  cases p with
  | scan t i => exact ⟨Nat.le_trans h.1 hnow, hpassed t i h.1 h.2⟩
  | running t i => exact ⟨Nat.le_trans h.1 hnow, h.2.1, hpassed t (i + 1) h.1 h.2.2⟩
  | scanned t => exact ⟨Nat.le_trans h.1 hnow, hpassed t c.deferredFuncsCount h.1 h.2⟩
  | ticking t => exact Nat.le_trans h hnow
  | planned t next => exact ⟨Nat.le_trans h.1 hnow, by rw [htick]; exact h.2⟩
  | _ => trivial

theorem Inv.pass (h : Inv c s) (us : Nat) : Inv c (step c s (.pass us)) := by
  simp only [step]
  split
  · next hfits =>
    exact ⟨hfits, h.slots, h.unregistered, h.inOrder, h.tick.imp_left fun hle => Nat.le_add_right_of_le hle,
      h.place.mono (Nat.le_add_right ..) rfl fun _ _ _ hpassed => hpassed⟩
  · exact h

theorem Inv.call {i : Nat} {us : Int} (h : Inv c s) (hasks : -1 ≤ us) (hfits : DeadlineFits c s (.call i us)) :
    Inv c (step c s (.call i us)) := by
  simp only [step, hookCallDeferred]
  split
  · exact h
  next hi =>
  have hi := Nat.lt_of_not_le hi
  split
  · refine ⟨h.clock, fun j hj => ?_, fun j hj => ?_, h.inOrder, h.tick, h.place.mono (Nat.le_refl _) rfl ?_⟩
    · by_cases hij : i = j
      · subst hij
        simp [Slot, Alarms.pending]
      · have hslot := h.slots j hj
        simpa [Slot, Alarms.pending, hij, Function.update_of_ne (Ne.symm hij)] using hslot
    · rw [Alarms.pending_cancel, if_neg (by omega)]
      exact h.unregistered j hj
    · intro t k hle hpassed j hj d hd
      rw [Alarms.pending_cancel] at hd
      split at hd
      · cases hd
      · exact hpassed j hj d hd
  · next hus =>
    obtain ⟨hpos, hlt⟩ := hfits hi hus
    refine ⟨h.clock, fun j hj => ?_, fun j hj => ?_, h.inOrder, h.tick, h.place.mono (Nat.le_refl _) rfl ?_⟩
    · by_cases hij : i = j
      · subst hij
        have hmod : (((s.now + us) % 2 ^ 64).toNat : Int) = s.now + us := by
          rw [Int.emod_eq_of_lt (by omega) hlt, Int.toNat_of_nonneg (by omega)]
        have hd : pending i (.set i (s.now + us) :: s.log) = some (s.now + us) := if_pos rfl
        refine (slot_of_some hd).mpr ⟨?_, hpos⟩
        simpa using hmod
      · have hslot := h.slots j hj
        simpa [Slot, Alarms.pending, hij, Function.update_of_ne (Ne.symm hij)] using hslot
    · rw [Alarms.pending_set, if_neg (by omega)]
      exact h.unregistered j hj
    · intro t k hle hpassed j hj d hd
      rw [Alarms.pending_set] at hd
      split at hd
      · cases hd
        omega
      · exact hpassed j hj d hd

/-! ## The hook task -/

/-- A step that changes neither the slots nor the log nor the last tick. -/
theorem Inv.moved (h : Inv c s) {p : Pc} (hplace : At c { s with pc := p } p) : Inv c { s with pc := p } :=
  ⟨h.clock, h.slots, h.unregistered, h.inOrder, h.tick, hplace⟩

theorem Inv.scanStep {t i : Nat} (h : Inv c s) (hpc : s.pc = .scan t i) : Inv c (taskStep c s) := by
  obtain ⟨hle, hpassed⟩ : t ≤ s.now ∧ Passed s t i := by
    have hplace := h.place
    rwa [hpc] at hplace
  simp only [taskStep, hpc]
  split
  · next hend => exact h.moved ⟨hle, fun j hj => hpassed j (Nat.lt_of_lt_of_le hj hend)⟩
  next hi =>
  have hi := Nat.lt_of_not_le hi
  have hslot := h.slots i hi
  split
  · next hdue =>
    -- the slot is due: its deadline is pending and before the time of the loop
    obtain ⟨d, hd⟩ : ∃ d, pending i s.log = some d := by
      refine Option.ne_none_iff_exists'.mp fun hnone => ?_
      exact hdue.1 ((slot_of_none hnone).mp hslot)
    have hdeadline := (slot_of_some hd).mp hslot
    refine ⟨h.clock, fun j hj => ?_, fun j hj => ?_, ⟨⟨d, hd, by omega⟩, h.inOrder⟩, h.tick, hle, hi, ?_⟩
    · by_cases hij : i = j
      · subst hij
        simp [Slot, Alarms.pending]
      · have hother := h.slots j hj
        simpa [Slot, Alarms.pending, hij, Function.update_of_ne (Ne.symm hij)] using hother
    · rw [Alarms.pending_ring, if_neg (by omega)]
      exact h.unregistered j hj
    · intro j hj d' hd'
      rw [Alarms.pending_ring] at hd'
      split at hd'
      · cases hd'
      · exact hpassed j (by omega) d' hd'
  · next hnot =>
    refine h.moved ⟨hle, fun j hj d hd => ?_⟩
    obtain hlt | rfl : j < i ∨ j = i := by omega
    · exact hpassed j hlt d hd
    · have hdeadline := (slot_of_some (s := s) hd).mp hslot
      omega

theorem tickTime_le {t : Nat} (hclock : t < 2 ^ 64) (htick : s.lastTick ≤ t ∨ s.lastTick = sub64 0 c.hookTickInterval)
    (hpos : 0 < tickTime c s t) : s.lastTick ≤ t ∧ t + tickTime c s t ≤ s.lastTick + c.hookTickInterval := by
  have hfits := c.tick_fits
  have htpos := c.tick_pos
  unfold tickTime at hpos ⊢
  split at hpos
  · next hlt =>
    rw [if_pos hlt]
    simp only [add64, sub64, toInt] at hlt htick hpos ⊢
    omega
  · exact absurd hpos (Int.lt_irrefl 0)

theorem Inv.taskStep (h : Inv c s) : Inv c (taskStep c s) := by
  have hplace := h.place
  cases hpc : s.pc with
  | scan t i => exact h.scanStep hpc
  | off =>
    simp only [Hooks.taskStep, hpc]
    exact h.moved trivial
  | init =>
    simp only [Hooks.taskStep, hpc]
    exact h.moved trivial
  | top =>
    simp only [Hooks.taskStep, hpc]
    exact h.moved ⟨Nat.le_refl _, fun j hj => absurd hj (Nat.not_lt_zero j)⟩
  | running t i =>
    rw [hpc] at hplace
    simp only [Hooks.taskStep, hpc]
    exact h.moved ⟨hplace.1, hplace.2.2⟩
  | scanned t =>
    rw [hpc] at hplace
    simp only [Hooks.taskStep, hpc]
    split
    · exact h.moved hplace.1
    · exact h.moved trivial
  | ticking t =>
    rw [hpc] at hplace
    simp only [Hooks.taskStep, hpc]
    exact ⟨h.clock, h.slots, h.unregistered, h.inOrder, .inl hplace, trivial⟩
  | ticked t =>
    simp only [Hooks.taskStep, hpc]
    split
    · exact h.moved trivial
    · exact h.moved trivial
  | seconding t =>
    simp only [Hooks.taskStep, hpc]
    exact ⟨h.clock, h.slots, h.unregistered, h.inOrder, h.tick, trivial⟩
  | plan =>
    simp only [Hooks.taskStep, hpc]
    exact h.moved ⟨Nat.le_refl _, tickTime_le h.clock h.tick⟩
  | planned t next =>
    simp only [Hooks.taskStep, hpc]
    split
    · exact h.moved trivial
    · exact h.moved trivial
  | waiting next =>
    simp only [Hooks.taskStep, hpc]
    exact h.moved trivial

theorem Inv.next (h : Inv c s) (hasks : a.Asks) (hfits : DeadlineFits c s a) : Inv c (step c s a) := by
  cases a with
  | pass us => exact h.pass us
  | call i us => exact h.call hasks hfits
  | task => exact h.taskStep

theorem Inv.after {script : List Action} (h : Inv c s) (hasks : ∀ a ∈ script, a.Asks) (hfits : AllFit c s script) :
    Inv c (run c s script) := by
  induction script generalizing s with
  | nil => exact h
  | cons a rest ih =>
    have hnext := h.next (hasks a (List.mem_cons_self ..)) hfits.1
    exact ih hnext (fun b hb => hasks b (List.mem_cons_of_mem a hb)) hfits.2

/-- The sleep is not longer than the time to the next tick or to a deadline. -/
theorem sleepFrom_spec (u : Nat → Nat) (t k i : Nat) (next : Int) :
    sleepFrom u t k i next ≤ next ∧
      (0 < sleepFrom u t k i next → ∀ j, i ≤ j → j < i + k → u j = 0 ∨ t + sleepFrom u t k i next ≤ u j) := by
  induction k generalizing i next with
  | zero => exact ⟨Int.le_refl _, fun _ j h0 h1 => absurd h0 (by omega)⟩
  | succ k ih =>
    rw [sleepFrom]
    split
    · next hend => exact ⟨Int.le_refl _, fun hpos => absurd hpos (by omega)⟩
    generalize hv : (if u i = 0 then next else if u i < t then 0
      else if ((u i - t : Nat) : Int) < next then ((u i - t : Nat) : Int) else next) = v
    obtain ⟨hle, hrest⟩ := ih (i + 1) v
    have hslot : v ≤ next ∧ (u i = 0 ∨ v ≤ 0 ∨ t + v ≤ u i) := by
      subst hv
      split_ifs <;> omega
    refine ⟨by omega, fun hpos j h0 h1 => ?_⟩
    obtain rfl | hlt : i = j ∨ i + 1 ≤ j := by omega
    · obtain hzero | hlow | hdeadline := hslot.2
      · exact .inl hzero
      · omega
      · exact .inr (by omega)
    · exact hrest hpos j hlt (by omega)

theorem Inv.served (h : Inv c s) : Served c s where
  inOrder := h.inOrder
  once := h.inOrder.conserved
  caughtUp t hpc i d hd := by
    have hplace := h.place
    rw [hpc] at hplace
    by_cases hi : i < c.deferredFuncsCount
    · exact hplace.2 i hi d hd
    · rw [h.unregistered i (Nat.le_of_not_lt hi)] at hd
      cases hd
  sleep t next hpc hpos := by
    have hplace := h.place
    rw [hpc] at hplace
    obtain ⟨hle, hslots⟩ := sleepFrom_spec s.deferredUntil t c.deferredFuncsCount 0 next
    change sleepTime c s t next ≤ next at hle
    obtain ⟨htick, hend⟩ := hplace.2 (by omega)
    refine ⟨fun i d hd => ?_, htick, by omega⟩
    by_cases hi : i < c.deferredFuncsCount
    · have hdeadline := (slot_of_some hd).mp (h.slots i hi)
      obtain hzero | hsleep := hslots hpos i (Nat.zero_le i) (by omega)
      · omega
      · rw [← hdeadline.1]
        exact hsleep
    · rw [h.unregistered i (Nat.le_of_not_lt hi)] at hd
      cases hd

/-! ## The loop comes round -/

def taskSteps (script : List Action) : Nat := script.count .task

/-- Two turns of the loop never take more steps than this. -/
def twoTurns (c : Config) : Nat := 4 * c.deferredFuncsCount + 10

theorem run_append (c : Config) (s : St) (front back : List Action) :
    run c s (front ++ back) = run c (run c s front) back := List.foldl_append

/-- What the hook task counts down to 0 gets there if the hook task takes enough steps. -/
theorem run_until {P : St → Prop} {m : St → Nat} (hother : ∀ s a, a ≠ .task → P s → P (step c s a) ∧ m (step c s a) = m s)
    (htask : ∀ s, P s → 0 < m s → P (taskStep c s) ∧ m (taskStep c s) < m s) {script : List Action} (hP : P s)
    (henough : m s ≤ taskSteps script) :
    ∃ front back, script = front ++ back ∧ P (run c s front) ∧ m (run c s front) = 0 ∧
      taskSteps script ≤ taskSteps back + m s := by
  induction script generalizing s with
  | nil => exact ⟨[], [], rfl, hP, Nat.le_zero.mp henough, by omega⟩
  | cons a rest ih =>
    by_cases hzero : m s = 0
    · exact ⟨[], a :: rest, rfl, hP, hzero, by omega⟩
    by_cases ha : a = .task
    · subst ha
      have hcount : taskSteps (.task :: rest) = taskSteps rest + 1 := List.count_cons_self
      obtain ⟨hnext, hless⟩ := htask s hP (Nat.pos_of_ne_zero hzero)
      obtain ⟨front, back, rfl, hrest⟩ := ih (s := taskStep c s) hnext (by omega)
      exact ⟨.task :: front, back, rfl, hrest.1, hrest.2.1, by omega⟩
    · have hcount : taskSteps (a :: rest) = taskSteps rest := List.count_cons_of_ne ha
      obtain ⟨hnext, hsame⟩ := hother s a ha hP
      obtain ⟨front, back, rfl, hrest⟩ := ih (s := step c s a) hnext (by omega)
      exact ⟨a :: front, back, rfl, hrest.1, hrest.2.1, by omega⟩

theorem step_pc (s : St) (ha : a ≠ .task) : (step c s a).pc = s.pc := by
  cases a with
  | pass us =>
    simp only [step]
    split <;> rfl
  | call i us =>
    simp only [step, hookCallDeferred]
    split_ifs <;> rfl
  | task => exact absurd rfl ha

theorem taskStep_log (c : Config) (s : St) :
    (taskStep c s).now = s.now ∧ ∃ new, (taskStep c s).log = new ++ s.log := by
  cases hpc : s.pc with
  | scan t i =>
    simp only [taskStep, hpc]
    split_ifs
    · exact ⟨rfl, [], rfl⟩
    · exact ⟨rfl, [_], rfl⟩
    · exact ⟨rfl, [], rfl⟩
  | scanned t =>
    simp only [taskStep, hpc]
    split_ifs <;> exact ⟨rfl, [], rfl⟩
  | ticked t =>
    simp only [taskStep, hpc]
    split_ifs <;> exact ⟨rfl, [], rfl⟩
  | planned t next =>
    simp only [taskStep, hpc]
    split_ifs <;> exact ⟨rfl, [], rfl⟩
  | _ =>
    simp only [taskStep, hpc]
    exact ⟨trivial, [], rfl⟩

theorem step_log (c : Config) (s : St) (a : Action) :
    s.now ≤ (step c s a).now ∧ ∃ new, (step c s a).log = new ++ s.log := by
  cases a with
  | pass us =>
    simp only [step]
    split
    · exact ⟨Nat.le_add_right .., [], rfl⟩
    · exact ⟨Nat.le_refl _, [], rfl⟩
  | call i us =>
    simp only [step, hookCallDeferred]
    split_ifs
    · exact ⟨Nat.le_refl _, [], rfl⟩
    · exact ⟨Nat.le_refl _, [_], rfl⟩
    · exact ⟨Nat.le_refl _, [_], rfl⟩
  | task => exact (taskStep_log c s).imp_left fun h => Nat.le_of_eq h.symm

theorem run_log (c : Config) (s : St) (script : List Action) :
    s.now ≤ (run c s script).now ∧ ∃ new, (run c s script).log = new ++ s.log := by
  induction script generalizing s with
  | nil => exact ⟨Nat.le_refl _, [], rfl⟩
  | cons a rest ih =>
    obtain ⟨hnow, new, hnew⟩ := step_log c s a
    obtain ⟨hlater, later, hlog⟩ := ih (step c s a)
    refine ⟨Nat.le_trans hnow hlater, later ++ new, ?_⟩
    rw [List.append_assoc, ← hnew]
    exact hlog

def toTop (c : Config) : Pc → Nat
  | .off => 2
  | .init => 1
  | .top => 0
  | .scan _ i => 2 * (c.deferredFuncsCount - i) + 8
  | .running _ i => 2 * (c.deferredFuncsCount - i) + 7
  | .scanned _ => 7
  | .ticking _ => 6
  | .ticked _ => 5
  | .seconding _ => 4
  | .plan => 3
  | .planned _ _ => 2
  | .waiting _ => 1

/-- A routine is only called from a slot. -/
def Runs (c : Config) : Pc → Prop
  | .running _ i => i < c.deferredFuncsCount
  | _ => True

theorem taskStep_toTop (h : Runs c s.pc) (hpos : 0 < toTop c s.pc) :
    Runs c (taskStep c s).pc ∧ toTop c (taskStep c s).pc < toTop c s.pc := by
  cases hpc : s.pc with
  | top => rw [hpc] at hpos; exact absurd hpos (Nat.lt_irrefl 0)
  | running t i =>
    rw [hpc] at h
    have hi : i < c.deferredFuncsCount := h
    simp only [taskStep, hpc, toTop]
    exact ⟨trivial, by omega⟩
  | scan t i =>
    simp only [taskStep, hpc]
    split_ifs with hend hdue
    · exact ⟨trivial, by simp only [toTop]; omega⟩
    · exact ⟨Nat.lt_of_not_le hend, by simp only [toTop]; omega⟩
    · exact ⟨trivial, by simp only [toTop]; omega⟩
  | scanned t =>
    simp only [taskStep, hpc]
    split_ifs <;> exact ⟨trivial, by simp only [toTop]; omega⟩
  | ticked t =>
    simp only [taskStep, hpc]
    split_ifs <;> exact ⟨trivial, by simp only [toTop]; omega⟩
  | planned t next =>
    simp only [taskStep, hpc]
    split_ifs <;> exact ⟨trivial, by simp only [toTop]; omega⟩
  | _ =>
    simp only [taskStep, hpc]
    exact ⟨trivial, by simp only [toTop]; omega⟩

theorem reaches_top {script : List Action} (h : Runs c s.pc) (henough : toTop c s.pc ≤ taskSteps script) :
    ∃ front back, script = front ++ back ∧
      (run c s front).pc = .top ∧ taskSteps script ≤ taskSteps back + toTop c s.pc := by
  obtain ⟨front, back, hsplit, -, hzero, hcount⟩ :=
    run_until (c := c) (P := fun s => Runs c s.pc) (m := fun s => toTop c s.pc)
      (fun s a ha hruns => by
        rw [step_pc s ha]
        exact ⟨hruns, rfl⟩)
      (fun s hruns hpos => taskStep_toTop hruns hpos) h henough
  refine ⟨front, back, hsplit, ?_, hcount⟩
  cases hpc : (run c s front).pc with
  | top => rfl
  | _ => simp [hpc, toTop] at hzero

/-- On the way from the start of the loop to the end of the loop over the routines, with a time read not before
    t₀; and the number of steps left. -/
def Scanning (c : Config) (t₀ : Nat) (s : St) : Prop :=
  t₀ ≤ s.now ∧
    match s.pc with
    | .top => True
    | .scan t _ => t₀ ≤ t
    | .running t i => t₀ ≤ t ∧ i < c.deferredFuncsCount
    | .scanned t => t₀ ≤ t
    | _ => False

def toScanned (c : Config) : Pc → Nat
  | .top => 2 * c.deferredFuncsCount + 2
  | .scan _ i => 2 * (c.deferredFuncsCount - i) + 1
  | .running _ i => 2 * (c.deferredFuncsCount - i)
  | _ => 0

theorem taskStep_toScanned {t₀ : Nat} (h : Scanning c t₀ s) (hpos : 0 < toScanned c s.pc) :
    Scanning c t₀ (taskStep c s) ∧ toScanned c (taskStep c s).pc < toScanned c s.pc := by
  obtain ⟨hnow, hplace⟩ := h
  cases hpc : s.pc with
  | top =>
    simp only [Scanning, taskStep, hpc, toScanned]
    exact ⟨⟨hnow, hnow⟩, by omega⟩
  | running t i =>
    rw [hpc] at hplace
    obtain ⟨hle, hi⟩ : t₀ ≤ t ∧ i < c.deferredFuncsCount := hplace
    simp only [Scanning, taskStep, hpc, toScanned]
    exact ⟨⟨hnow, hle⟩, by omega⟩
  | scan t i =>
    rw [hpc] at hplace
    simp only [taskStep, hpc]
    split_ifs with hend hdue
    · exact ⟨⟨hnow, hplace⟩, by simp only [toScanned]; omega⟩
    · exact ⟨⟨hnow, hplace, Nat.lt_of_not_le hend⟩, by simp only [toScanned]; omega⟩
    · exact ⟨⟨hnow, hplace⟩, by simp only [toScanned]; omega⟩
  | _ => simp [hpc, toScanned] at hpos

/-- The hook task gets from the start of the loop behind the loop over the routines. -/
theorem reaches_scanned {script : List Action} (htop : s.pc = .top)
    (henough : 2 * c.deferredFuncsCount + 2 ≤ taskSteps script) :
    ∃ front back t, script = front ++ back ∧ (run c s front).pc = .scanned t ∧ s.now ≤ t := by
  have hstart : Scanning c s.now s := ⟨Nat.le_refl _, by rw [htop]; trivial⟩
  have hsteps : toScanned c s.pc ≤ taskSteps script := by
    rw [htop]
    exact henough
  obtain ⟨front, back, hsplit, hscanning, hzero, -⟩ :=
    run_until (c := c) (P := Scanning c s.now) (m := fun s => toScanned c s.pc)
      (fun s' a ha hscanning => by
        have hnow := (step_log c s' a).1
        simp only [Scanning, step_pc s' ha] at hscanning ⊢
        exact ⟨⟨Nat.le_trans hscanning.1 hnow, hscanning.2⟩, trivial⟩)
      (fun s' hscanning hpos => taskStep_toScanned hscanning hpos) hstart hsteps
  obtain ⟨-, hplace⟩ := hscanning
  cases hpc : (run c s front).pc with
  | scanned t =>
    rw [hpc] at hplace
    exact ⟨front, back, t, hsplit, hpc, hplace⟩
  | running t i =>
    rw [hpc] at hplace hzero
    simp only [toScanned] at hzero
    omega
  | top => simp [hpc, toScanned] at hzero
  | scan t i => simp [hpc, toScanned] at hzero
  | _ => simp [hpc] at hplace

theorem Inv.runs (h : Inv c s) : Runs c s.pc := by
  have hplace := h.place
  cases hpc : s.pc with
  | running t i =>
    rw [hpc] at hplace
    exact hplace.2.1
  | _ => trivial

theorem toTop_le (c : Config) (p : Pc) : toTop c p ≤ 2 * c.deferredFuncsCount + 8 := by
  cases p <;> simp only [toTop] <;> omega

theorem allFit_append {front back : List Action} :
    AllFit c s (front ++ back) ↔ AllFit c s front ∧ AllFit c (run c s front) back := by
  induction front generalizing s with
  | nil => exact (iff_of_eq (true_and _)).symm
  | cons a rest ih =>
    rw [List.cons_append, AllFit, AllFit, ih, and_assoc]
    rfl

/-- A routine that is due is called within two turns of the loop, unless a call for it comes before. -/
theorem Inv.comes {script : List Action} {i : Nat} {d : Int} (h : Inv c s) (hasks : ∀ a ∈ script, a.Asks)
    (hfits : AllFit c s script) (henough : twoTurns c ≤ taskSteps script) (hd : pending i s.log = some d)
    (hdue : d < s.now) : ∃ new, (run c s script).log = new ++ s.log ∧ ∃ e ∈ new, e.key = i := by
  have hlimit := toTop_le c s.pc
  unfold twoTurns at henough
  have hfirst : toTop c s.pc ≤ taskSteps script := by omega
  obtain ⟨front, back, hfront, htop, hcount⟩ := reaches_top h.runs hfirst
  have hsecond : 2 * c.deferredFuncsCount + 2 ≤ taskSteps back := by omega
  obtain ⟨turn, rest, t, hturn, hscanned, hle⟩ := reaches_scanned htop hsecond
  have hsplit : script = (front ++ turn) ++ rest := by rw [hfront, hturn, List.append_assoc]
  rw [hsplit] at hasks hfits ⊢
  rw [← run_append] at hscanned
  have hthere : Inv c (run c s (front ++ turn)) :=
    h.after (fun a ha => hasks a (List.mem_append_left _ ha)) (allFit_append.mp hfits).1
  obtain ⟨-, new, hnew⟩ := run_log c s (front ++ turn)
  obtain ⟨-, later, hlater⟩ := run_log c (run c s (front ++ turn)) rest
  -- behind the loop the deadline cannot be pending any more, so something has come for the routine
  have hsome : ∃ e ∈ new, e.key = i := by
    refine Classical.not_not.mp fun hnone => ?_
    have hstill : pending i (run c s (front ++ turn)).log = some d := by
      rw [hnew, Alarms.pending_append fun e he heq => hnone ⟨e, he, heq⟩]
      exact hd
    have hlate := hthere.served.caughtUp t hscanned i d hstill
    have hnow := (run_log c s front).1
    omega
  obtain ⟨e, he, hkey⟩ := hsome
  refine ⟨later ++ new, ?_, e, List.mem_append_right later he, hkey⟩
  rw [run_append, hlater, hnew, List.append_assoc]

end

/-- Deferred calls in every run in which every deadline fits: each scheduling leads to one call, not before its
    deadline, unless it is superseded or cancelled before; the hook task does not oversleep; and what is due is called
    within two turns of its loop. -/
theorem deferred_calls_served (c : Config) {now : Nat} (hnow : now < 2 ^ 64) {script : List Action}
    (hasks : ∀ a ∈ script, a.Asks) (hfits : AllFit c (St.initial c now) script) :
    Served c (run c (St.initial c now) script) ∧
      ∀ more : List Action, (∀ a ∈ more, a.Asks) → AllFit c (run c (St.initial c now) script) more →
        twoTurns c ≤ taskSteps more → ∀ i d, Alarms.pending i (run c (St.initial c now) script).log = some d →
        d < (run c (St.initial c now) script).now →
        ∃ new, (run c (St.initial c now) (script ++ more)).log = new ++ (run c (St.initial c now) script).log ∧
          ∃ e ∈ new, e.key = i := by
  have hinv := (inv_initial c hnow).after hasks hfits
  refine ⟨hinv.served, fun more hmore hmoreFits henough i d hd hdue => ?_⟩
  rw [run_append]
  exact hinv.comes hmore hmoreFits henough hd hdue

def twoRoutines : Config where
  deferredFuncsCount := 2
  hookTickInterval := 250000
  tick_pos := by decide
  tick_fits := by decide

/-- The first routine is asked for 100 µs later and asks for itself again while it runs, the second one is cancelled. -/
def askingAgain : List Action :=
  [.task, .task, .call 0 100, .call 1 50, .pass 10, .call 1 (-1), .pass 200, .task, .task, .call 0 0, .task, .task, .task]

theorem deferred_calls_served_askingAgain :
    (∀ a ∈ askingAgain, a.Asks) ∧ AllFit twoRoutines (St.initial twoRoutines 5) askingAgain ∧
      Served twoRoutines (run twoRoutines (St.initial twoRoutines 5) askingAgain) := by
  have hasks : ∀ a ∈ askingAgain, a.Asks := by simp [askingAgain, Action.Asks]
  have hfits : AllFit twoRoutines (St.initial twoRoutines 5) askingAgain := by
    simp [AllFit, DeadlineFits, askingAgain, St.initial, step, hookCallDeferred, taskStep, twoRoutines]
  exact ⟨hasks, hfits, (deferred_calls_served twoRoutines (by decide) hasks hfits).1⟩

example : (run twoRoutines (St.initial twoRoutines 5) askingAgain).log =
    [.set 0 215, .ring 0 215, .cancel 1, .set 1 55, .set 0 105] := by decide

def askedAtZero : List Action := [.call 0 0, .pass 1000, .task, .task, .task, .task, .task, .task]

/-- The call is lost: the slot that holds 0 counts as empty. -/
theorem call_at_zero_lost :
    (∀ a ∈ askedAtZero, a.Asks) ∧ ¬Served twoRoutines (run twoRoutines (St.initial twoRoutines 0) askedAtZero) := by
  refine ⟨by simp [askedAtZero, Action.Asks], fun h => ?_⟩
  have hlate := h.caughtUp 1000 (by decide) 0 0 (by decide)
  omega

end ChromeEc.Hooks
