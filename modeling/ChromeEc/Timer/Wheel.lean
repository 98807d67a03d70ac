import ChromeEc.Lib.Steps
import Mathlib.Data.BitVec
import Mathlib.Data.Finset.Basic
import Mathlib.Data.Fintype.Basic
import Mathlib.Data.List.FinRange
import Mathlib.Logic.Function.Basic

/- The task timers of `common/timer.c`.

  There are `n` tasks with a timer each. As in the scheduler, a word with a bit for each task is
  the set of those whose bit is set. `process_timers` is called from the interrupt of the
  hardware timer; the clock goes on while it runs, and every `get_time` has a reading of its
  own.

  Correspondence (C ↔ Lean):
    `timestamp_t` ↔ `Timestamp`, with `val` for the 64 bits together
    `clksrc_high`, `timer_running`,
      `timer_deadline`, `next_deadline` ↔ the fields of `St`
    the event of the hardware timer ↔ `St.hwEvent`, `none` when it is cleared
    `__fls(check_timer)`, until there is none ↔ `fromHighest`
    the body of `while (check_timer)` ↔ `checkTimer`
    the inner `do .. while` ↔ `scanTimers`
    the outer `do .. while` ↔ `passes`

  No timer fires early, none that is due stays, and the hardware event is soon enough.

  One pass of `process_timers` fires the timers that are due (`expired`) and finds the nearest
  of those left in the 32-bit epoch of the time that was read (`Nearest`). Several passes
  together leave the timers that are later than all the times that were read (`Passed`).

  Where there is no deadline in the epoch, `next` is left with all bits set. A deadline at the
  last microsecond of an epoch is taken for that, and so is any deadline in the last epoch
  (`Served` is what is left of the cases). -/
namespace ChromeEc.Timer

structure Timestamp where
  hi : BitVec 32
  lo : BitVec 32
  deriving DecidableEq

namespace Timestamp

def val (t : Timestamp) : Nat := t.hi.toNat * 2 ^ 32 + t.lo.toNat

/-- `-1ull`. -/
def max : Timestamp := ⟨0xffffffff, 0xffffffff⟩

end Timestamp

/-- What is done outside of this file. An event that is set is kept with the deadline and with the
time that was read. -/
inductive Effect (n : Nat) where
  /-- `task_set_event(tskid, TASK_EVENT_TIMER)`. -/
  | taskSetEvent (tskid : Fin n) (deadline now : Timestamp)
  /-- `task_trigger_irq(timer_irq)`. -/
  | taskTriggerIrq
  deriving DecidableEq

@[ext] structure St (n : Nat) where
  clksrcHigh : BitVec 32
  timerRunning : Finset (Fin n)
  timerDeadline : Fin n → Timestamp
  nextDeadline : BitVec 32
  hwEvent : Option (BitVec 32)
  effects : List (Effect n)

def St.initial (n : Nat) : St n := ⟨0, ∅, fun _ => ⟨0, 0⟩, 0xffffffff, none, []⟩

/-- `CONFIG_HWTIMER_64BIT`. -/
structure Config where
  hwtimer64bit : Bool

section

variable {n : Nat}

/-- Of a 32-bit clock only the low word is read. -/
def getTime (c : Config) (reading : Timestamp) (s : St n) : Timestamp :=
  if c.hwtimer64bit then reading else ⟨s.clksrcHigh, reading.lo⟩

def expireTimer (tskid : Fin n) (now : Timestamp) (s : St n) : St n :=
  { s with
    timerRunning := s.timerRunning.erase tskid
    effects := s.effects ++ [.taskSetEvent tskid (s.timerDeadline tskid) now] }

/-- The tasks of a word, from the highest bit down. -/
def fromHighest (word : Finset (Fin n)) : List (Fin n) := (List.finRange n).reverse.filter (· ∈ word)

/-- The first component is `next`. -/
def checkTimer (now : Timestamp) (r : Timestamp × St n) (tskid : Fin n) : Timestamp × St n :=
  let deadline := r.2.timerDeadline tskid
  if deadline.val ≤ now.val then
    (r.1, expireTimer tskid now r.2)
  else if deadline.hi = now.hi ∧ deadline.lo < r.1.lo then
    (deadline, r.2)
  else
    r

/-- Gone through again if there is a new timer; `none` if that happens too often. -/
def scanTimers (now : Timestamp) : Nat → Timestamp × St n → Option (Timestamp × St n)
  | 0, _ => none
  | fuel + 1, r =>
    let runningT0 := r.2.timerRunning
    let r := (fromHighest runningT0).foldl (checkTimer now) r
    if (r.2.timerRunning \ runningT0).Nonempty then scanTimers now fuel r else some r

/-- What is known when `process_timers` returns: the times `now` of its passes, the last one by
itself, and the last time that was read. -/
structure Returned (n : Nat) where
  earlier : List Timestamp
  now : Timestamp
  last : Timestamp
  state : St n

/-- The passes of `process_timers`, the next of which uses the readings from `k` on; `none` if there
are too many of them. -/
def passes (c : Config) (readings : Nat → Timestamp) : Nat → Nat → List Timestamp → St n → Option (Returned n)
  | 0, _, _, _ => none
  | fuel + 1, k, earlier, s =>
    let now := getTime c (readings k) s
    match scanTimers now (fuel + 1) (.max, s) with
    | none => none
    | some (next, s) =>
      if next.hi = 0xffffffff then
        -- no deadline to set
        some ⟨earlier, now, now, { s with hwEvent := none, nextDeadline := 0xffffffff }⟩
      else
        let s := { s with hwEvent := some next.lo, nextDeadline := next.lo }
        let last := getTime c (readings (k + 1)) s
        if next.val ≤ last.val then passes c readings fuel (k + 2) (earlier ++ [now]) s
        else some ⟨earlier, now, last, s⟩

def processTimers (c : Config) (overflow : Bool) (readings : Nat → Timestamp) (fuel : Nat) (s : St n) :
    Option (Returned n) :=
  passes c readings fuel 0 []
    (if c.hwtimer64bit = false ∧ overflow = true then { s with clksrcHigh := s.clksrcHigh + 1 } else s)

inductive EcError where
  | success
  | busy
  deriving DecidableEq

def timerArm (c : Config) (reading event : Timestamp) (tskid : Fin n) (s : St n) : EcError × St n :=
  let now := getTime c reading s
  if tskid ∈ s.timerRunning then
    (.busy, s)
  else
    let s := { s with
      timerDeadline := Function.update s.timerDeadline tskid event
      timerRunning := insert tskid s.timerRunning }
    if event.hi < now.hi ∨ (event.hi = now.hi ∧ event.lo ≤ s.nextDeadline) then
      (.success, { s with effects := s.effects ++ [.taskTriggerIrq] })
    else
      (.success, s)

def timerCancel (tskid : Fin n) (s : St n) : St n := { s with timerRunning := s.timerRunning.erase tskid }

end

/-! ## Times -/

open Lib

variable {n : Nat} {c : Config} {s s' s'' : St n} {now : Timestamp} {tskid t : Fin n}

theorem hi_lt_of_val_lt {x y : Timestamp} (h : x.val < y.val) (hne : y.hi ≠ x.hi) : x.hi < y.hi := by
  have hne : y.hi.toNat ≠ x.hi.toNat := fun heq => hne (BitVec.eq_of_toNat_eq heq)
  unfold Timestamp.val at h
  rw [BitVec.lt_def]
  omega

theorem val_lt_of_hi_lt {x y : Timestamp} (h : x.hi < y.hi) : x.val < y.val := by
  have hx := x.lo.isLt
  rw [BitVec.lt_def] at h
  unfold Timestamp.val
  omega

theorem val_le_of_lo_le {x y : Timestamp} (hhi : x.hi = y.hi) (hlo : x.lo ≤ y.lo) : x.val ≤ y.val := by
  rw [BitVec.le_def] at hlo
  unfold Timestamp.val
  rw [hhi]
  omega

/-! ## One pass -/

theorem mem_fromHighest {word : Finset (Fin n)} : t ∈ fromHighest word ↔ t ∈ word := by
  simp [fromHighest]

/-- The events that are set for the timers of a list that are due. -/
def wakes (now : Timestamp) (ids : List (Fin n)) (s : St n) : List (Effect n) :=
  (ids.filter fun t => (s.timerDeadline t).val ≤ now.val).map fun t => .taskSetEvent t (s.timerDeadline t) now

/-- The timers of a list that are due have fired. -/
def swept (now : Timestamp) (ids : List (Fin n)) (s : St n) : St n :=
  { s with
    timerRunning := s.timerRunning.filter fun t => t ∈ ids → now.val < (s.timerDeadline t).val
    effects := s.effects ++ wakes now ids s }

/-- The deadline is not due and in the epoch of the time that was read. -/
def Ahead (now deadline : Timestamp) : Prop := now.val < deadline.val ∧ deadline.hi = now.hi

/-- `next` is the nearest of the deadlines ahead, if it is not the last of the epoch. -/
structure Nearest (deadline : Fin n → Timestamp) (now : Timestamp) (ids : List (Fin n)) (next : Timestamp) : Prop where
  least : ∀ t ∈ ids, Ahead now (deadline t) → next.lo ≤ (deadline t).lo
  found : next = .max ∨ ∃ t ∈ ids, Ahead now (deadline t) ∧ deadline t = next ∧ next.lo ≠ 0xffffffff

theorem le_max_lo (x : BitVec 32) : x ≤ Timestamp.max.lo := by
  have hx := x.isLt
  rw [BitVec.le_def]
  show x.toNat ≤ 4294967295
  omega

theorem swept_snoc_due {ids : List (Fin n)} (hdue : (s.timerDeadline tskid).val ≤ now.val) :
    expireTimer tskid now (swept now ids s) = swept now (ids ++ [tskid]) s := by
  have hrunning : (swept now ids s).timerRunning.erase tskid = (swept now (ids ++ [tskid]) s).timerRunning := by
    ext t
    simp only [swept, Finset.mem_erase, Finset.mem_filter, List.mem_append, List.mem_singleton]
    constructor
    · rintro ⟨hne, hmem, hlater⟩
      exact ⟨hmem, fun h => hlater (h.resolve_right hne)⟩
    · rintro ⟨hmem, hlater⟩
      refine ⟨?_, hmem, fun h => hlater (.inl h)⟩
      rintro rfl
      exact Nat.not_lt_of_le hdue (hlater (.inr rfl))
  have heffects : (swept now ids s).effects ++ [.taskSetEvent tskid (s.timerDeadline tskid) now] =
      (swept now (ids ++ [tskid]) s).effects := by
    simp [swept, wakes, hdue]
  exact St.ext rfl hrunning rfl rfl rfl heffects

theorem swept_snoc_later {ids : List (Fin n)} (hlater : ¬(s.timerDeadline tskid).val ≤ now.val) :
    swept now (ids ++ [tskid]) s = swept now ids s := by
  have hrunning : (swept now (ids ++ [tskid]) s).timerRunning = (swept now ids s).timerRunning := by
    ext t
    simp only [swept, Finset.mem_filter, List.mem_append, List.mem_singleton]
    constructor
    · rintro ⟨hmem, h⟩
      exact ⟨hmem, fun hids => h (.inl hids)⟩
    · rintro ⟨hmem, h⟩
      refine ⟨hmem, ?_⟩
      rintro (hids | rfl)
      · exact h hids
      · exact Nat.lt_of_not_le hlater
  have hwakes : wakes now (ids ++ [tskid]) s = wakes now ids s := by simp [wakes, hlater]
  exact St.ext rfl hrunning rfl rfl rfl (congrArg (s.effects ++ ·) hwakes)

/-- After the timers of a list were checked. -/
structure Checked (now : Timestamp) (s : St n) (ids : List (Fin n)) (r : Timestamp × St n) : Prop where
  state : r.2 = swept now ids s
  nearest : Nearest s.timerDeadline now ids r.1

theorem Checked.nil : Checked now s [] (.max, s) where
  state := by simp [swept, wakes]
  nearest := ⟨fun _ h => absurd h List.not_mem_nil, .inl rfl⟩

theorem Nearest.skip {deadline : Fin n → Timestamp} {ids : List (Fin n)} {next : Timestamp}
    (h : Nearest deadline now ids next) (hskip : Ahead now (deadline tskid) → next.lo ≤ (deadline tskid).lo) :
    Nearest deadline now (ids ++ [tskid]) next where
  least t ht hahead := by
    rw [List.mem_append, List.mem_singleton] at ht
    obtain ht | rfl := ht
    · exact h.least t ht hahead
    · exact hskip hahead
  found := h.found.imp_right fun ⟨t, ht, hfound⟩ => ⟨t, List.mem_append_left _ ht, hfound⟩

theorem Nearest.take {deadline : Fin n → Timestamp} {ids : List (Fin n)} {next : Timestamp}
    (h : Nearest deadline now ids next) (hahead : Ahead now (deadline tskid))
    (hless : (deadline tskid).lo < next.lo) : Nearest deadline now (ids ++ [tskid]) (deadline tskid) where
  least t ht hahead := by
    rw [List.mem_append, List.mem_singleton] at ht
    obtain ht | rfl := ht
    · exact BitVec.le_trans (BitVec.le_of_lt hless) (h.least t ht hahead)
    · exact BitVec.le_refl _
  found := by
    refine .inr ⟨tskid, List.mem_append_right _ (List.mem_singleton_self _), hahead, rfl, ?_⟩
    intro hmax
    rw [hmax] at hless
    exact BitVec.not_lt.mpr (le_max_lo next.lo) hless

theorem Checked.snoc {ids : List (Fin n)} {r : Timestamp × St n} (h : Checked now s ids r) :
    Checked now s (ids ++ [tskid]) (checkTimer now r tskid) := by
  have hdeadline : r.2.timerDeadline = s.timerDeadline := by rw [h.state]; rfl
  unfold checkTimer
  rw [hdeadline]
  dsimp only
  split
  · rename_i hdue
    refine ⟨?_, h.nearest.skip fun hahead => absurd hdue (Nat.not_le_of_lt hahead.1)⟩
    rw [h.state]
    exact swept_snoc_due hdue
  rename_i hlater
  split
  · rename_i hnearer
    exact ⟨h.state.trans (swept_snoc_later hlater).symm, h.nearest.take ⟨Nat.lt_of_not_le hlater, hnearer.1⟩ hnearer.2⟩
  · rename_i hfarther
    refine ⟨h.state.trans (swept_snoc_later hlater).symm, h.nearest.skip fun hahead => ?_⟩
    exact BitVec.not_lt.mp fun hless => hfarther ⟨hahead.2, hless⟩

theorem checked_foldl (now : Timestamp) (s : St n) (ids : List (Fin n)) :
    Checked now s ids (ids.foldl (checkTimer now) (.max, s)) := by
  induction ids using List.reverseRecOn with
  | nil =>
    rw [List.foldl_nil]
    exact .nil
  | append_singleton ids tskid ih =>
    rw [List.foldl_append, List.foldl_cons, List.foldl_nil]
    exact ih.snoc

def expired (now : Timestamp) (s : St n) : St n :=
  { s with
    timerRunning := s.timerRunning.filter fun t => now.val < (s.timerDeadline t).val
    effects := s.effects ++ wakes now (fromHighest s.timerRunning) s }

theorem swept_all : swept now (fromHighest s.timerRunning) s = expired now s := by
  have hrunning : (swept now (fromHighest s.timerRunning) s).timerRunning = (expired now s).timerRunning := by
    apply Finset.filter_congr
    intro t ht
    rw [mem_fromHighest]
    exact ⟨fun h => h ht, fun h _ => h⟩
  exact St.ext rfl hrunning rfl rfl rfl rfl

/-- Nothing is armed while the timers are gone through, so that once is enough. -/
theorem scanTimers_eq (now : Timestamp) (s : St n) (fuel : Nat) : ∃ next,
    scanTimers now (fuel + 1) (.max, s) = some (next, expired now s) ∧
      Nearest s.timerDeadline now (fromHighest s.timerRunning) next := by
  obtain ⟨hstate, hnearest⟩ := checked_foldl now s (fromHighest s.timerRunning)
  rw [swept_all] at hstate
  refine ⟨_, ?_, hnearest⟩
  have hsub : (expired now s).timerRunning ⊆ s.timerRunning := Finset.filter_subset _ _
  have hnone : ¬((expired now s).timerRunning \ s.timerRunning).Nonempty := by
    rw [Finset.sdiff_eq_empty_iff_subset.mpr hsub]
    exact Finset.not_nonempty_empty
  rw [scanTimers]
  dsimp only
  rw [hstate, if_neg hnone]
  exact congrArg some (Prod.ext rfl hstate)

/-! ## All passes -/

/-- What passes at several times do. -/
structure Passed (s : St n) (times : List Timestamp) (s' : St n) : Prop where
  clock : s'.clksrcHigh = s.clksrcHigh
  deadline : s'.timerDeadline = s.timerDeadline
  running : ∀ t, t ∈ s'.timerRunning ↔ t ∈ s.timerRunning ∧ ∀ u ∈ times, u.val < (s.timerDeadline t).val
  effects : ∃ new, s'.effects = s.effects ++ new ∧
    (∀ x ∈ new, ∃ t u, x = .taskSetEvent t (s.timerDeadline t) u ∧ t ∈ s.timerRunning ∧ u ∈ times ∧
      (s.timerDeadline t).val ≤ u.val) ∧
    ∀ t ∈ s.timerRunning, t ∉ s'.timerRunning → ∃ u, .taskSetEvent t (s.timerDeadline t) u ∈ new

theorem passed_expired (now : Timestamp) (s : St n) : Passed s [now] (expired now s) where
  clock := rfl
  deadline := rfl
  running t := by simp [expired]
  effects := by
    refine ⟨wakes now (fromHighest s.timerRunning) s, rfl, ?_, ?_⟩
    · intro x hx
      simp only [wakes, List.mem_map, List.mem_filter, mem_fromHighest, decide_eq_true_eq] at hx
      obtain ⟨t, ⟨hmem, hdue⟩, rfl⟩ := hx
      exact ⟨t, now, rfl, hmem, List.mem_singleton_self now, hdue⟩
    · intro t hmem hfired
      refine ⟨now, ?_⟩
      simp only [wakes, List.mem_map, List.mem_filter, mem_fromHighest, decide_eq_true_eq]
      refine ⟨t, ⟨hmem, ?_⟩, rfl⟩
      by_contra hlater
      exact hfired (Finset.mem_filter.mpr ⟨hmem, Nat.lt_of_not_le hlater⟩)

theorem Passed.trans {times times' : List Timestamp} (h : Passed s times s') (h' : Passed s' times' s'') :
    Passed s (times ++ times') s'' := by
  obtain ⟨new, heffects, hsound, hall⟩ := h.effects
  obtain ⟨new', heffects', hsound', hall'⟩ := h'.effects
  have hrunning : ∀ t, t ∈ s''.timerRunning ↔
      t ∈ s.timerRunning ∧ ∀ u ∈ times ++ times', u.val < (s.timerDeadline t).val := by
    intro t
    rw [h'.running, h.running, h.deadline, and_assoc]
    simp only [List.mem_append, or_imp, forall_and]
  refine ⟨h'.clock.trans h.clock, h'.deadline.trans h.deadline, hrunning, new ++ new', ?_, ?_, ?_⟩
  · rw [heffects', heffects, List.append_assoc]
  · intro x hx
    rcases List.mem_append.mp hx with hx | hx
    · obtain ⟨t, u, rfl, hmem, hu, hdue⟩ := hsound x hx
      exact ⟨t, u, rfl, hmem, List.mem_append_left _ hu, hdue⟩
    · obtain ⟨t, u, rfl, hmem, hu, hdue⟩ := hsound' x hx
      rw [h.deadline] at hdue ⊢
      exact ⟨t, u, rfl, ((h.running t).mp hmem).1, List.mem_append_right _ hu, hdue⟩
  · intro t hmem hfired
    by_cases hstays : t ∈ s'.timerRunning
    · obtain ⟨u, hu⟩ := hall' t hstays hfired
      rw [h.deadline] at hu
      exact ⟨u, List.mem_append_right _ hu⟩
    · obtain ⟨u, hu⟩ := hall t hmem hstays
      exact ⟨u, List.mem_append_left _ hu⟩

theorem Passed.program {times : List Timestamp} (h : Passed s times s') (hwEvent : Option (BitVec 32))
    (nextDeadline : BitVec 32) : Passed s times { s' with hwEvent, nextDeadline } :=
  ⟨h.clock, h.deadline, h.running, h.effects⟩

structure Finished (r : Returned n) : Prop where
  later : ∀ t ∈ r.state.timerRunning, r.now.val < (r.state.timerDeadline t).val
  later_last : ∀ t ∈ r.state.timerRunning, r.last.val < (r.state.timerDeadline t).val
  /-- An event that is set is for a timer of the epoch. -/
  event : ∀ x, r.state.hwEvent = some x → r.now.hi ≠ 0xffffffff ∧ ∃ t ∈ r.state.timerRunning,
    (r.state.timerDeadline t).hi = r.now.hi ∧ (r.state.timerDeadline t).lo = x ∧ x ≠ 0xffffffff
  /-- The others of the epoch are not before it. -/
  nearest : ∀ x, r.state.hwEvent = some x → ∀ t ∈ r.state.timerRunning,
    (r.state.timerDeadline t).hi = r.now.hi → x ≤ (r.state.timerDeadline t).lo
  /-- Where it is cleared, what is left is not told from no deadline. -/
  cleared : r.state.hwEvent = none → r.now.hi = 0xffffffff ∨ ∀ t ∈ r.state.timerRunning,
    (r.state.timerDeadline t).hi = r.now.hi → (r.state.timerDeadline t).lo = 0xffffffff

theorem lo_eq_of_max_le {x : BitVec 32} (h : Timestamp.max.lo ≤ x) : x = 0xffffffff :=
  BitVec.le_antisymm (le_max_lo x) h

variable {next last : Timestamp} {earlier : List Timestamp}

theorem finished_clear (hnearest : Nearest s.timerDeadline now (fromHighest s.timerRunning) next)
    (hnone : next.hi = 0xffffffff) (nextDeadline : BitVec 32) :
    Finished (n := n) ⟨earlier, now, now, { expired now s with hwEvent := none, nextDeadline }⟩ := by
  have hlater : ∀ t ∈ (expired now s).timerRunning, now.val < (s.timerDeadline t).val :=
    fun t ht => (Finset.mem_filter.mp ht).2
  refine ⟨hlater, hlater, fun x hx => (by cases hx), fun x hx => (by cases hx), fun _ => ?_⟩
  rcases hnearest.found with rfl | ⟨t, -, hahead, rfl, -⟩
  · refine .inr fun t ht hhi => ?_
    have hmem := mem_fromHighest.mpr (Finset.mem_filter.mp ht).1
    exact lo_eq_of_max_le (hnearest.least t hmem ⟨hlater t ht, hhi⟩)
  · exact .inl (hahead.2.symm.trans hnone)

theorem finished_set (hnearest : Nearest s.timerDeadline now (fromHighest s.timerRunning) next)
    (hsome : next.hi ≠ 0xffffffff) (hahead : last.val < next.val) (nextDeadline : BitVec 32) :
    Finished (n := n) ⟨earlier, now, last, { expired now s with hwEvent := some next.lo, nextDeadline }⟩ := by
  have hlater : ∀ t ∈ (expired now s).timerRunning, now.val < (s.timerDeadline t).val :=
    fun t ht => (Finset.mem_filter.mp ht).2
  have hleast : ∀ t ∈ (expired now s).timerRunning, (s.timerDeadline t).hi = now.hi → next.lo ≤ (s.timerDeadline t).lo :=
    fun t ht hhi => hnearest.least t (mem_fromHighest.mpr (Finset.mem_filter.mp ht).1) ⟨hlater t ht, hhi⟩
  obtain ⟨t, ht, htahead, rfl, hlo⟩ := hnearest.found.resolve_left fun hmax => hsome (congrArg Timestamp.hi hmax)
  have hrunning : t ∈ (expired now s).timerRunning := Finset.mem_filter.mpr ⟨mem_fromHighest.mp ht, htahead.1⟩
  refine ⟨hlater, ?_, ?_, ?_, fun hnone => (by cases hnone)⟩
  · intro t' ht'
    by_cases hhi : (s.timerDeadline t').hi = now.hi
    · exact Nat.lt_of_lt_of_le hahead (val_le_of_lo_le (htahead.2.trans hhi.symm) (hleast t' ht' hhi))
    · -- a deadline of a later epoch is later than any of this one
      have hafter := hi_lt_of_val_lt (hlater t' ht') hhi
      rw [← htahead.2] at hafter
      exact Nat.lt_trans hahead (val_lt_of_hi_lt hafter)
  · intro x hx
    cases hx
    exact ⟨htahead.2 ▸ hsome, t, hrunning, htahead.2, rfl, hlo⟩
  · intro x hx
    cases hx
    exact hleast

/-- Every call that returns has made some passes, of which the last one is as it should be. -/
theorem passes_spec {readings : Nat → Timestamp} {fuel k : Nat} {r : Returned n}
    (h : passes c readings fuel k earlier s = some r) :
    ∃ times, r.earlier = earlier ++ times ∧ Passed s (times ++ [r.now]) r.state ∧ Finished r := by
  induction fuel generalizing k earlier s with
  | zero => cases h
  | succ fuel ih =>
    obtain ⟨next, hscan, hnearest⟩ := scanTimers_eq (getTime c (readings k) s) s fuel
    rw [passes, hscan] at h
    dsimp only at h
    have hpassed := passed_expired (getTime c (readings k) s) s
    split at h
    · rename_i hnone
      cases h
      exact ⟨[], (List.append_nil _).symm, hpassed.program _ _, finished_clear hnearest hnone _⟩
    rename_i hsome
    split at h
    · obtain ⟨times, hearlier, hrest, hfinished⟩ := ih h
      refine ⟨getTime c (readings k) s :: times, ?_, (hpassed.program _ _).trans hrest, hfinished⟩
      rw [hearlier, List.append_assoc]
      rfl
    · rename_i hahead
      cases h
      exact ⟨[], (List.append_nil _).symm, hpassed.program _ _,
        finished_set hnearest hsome (Nat.lt_of_not_le hahead) _⟩

/-- Once the time stands still, the pass in which it does is the last. -/
theorem passes_isSome {readings : Nat → Timestamp} {m fuel k : Nat} (hstop : ∀ j, m ≤ j → readings j = readings m)
    (hfuel : m < k + fuel) (hpos : 0 < fuel) : (passes c readings fuel k earlier s).isSome := by
  induction fuel generalizing k earlier s with
  | zero => cases hpos
  | succ fuel ih =>
    obtain ⟨next, hscan, hnearest⟩ := scanTimers_eq (getTime c (readings k) s) s fuel
    rw [passes, hscan]
    dsimp only
    split
    · rfl
    rename_i hsome
    split
    · rename_i hpassed
      rcases Nat.lt_or_ge k m with hk | hk
      · exact ih (by omega) (by omega)
      · exfalso
        obtain ⟨t, -, hahead, rfl, -⟩ := hnearest.found.resolve_left fun hmax => hsome (congrArg Timestamp.hi hmax)
        have hsame : readings (k + 1) = readings k := by rw [hstop (k + 1) (by omega), hstop k hk]
        rw [hsame] at hpassed
        exact Nat.not_lt_of_le hpassed hahead.1
    · rfl

/-! ## A call -/

def fired (s s' : St n) : List (Fin n) :=
  (s'.effects.drop s.effects.length).filterMap fun
    | .taskSetEvent tskid _ _ => some tskid
    | .taskTriggerIrq => none

/-- What is asked of a call of `process_timers` that returns. -/
structure Kept (s : St n) (r : Returned n) : Prop where
  not_early : ∀ tskid deadline now, .taskSetEvent tskid deadline now ∈ r.state.effects.drop s.effects.length →
    deadline = s.timerDeadline tskid ∧ deadline.val ≤ now.val ∧ now ∈ r.earlier ++ [r.now]
  later : ∀ t ∈ r.state.timerRunning,
    r.now.val < (r.state.timerDeadline t).val ∧ r.last.val < (r.state.timerDeadline t).val
  running : ∀ t, t ∈ r.state.timerRunning ↔ t ∈ s.timerRunning ∧ t ∉ fired s r.state
  event_set : ∀ t ∈ r.state.timerRunning, (r.state.timerDeadline t).hi = r.now.hi →
    ∃ x, r.state.hwEvent = some x ∧ x ≤ (r.state.timerDeadline t).lo
  event_cleared : (∀ t ∈ r.state.timerRunning, (r.state.timerDeadline t).hi ≠ r.now.hi) → r.state.hwEvent = none

/-- The timer runs before the call, and its deadline is later than all the times that the passes read and
in the epoch of the last of them. -/
def Pending (s : St n) (earlier : List Timestamp) (now : Timestamp) (t : Fin n) : Prop :=
  t ∈ s.timerRunning ∧ (∀ u ∈ earlier ++ [now], u.val < (s.timerDeadline t).val) ∧ (s.timerDeadline t).hi = now.hi

instance (s : St n) (earlier : List Timestamp) (now : Timestamp) : DecidablePred (Pending s earlier now) :=
  fun _ => inferInstanceAs (Decidable (_ ∧ _ ∧ _))

/-- If there are such timers, then not all of them at the last microsecond of the epoch, and the epoch is
not the last one. -/
def Served (s : St n) (earlier : List Timestamp) (now : Timestamp) : Prop :=
  (∃ t, Pending s earlier now t) →
    now.hi ≠ 0xffffffff ∧ ∃ t, Pending s earlier now t ∧ (s.timerDeadline t).lo ≠ 0xffffffff

instance (s : St n) (earlier : List Timestamp) (now : Timestamp) : Decidable (Served s earlier now) :=
  inferInstanceAs (Decidable (_ → _))

theorem process_spec {overflow : Bool} {readings : Nat → Timestamp} {fuel : Nat} {r : Returned n}
    (h : processTimers c overflow readings fuel s = some r) :
    ∃ clksrcHigh, Passed { s with clksrcHigh } (r.earlier ++ [r.now]) r.state ∧ Finished r := by
  unfold processTimers at h
  split at h
  · obtain ⟨times, hearlier, hpassed, hfinished⟩ := passes_spec h
    rw [hearlier, List.nil_append]
    exact ⟨_, hpassed, hfinished⟩
  · obtain ⟨times, hearlier, hpassed, hfinished⟩ := passes_spec h
    rw [hearlier, List.nil_append]
    exact ⟨_, hpassed, hfinished⟩

theorem Passed.mem_fired {times : List Timestamp} {clksrcHigh : BitVec 32} (h : Passed { s with clksrcHigh } times s') :
    t ∈ fired s s' ↔ t ∈ s.timerRunning ∧ t ∉ s'.timerRunning := by
  obtain ⟨new, heffects, hsound, hall⟩ := h.effects
  have hnew : s'.effects.drop s.effects.length = new := by
    rw [heffects]
    exact List.drop_left
  unfold fired
  rw [hnew, List.mem_filterMap]
  constructor
  · rintro ⟨x, hx, hwoken⟩
    obtain ⟨t', u, rfl, hmem, hu, hdue⟩ := hsound x hx
    cases hwoken
    refine ⟨hmem, fun hstays => ?_⟩
    exact Nat.not_lt_of_le hdue (((h.running t).mp hstays).2 u hu)
  · rintro ⟨hmem, hgone⟩
    obtain ⟨u, hu⟩ := hall t hmem hgone
    exact ⟨_, hu, rfl⟩

theorem process_kept {overflow : Bool} {readings : Nat → Timestamp} {fuel : Nat} {r : Returned n}
    (h : processTimers c overflow readings fuel s = some r) : Kept s r ↔ Served s r.earlier r.now := by
  obtain ⟨clksrcHigh, hpassed, hfinished⟩ := process_spec h
  have hdeadline : r.state.timerDeadline = s.timerDeadline := hpassed.deadline
  have hpending : ∀ t, Pending s r.earlier r.now t ↔
      t ∈ r.state.timerRunning ∧ (r.state.timerDeadline t).hi = r.now.hi := by
    intro t
    rw [hpassed.running, hdeadline, Pending, and_assoc]
  constructor
  · rintro hkept ⟨t, ht⟩
    obtain ⟨hmem, hhi⟩ := (hpending t).mp ht
    obtain ⟨x, hevent, -⟩ := hkept.event_set t hmem hhi
    obtain ⟨hepoch, t', hmem', hhi', rfl, hlo⟩ := hfinished.event x hevent
    exact ⟨hepoch, t', (hpending t').mpr ⟨hmem', hhi'⟩, hdeadline ▸ hlo⟩
  · intro hserved
    refine ⟨?_, fun t ht => ⟨hfinished.later t ht, hfinished.later_last t ht⟩, ?_, ?_, ?_⟩
    · intro tskid deadline now hset
      obtain ⟨new, heffects, hsound, -⟩ := hpassed.effects
      have hnew : r.state.effects.drop s.effects.length = new := by
        rw [heffects]
        exact List.drop_left
      rw [hnew] at hset
      obtain ⟨t, u, heq, -, hu, hdue⟩ := hsound _ hset
      cases heq
      exact ⟨rfl, hdue, hu⟩
    · intro t
      rw [hpassed.mem_fired]
      constructor
      · intro hmem
        exact ⟨((hpassed.running t).mp hmem).1, fun hgone => hgone.2 hmem⟩
      · rintro ⟨hmem, hstays⟩
        by_contra hgone
        exact hstays ⟨hmem, hgone⟩
    · intro t hmem hhi
      obtain ⟨hepoch, t', ht', hlo⟩ := hserved ⟨t, (hpending t).mpr ⟨hmem, hhi⟩⟩
      obtain ⟨hmem', hhi'⟩ := (hpending t').mp ht'
      cases hevent : r.state.hwEvent with
      | none =>
        rcases hfinished.cleared hevent with hlast | hall
        · exact absurd hlast hepoch
        · exact absurd (hdeadline ▸ hall t' hmem' hhi') hlo
      | some x => exact ⟨x, rfl, hfinished.nearest x hevent t hmem hhi⟩
    · intro hnone
      cases hevent : r.state.hwEvent with
      | none => rfl
      | some x =>
        obtain ⟨-, t, hmem, hhi, -⟩ := hfinished.event x hevent
        exact absurd hhi (hnone t hmem)

/-! ## Runs -/

/-- A call of `timer_arm`, `timer_cancel` or `process_timers`, with what is read of the clock. -/
inductive Call (n : Nat) where
  | arm (reading event : Timestamp) (tskid : Fin n)
  | cancel (tskid : Fin n)
  | process (overflow : Bool) (readings : Nat → Timestamp) (fuel : Nat)

/-- A call of `process_timers` is a step if it returns. -/
def wheelStep (c : Config) : Call n → St n → Option (St n)
  | .arm reading event tskid, s => some (timerArm c reading event tskid s).2
  | .cancel tskid, s => some (timerCancel tskid s)
  | .process overflow readings fuel, s => (processTimers c overflow readings fuel s).map Returned.state

/-- For each task the deadline with which its timer was armed, if it has not fired or been cancelled since. -/
def history (c : Config) (armed : Fin n → Option Timestamp) : St n × Call n → Fin n → Option Timestamp
  | (s, .arm reading event tskid) =>
    if (timerArm c reading event tskid s).1 = .success then Function.update armed tskid (some event) else armed
  | (_, .cancel tskid) => Function.update armed tskid none
  | (s, .process overflow readings fuel) =>
    match processTimers c overflow readings fuel s with
    | none => armed
    | some r => fun t => if t ∈ fired s r.state then none else armed t

/-- The timers that run are those that are armed, with their deadlines. -/
def Tracks (s : St n) (armed : Fin n → Option Timestamp) : Prop :=
  ∀ t, armed t = if t ∈ s.timerRunning then some (s.timerDeadline t) else none

/-- No event was set for a deadline later than the time that was read. -/
def NotEarly (s : St n) : Prop :=
  ∀ tskid deadline now, .taskSetEvent tskid deadline now ∈ s.effects → deadline.val ≤ now.val

theorem arm_busy {reading event : Timestamp} (h : tskid ∈ s.timerRunning) :
    timerArm c reading event tskid s = (.busy, s) := if_pos h

theorem arm_success (c : Config) (reading event : Timestamp) (h : tskid ∉ s.timerRunning) :
    (timerArm c reading event tskid s).1 = .success ∧
      (timerArm c reading event tskid s).2.timerRunning = insert tskid s.timerRunning ∧
      (timerArm c reading event tskid s).2.timerDeadline = Function.update s.timerDeadline tskid event ∧
      ∀ x ∈ (timerArm c reading event tskid s).2.effects, x ∈ s.effects ∨ x = .taskTriggerIrq := by
  unfold timerArm
  dsimp only
  rw [if_neg h]
  split
  · refine ⟨rfl, rfl, rfl, fun x hx => ?_⟩
    rwa [List.mem_append, List.mem_singleton] at hx
  · exact ⟨rfl, rfl, rfl, fun x hx => .inl hx⟩

theorem Tracks.arm {armed : Fin n → Option Timestamp} {reading event : Timestamp} (h : Tracks s armed) :
    Tracks (timerArm c reading event tskid s).2 (history c armed (s, .arm reading event tskid)) := by
  intro t
  rw [history]
  by_cases hrunning : tskid ∈ s.timerRunning
  · rw [arm_busy hrunning, if_neg EcError.noConfusion]
    exact h t
  · obtain ⟨hsuccess, hrunning', hdeadline, -⟩ := arm_success c reading event hrunning
    rw [if_pos hsuccess, hrunning', hdeadline]
    by_cases ht : t = tskid
    · rw [ht, Function.update_self, Function.update_self, if_pos (Finset.mem_insert_self _ _)]
    · rw [Function.update_of_ne ht, Function.update_of_ne ht, h t]
      simp only [Finset.mem_insert, ht, false_or]

theorem Tracks.cancel {armed : Fin n → Option Timestamp} (h : Tracks s armed) :
    Tracks (timerCancel tskid s) (history c armed (s, .cancel tskid)) := by
  intro t
  show Function.update armed tskid none t = if t ∈ s.timerRunning.erase tskid then _ else none
  by_cases ht : t = tskid
  · rw [ht, Function.update_self, if_neg (Finset.notMem_erase _ _)]
  · rw [Function.update_of_ne ht, h t]
    simp only [Finset.mem_erase, ne_eq, ht, not_false_eq_true, true_and]
    rfl

theorem Tracks.process {armed : Fin n → Option Timestamp} {overflow : Bool} {readings : Nat → Timestamp} {fuel : Nat}
    {r : Returned n} (h : Tracks s armed) (hreturned : processTimers c overflow readings fuel s = some r) :
    Tracks r.state (history c armed (s, .process overflow readings fuel)) := by
  obtain ⟨clksrcHigh, hpassed, -⟩ := process_spec hreturned
  have hdeadline : r.state.timerDeadline = s.timerDeadline := hpassed.deadline
  intro t
  rw [history, hreturned]
  show (if t ∈ fired s r.state then none else armed t) = _
  rw [h t, hdeadline]
  by_cases hstays : t ∈ r.state.timerRunning
  · have hmem : t ∈ s.timerRunning := ((hpassed.running t).mp hstays).1
    rw [if_neg fun hfired => (hpassed.mem_fired.mp hfired).2 hstays, if_pos hmem, if_pos hstays]
  · rw [if_neg hstays]
    split
    · rfl
    · rename_i hnot
      exact if_neg fun hmem => hnot (hpassed.mem_fired.mpr ⟨hmem, hstays⟩)

theorem NotEarly.process {overflow : Bool} {readings : Nat → Timestamp} {fuel : Nat} {r : Returned n} (h : NotEarly s)
    (hreturned : processTimers c overflow readings fuel s = some r) : NotEarly r.state := by
  obtain ⟨clksrcHigh, hpassed, -⟩ := process_spec hreturned
  obtain ⟨new, heffects, hsound, -⟩ := hpassed.effects
  intro tskid deadline now hset
  rw [heffects, List.mem_append] at hset
  rcases hset with hbefore | hnew
  · exact h tskid deadline now hbefore
  · obtain ⟨t, u, heq, -, -, hdue⟩ := hsound _ hnew
    cases heq
    exact hdue

theorem step_tracks {armed : Fin n → Option Timestamp} {call : Call n} (h : Tracks s armed ∧ NotEarly s)
    (hstep : wheelStep c call s = some s') : Tracks s' (history c armed (s, call)) ∧ NotEarly s' := by
  obtain ⟨htracks, hearly⟩ := h
  cases call with
  | arm reading event tskid =>
    cases hstep
    refine ⟨htracks.arm, ?_⟩
    by_cases hrunning : tskid ∈ s.timerRunning
    · rw [arm_busy hrunning]
      exact hearly
    · intro t deadline now hset
      rcases (arm_success c reading event hrunning).2.2.2 _ hset with hbefore | hirq
      · exact hearly t deadline now hbefore
      · cases hirq
  | cancel tskid =>
    cases hstep
    exact ⟨htracks.cancel, hearly⟩
  | process overflow readings fuel =>
    obtain ⟨r, hreturned, rfl⟩ := Option.map_eq_some_iff.mp hstep
    exact ⟨htracks.process hreturned, hearly.process hreturned⟩

theorem run_tracks {clksrcHigh : BitVec 32} {l : List (St n × Call n)}
    (h : Steps.Run (wheelStep c) { St.initial n with clksrcHigh } l s) :
    Tracks s (l.foldl (history c) fun _ => none) ∧ NotEarly s := by
  have hok : Steps.Always (history c) (fun _ _ => True) (fun _ => none) l :=
    Steps.always_iff_forall.mpr fun _ _ => trivial
  refine Steps.Run.observed (R := fun s armed => Tracks s armed ∧ NotEarly s) ?_ ?_ h hok
  · exact ⟨fun _ => rfl, fun _ _ _ hset => absurd hset List.not_mem_nil⟩
  · intro s call s' armed hs _ hstep
    exact step_tracks hs hstep

/-- In every run: no event is set early; the timers that run are those that were armed and have not fired or
been cancelled; when a call of `process_timers` returns, the timers that are left are later than
the time it read, and all that is asked of it is kept just when the deadlines ahead are not all
taken for none; and it returns if the time stops. -/
theorem timer_wheel {clksrcHigh : BitVec 32} {l : List (St n × Call n)}
    (h : Steps.Run (wheelStep c) { St.initial n with clksrcHigh } l s) :
    (∀ tskid deadline now, .taskSetEvent tskid deadline now ∈ s.effects → deadline.val ≤ now.val) ∧
    (∀ t, (l.foldl (history c) fun _ => none) t = if t ∈ s.timerRunning then some (s.timerDeadline t) else none) ∧
    (∀ overflow readings fuel r, processTimers c overflow readings fuel s = some r →
      (∀ t ∈ r.state.timerRunning,
        r.now.val < (r.state.timerDeadline t).val ∧ r.last.val < (r.state.timerDeadline t).val) ∧
      (Kept s r ↔ Served s r.earlier r.now)) ∧
    ∀ overflow readings m, (∀ j, m ≤ j → readings j = readings m) →
      ∀ fuel, m < fuel → (processTimers c overflow readings fuel s).isSome := by
  obtain ⟨htracks, hearly⟩ := run_tracks h
  refine ⟨hearly, htracks, ?_, ?_⟩
  · intro overflow readings fuel r hreturned
    obtain ⟨-, -, hfinished⟩ := process_spec hreturned
    exact ⟨fun t ht => ⟨hfinished.later t ht, hfinished.later_last t ht⟩, process_kept hreturned⟩
  · intro overflow readings m hstop fuel hfuel
    exact passes_isSome hstop (by omega) (by omega)

def atFive : Nat → Timestamp := fun _ => ⟨0, 5⟩

/-- Two timers in the epoch, one of them at its last microsecond. -/
theorem timer_wheel_two : ∃ l s r, Steps.Run (wheelStep ⟨false⟩) { St.initial 2 with clksrcHigh := 3 } l s ∧
    processTimers ⟨false⟩ false atFive 1 s = some r ∧ Kept s r := by
  have hserved : (Steps.trace (wheelStep ⟨false⟩) [.arm ⟨0, 1⟩ ⟨3, 0xffffffff⟩ 0, .arm ⟨0, 2⟩ ⟨3, 100⟩ 1]
      ([], { St.initial 2 with clksrcHigh := 3 })).any fun q =>
        (processTimers ⟨false⟩ false atFive 1 q.2).any fun r => Served q.2 r.earlier r.now := by decide +kernel
  obtain ⟨q, htrace, hcall⟩ := (Option.any_eq_true _ _).mp hserved
  obtain ⟨r, hreturned, hserved⟩ := (Option.any_eq_true _ _).mp hcall
  have hrun := Steps.Run.of_trace .start htrace
  exact ⟨q.1, q.2, r, hrun, hreturned,
    ((timer_wheel hrun).2.2.1 _ _ _ _ hreturned).2.mpr (of_decide_eq_true hserved)⟩

/-- The timer is armed, its deadline is in the epoch, and the hardware event is cleared. -/
theorem last_microsecond : ∃ l s r t, Steps.Run (wheelStep ⟨false⟩) (St.initial 1) l s ∧
    processTimers ⟨false⟩ false atFive 1 s = some r ∧ t ∈ r.state.timerRunning ∧
    r.state.timerDeadline t = ⟨0, 0xffffffff⟩ ∧ r.now = ⟨0, 5⟩ ∧ r.state.hwEvent = none := by
  have hmissed : (Steps.trace (wheelStep ⟨false⟩) [.arm ⟨0, 1⟩ ⟨0, 0xffffffff⟩ 0] ([], St.initial 1)).any fun q =>
      (processTimers ⟨false⟩ false atFive 1 q.2).any fun r =>
        0 ∈ r.state.timerRunning ∧ r.state.timerDeadline 0 = ⟨0, 0xffffffff⟩ ∧ r.now = ⟨0, 5⟩ ∧
          r.state.hwEvent = none := by decide +kernel
  obtain ⟨q, htrace, hcall⟩ := (Option.any_eq_true _ _).mp hmissed
  obtain ⟨r, hreturned, hleft⟩ := (Option.any_eq_true _ _).mp hcall
  exact ⟨q.1, q.2, r, 0, .of_trace .start htrace, hreturned, of_decide_eq_true hleft⟩

end ChromeEc.Timer
