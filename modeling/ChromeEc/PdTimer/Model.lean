import ChromeEc.Lib.Bitmap
import Mathlib.Logic.Function.Basic
import Mathlib.Data.List.FinRange

/- The timers of common/usbc/usb_pd_timer.c.

  Every port has PD_TIMER_COUNT timers. Two bitmaps say which timers of all ports are active and
  which are disabled. A timer that is neither has expired and was seen to. `view` is what the two
  bitmaps and the table of times say about one timer, and for every function there is a lemma that
  says what it does to every view. -/
namespace ChromeEc.PdTimer
open Lib

abbrev pdTimerCount : Nat := 37

abbrev PdTaskTimer := Fin pdTimerCount

/-- Microseconds of get_time(). -/
abbrev Time := BitVec 64

def maxExpire : Int := 0x7FFFFFFF

def noTimeout : Int := -1

def expireNow : Int := 0

inductive PdTimerRange where
  | dpm
  | pe
  | pr
  | tc
  deriving DecidableEq

/-- DPM_TIMER_START, PE_TIMER_START, PR_TIMER_START and TC_TIMER_START. -/
def PdTimerRange.start : PdTimerRange → Nat
  | .dpm => 0
  | .pe => 2
  | .pr => 24
  | .tc => 29

/-- DPM_TIMER_END, PE_TIMER_END, PR_TIMER_END and TC_TIMER_END. -/
def PdTimerRange.last : PdTimerRange → Nat
  | .dpm => 1
  | .pe => 23
  | .pr => 28
  | .tc => 36

def PdTimerRange.timers (range : PdTimerRange) : List PdTaskTimer :=
  (List.finRange pdTimerCount).filter fun t => range.start ≤ t.val ∧ t.val ≤ range.last

variable {ports : Nat}

structure State (ports : Nat) where
  timerActive : Bitmap 32 (pdTimerCount * ports)
  timerDisabled : Bitmap 32 (pdTimerCount * ports)
  timerExpires : Fin ports → PdTaskTimer → Time
  /-- Kept with CONFIG_CMD_PD_TIMER -/
  count : Fin ports → Int
  maxCount : Fin ports → Int

def boot (ports : Nat) : State ports where
  timerActive := .empty
  timerDisabled := .empty
  timerExpires := fun _ _ => 0
  count := fun _ => 0
  maxCount := fun _ => 0

def State.chkActive (s : State ports) (port : Fin ports) (bit : PdTaskTimer) : Bool :=
  s.timerActive.test (Bitmap.cell port bit)

def State.chkDisabled (s : State ports) (port : Fin ports) (bit : PdTaskTimer) : Bool :=
  s.timerDisabled.test (Bitmap.cell port bit)

def State.setActive (s : State ports) (port : Fin ports) (bit : PdTaskTimer) : State ports :=
  { s with timerActive := s.timerActive.setBit (Bitmap.cell port bit) }

def State.clrActive (s : State ports) (port : Fin ports) (bit : PdTaskTimer) : State ports :=
  { s with timerActive := s.timerActive.clearBit (Bitmap.cell port bit) }

def State.setDisabled (s : State ports) (port : Fin ports) (bit : PdTaskTimer) : State ports :=
  { s with timerDisabled := s.timerDisabled.setBit (Bitmap.cell port bit) }

def State.clrDisabled (s : State ports) (port : Fin ports) (bit : PdTaskTimer) : State ports :=
  { s with timerDisabled := s.timerDisabled.clearBit (Bitmap.cell port bit) }

def State.setCount (s : State ports) (port : Fin ports) (n : Int) : State ports :=
  { s with count := Function.update s.count port n, maxCount := Function.update s.maxCount port (max (s.maxCount port) n) }

def State.setExpires (s : State ports) (port : Fin ports) (timer : PdTaskTimer) (t : Time) : State ports :=
  { s with timerExpires := Function.update s.timerExpires port (Function.update (s.timerExpires port) timer t) }

variable (cmdPdTimer : Bool)

/-- How pd_timer_inactive and pd_timer_disable stop a timer that is active. -/
def clrActiveCounted (s : State ports) (port : Fin ports) (timer : PdTaskTimer) : State ports :=
  if s.chkActive port timer then
    let s := s.clrActive port timer
    if cmdPdTimer then { s with count := Function.update s.count port (s.count port - 1) } else s
  else s

def pdTimerInactive (s : State ports) (port : Fin ports) (timer : PdTaskTimer) : State ports :=
  (clrActiveCounted cmdPdTimer s port timer).clrDisabled port timer

def pdTimerIsActive (s : State ports) (port : Fin ports) (timer : PdTaskTimer) : Bool := s.chkActive port timer

def pdTimerIsInactive (s : State ports) (port : Fin ports) (timer : PdTaskTimer) : Bool :=
  !s.chkActive port timer && !s.chkDisabled port timer

def pdTimerInit (s : State ports) (port : Fin ports) : State ports :=
  let s := if cmdPdTimer then { s with count := Function.update s.count port 0 } else s
  (List.finRange pdTimerCount).foldl (fun s bit => (s.clrActive port bit).setDisabled port bit) s

def pdTimerEnable (s : State ports) (port : Fin ports) (timer : PdTaskTimer) (expiresUs : BitVec 32) (now : Time) :
    State ports :=
  let s :=
    if s.chkActive port timer then s
    else
      let s := s.setActive port timer
      if cmdPdTimer then s.setCount port (s.count port + 1) else s
  (s.clrDisabled port timer).setExpires port timer (now + expiresUs.setWidth 64)

def pdTimerDisable (s : State ports) (port : Fin ports) (timer : PdTaskTimer) : State ports :=
  (clrActiveCounted cmdPdTimer s port timer).setDisabled port timer

def pdTimerDisableRange (s : State ports) (port : Fin ports) (range : PdTimerRange) : State ports :=
  range.timers.foldl (fun s timer => pdTimerDisable cmdPdTimer s port timer) s

def pdTimerIsDisabled (s : State ports) (port : Fin ports) (timer : PdTaskTimer) : Bool := s.chkDisabled port timer

def pdTimerIsExpired (s : State ports) (port : Fin ports) (timer : PdTaskTimer) (now : Time) : Bool × State ports :=
  if pdTimerIsActive s port timer then
    if s.timerExpires port timer ≤ now then (true, pdTimerInactive cmdPdTimer s port timer) else (false, s)
  else (pdTimerIsInactive s port timer, s)

/-- One turn of the loop of pd_timer_manage_expired. -/
def manageExpired (port : Fin ports) (now : PdTaskTimer → Time) (s : State ports) (timer : PdTaskTimer) : State ports :=
  if pdTimerIsActive s port timer then
    let r := pdTimerIsExpired cmdPdTimer s port timer (now timer)
    if r.1 then pdTimerInactive cmdPdTimer r.2 port timer else r.2
  else s

/-- `now timer` is the time that pd_timer_is_expired reads for a timer. -/
def pdTimerManageExpired (s : State ports) (port : Fin ports) (now : PdTaskTimer → Time) : State ports :=
  (List.finRange pdTimerCount).foldl (manageExpired cmdPdTimer port now) s

/-- The loop of pd_timer_next_expiration. The difference is cut down to an int. -/
def nextExpiration (s : State ports) (port : Fin ports) (now : Time) : List PdTaskTimer → Int → Int
  | [], retValue => retValue
  | timer :: rest, retValue =>
    if pdTimerIsActive s port timer then
      let tValue := s.timerExpires port timer
      if tValue ≤ now then expireNow
      else
        let delta := ((tValue - now).setWidth 32).toInt
        nextExpiration s port now rest (if delta < retValue then delta else retValue)
    else nextExpiration s port now rest retValue

def pdTimerNextExpiration (s : State ports) (port : Fin ports) (now : Time) : Int :=
  let retValue := nextExpiration s port now (List.finRange pdTimerCount) maxExpire
  if retValue = maxExpire then noTimeout else retValue

/-! ## One timer

Every function changes the views of some timers, each on its own, and what it answers is a
function of views. -/

structure Timer where
  active : Bool
  disabled : Bool
  expires : Time
  deriving DecidableEq

def view (s : State ports) (port : Fin ports) (timer : PdTaskTimer) : Timer where
  active := s.chkActive port timer
  disabled := s.chkDisabled port timer
  expires := s.timerExpires port timer

/-- A timer that is looked at when its time is over stops being active. -/
def Timer.poll (v : Timer) (now : Time) : Timer :=
  if v.active ∧ v.expires ≤ now then { v with active := false, disabled := false } else v

def Timer.off (v : Timer) : Timer := { v with active := false, disabled := true }

/-- From one state to the other one timer changes, by `f`. -/
def Updates (port : Fin ports) (timer : PdTaskTimer) (f : Timer → Timer) (s s' : State ports) : Prop :=
  ∀ q u, view s' q u = if q = port ∧ u = timer then f (view s q u) else view s q u

section Updates

variable {cmdPdTimer} {port q : Fin ports} {timer u : PdTaskTimer} {f g : Timer → Timer} {s s' s'' : State ports}

theorem Updates.intro (hself : view s' port timer = f (view s port timer))
    (hother : ∀ q u, ¬(port = q ∧ timer = u) → view s' q u = view s q u) : Updates port timer f s s' := by
  intro q u
  by_cases hsame : q = port ∧ u = timer
  · obtain ⟨rfl, rfl⟩ := hsame
    rw [if_pos ⟨rfl, rfl⟩, hself]
  · rw [if_neg hsame]
    exact hother q u fun h => hsame ⟨h.1.symm, h.2.symm⟩

theorem Updates.trans (h : Updates port timer f s s') (h' : Updates port timer g s' s'') :
    Updates port timer (fun v => g (f v)) s s'' := by
  apply Updates.intro
  · rw [h' port timer, h port timer]
    simp
  · intro q u hne
    have hne' : ¬(q = port ∧ u = timer) := fun h => hne ⟨h.1.symm, h.2.symm⟩
    rw [h' q u, h q u, if_neg hne', if_neg hne']

theorem Updates.congr (h : Updates port timer f s s') (heq : f (view s port timer) = g (view s port timer)) :
    Updates port timer g s s' := by
  intro q u
  rw [h q u]
  split
  case isTrue hsame =>
    obtain ⟨rfl, rfl⟩ := hsame
    exact heq
  case isFalse => rfl

theorem Updates.refl : Updates port timer (fun v => v) s s := .intro rfl fun _ _ _ => rfl

/-! ### The bits -/

theorem updates_setActive : Updates port timer (fun v => { v with active := true }) s (s.setActive port timer) := by
  apply Updates.intro
  · simp [view, State.setActive, State.chkActive, State.chkDisabled, Bitmap.test_set]
  · intro q u hne
    simp [view, State.setActive, State.chkActive, State.chkDisabled, Bitmap.test_set, Bitmap.cell_inj, hne]

theorem updates_clrActive : Updates port timer (fun v => { v with active := false }) s (s.clrActive port timer) := by
  apply Updates.intro
  · simp [view, State.clrActive, State.chkActive, State.chkDisabled, Bitmap.test_clear]
  · intro q u hne
    simp [view, State.clrActive, State.chkActive, State.chkDisabled, Bitmap.test_clear, Bitmap.cell_inj, hne]

theorem updates_setDisabled : Updates port timer (fun v => { v with disabled := true }) s (s.setDisabled port timer) := by
  apply Updates.intro
  · simp [view, State.setDisabled, State.chkActive, State.chkDisabled, Bitmap.test_set]
  · intro q u hne
    simp [view, State.setDisabled, State.chkActive, State.chkDisabled, Bitmap.test_set, Bitmap.cell_inj, hne]

theorem updates_clrDisabled :
    Updates port timer (fun v => { v with disabled := false }) s (s.clrDisabled port timer) := by
  apply Updates.intro
  · simp [view, State.clrDisabled, State.chkActive, State.chkDisabled, Bitmap.test_clear]
  · intro q u hne
    simp [view, State.clrDisabled, State.chkActive, State.chkDisabled, Bitmap.test_clear, Bitmap.cell_inj, hne]

theorem updates_setExpires (t : Time) :
    Updates port timer (fun v => { v with expires := t }) s (s.setExpires port timer t) := by
  apply Updates.intro
  · simp [view, State.setExpires, State.chkActive, State.chkDisabled]
  · intro q u hne
    have hexpires : (s.setExpires port timer t).timerExpires q u = s.timerExpires q u := by
      unfold State.setExpires
      dsimp only
      by_cases hport : port = q
      · subst hport
        have htimer : u ≠ timer := fun h => hne ⟨rfl, h.symm⟩
        rw [Function.update_self, Function.update_of_ne htimer]
      · rw [Function.update_of_ne (Ne.symm hport)]
    unfold view
    rw [hexpires]
    rfl

/-! ### The functions -/

theorem updates_clrActiveCounted :
    Updates port timer (fun v => { v with active := false }) s (clrActiveCounted cmdPdTimer s port timer) := by
  unfold clrActiveCounted
  split
  · cases cmdPdTimer
    · exact updates_clrActive
    · exact updates_clrActive
  case isFalse hactive =>
    have hinactive : (view s port timer).active = false := Bool.not_eq_true _ ▸ hactive
    exact Updates.refl.congr (by rw [← hinactive])

theorem updates_pdTimerInactive :
    Updates port timer (fun v => { v with active := false, disabled := false }) s
      (pdTimerInactive cmdPdTimer s port timer) :=
  updates_clrActiveCounted.trans updates_clrDisabled

theorem updates_pdTimerDisable :
    Updates port timer Timer.off s (pdTimerDisable cmdPdTimer s port timer) :=
  updates_clrActiveCounted.trans updates_setDisabled

theorem updates_pdTimerEnable {expiresUs : BitVec 32} {now : Time} :
    Updates port timer (fun _ => ⟨true, false, now + expiresUs.setWidth 64⟩) s
      (pdTimerEnable cmdPdTimer s port timer expiresUs now) := by
  have hactive : Updates port timer (fun v => { v with active := true }) s
      (if s.chkActive port timer then s
        else if cmdPdTimer then (s.setActive port timer).setCount port ((s.setActive port timer).count port + 1)
          else s.setActive port timer) := by
    split
    case isTrue hset =>
      have hset' : (view s port timer).active = true := hset
      exact Updates.refl.congr (by rw [← hset'])
    · cases cmdPdTimer
      · exact updates_setActive
      · exact updates_setActive
  exact (hactive.trans updates_clrDisabled).trans (updates_setExpires _)

theorem updates_pdTimerIsExpired {now : Time} :
    Updates port timer (fun v => v.poll now) s (pdTimerIsExpired cmdPdTimer s port timer now).2 := by
  unfold pdTimerIsExpired pdTimerIsActive
  split
  case isTrue hactive =>
    split
    case isTrue hover =>
      exact updates_pdTimerInactive.congr (by simp [Timer.poll, view, hactive, hover])
    case isFalse hover =>
      exact Updates.refl.congr (by simp [Timer.poll, view, hover])
  case isFalse hactive =>
    exact Updates.refl.congr (by simp [Timer.poll, view, hactive])

theorem updates_manageExpired {now : PdTaskTimer → Time} :
    Updates port timer (fun v => v.poll (now timer)) s (manageExpired cmdPdTimer port now s timer) := by
  unfold manageExpired
  split
  case isTrue hactive =>
    dsimp only
    have hpoll : Updates port timer (fun v => v.poll (now timer)) s
        (pdTimerIsExpired cmdPdTimer s port timer (now timer)).2 := updates_pdTimerIsExpired
    split
    case isTrue hexpired =>
      -- it is inactive already
      apply (hpoll.trans updates_pdTimerInactive).congr
      have hover : (view s port timer).expires ≤ now timer := by
        unfold pdTimerIsExpired at hexpired
        rw [if_pos hactive] at hexpired
        split at hexpired
        · assumption
        · cases hexpired
      have hset : (view s port timer).active = true := hactive
      simp [Timer.poll, hset, hover]
    case isFalse => exact hpoll
  case isFalse hactive =>
    have hinactive : (view s port timer).active = false := Bool.not_eq_true _ ▸ hactive
    exact Updates.refl.congr (by simp [Timer.poll, hinactive])

theorem view_foldl {step : State ports → PdTaskTimer → State ports} {g : PdTaskTimer → Timer → Timer}
    (hstep : ∀ s t, Updates port t (g t) s (step s t)) {timers : List PdTaskTimer} (hnodup : timers.Nodup) :
    view (timers.foldl step s) q u = if q = port ∧ u ∈ timers then g u (view s q u) else view s q u := by
  induction timers generalizing s with
  | nil => simp
  | cons t rest ih =>
    obtain ⟨hnotin, hrest⟩ := List.nodup_cons.mp hnodup
    rw [List.foldl_cons, ih hrest, hstep s t q u]
    by_cases hport : q = port
    · obtain rfl | hne := eq_or_ne u t
      · simp [hport, hnotin]
      · simp [hport, hne]
    · simp [hport]

theorem view_pdTimerInit :
    view (pdTimerInit cmdPdTimer s port) q u = if q = port then (view s q u).off else view s q u := by
  have hstep : ∀ (s : State ports) t, Updates port t Timer.off s ((s.clrActive port t).setDisabled port t) :=
    fun s t => updates_clrActive.trans updates_setDisabled
  unfold pdTimerInit
  rw [view_foldl (g := fun _ => Timer.off) hstep (List.nodup_finRange _)]
  cases cmdPdTimer
  · simp
  · simp [view, State.chkActive, State.chkDisabled]

theorem view_pdTimerDisableRange {range : PdTimerRange} :
    view (pdTimerDisableRange cmdPdTimer s port range) q u =
      if q = port ∧ u ∈ range.timers then (view s q u).off else view s q u :=
  view_foldl (fun _ _ => updates_pdTimerDisable) ((List.nodup_finRange _).filter _)

theorem view_pdTimerManageExpired {now : PdTaskTimer → Time} :
    view (pdTimerManageExpired cmdPdTimer s port now) q u =
      if q = port then (view s q u).poll (now u) else view s q u := by
  unfold pdTimerManageExpired
  rw [view_foldl (g := fun t v => v.poll (now t)) (fun _ _ => updates_manageExpired) (List.nodup_finRange _)]
  simp

end Updates

end ChromeEc.PdTimer
