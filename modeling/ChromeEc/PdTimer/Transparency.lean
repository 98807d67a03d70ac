import ChromeEc.Lib.Steps
import ChromeEc.PdTimer.Model
import Mathlib.Order.MinMax

/- Runs of the functions of common/usbc/usb_pd_timer.c at times that do not go back.

  Any task may call any function for any port. Sums of times are 64 bit words as in the source.

  What is proved (`pdTimers_transparent`): what a timer answers depends on the last
  pd_timer_init, pd_timer_enable or pd_timer_disable of it alone (`Tracks`), however often
  timers are looked at, and pd_timer_next_expiration is the smallest time that remains to an
  active timer of the port. Before pd_timer_init a timer is not disabled and counts as expired. -/
namespace ChromeEc.PdTimer
open Lib Steps

variable {ports : Nat}

inductive Action (ports : Nat) where
  | init (port : Fin ports)
  | enable (port : Fin ports) (timer : PdTaskTimer) (expiresUs : BitVec 32) (now : Time)
  | disable (port : Fin ports) (timer : PdTaskTimer)
  | disableRange (port : Fin ports) (range : PdTimerRange)
  | isDisabled (port : Fin ports) (timer : PdTaskTimer)
  | isExpired (port : Fin ports) (timer : PdTaskTimer) (now : Time)
  | manageExpired (port : Fin ports) (now : PdTaskTimer → Time)
  | nextExpiration (port : Fin ports) (now : Time)

structure System (ports : Nat) where
  timers : State ports
  /-- The last time that was read. -/
  clock : Time

def start (ports : Nat) : System ports where
  timers := boot ports
  clock := 0

variable (cmdPdTimer : Bool)

def step (a : Action ports) (s : System ports) : Option (System ports) :=
  match a with
  | .init port => some { s with timers := pdTimerInit cmdPdTimer s.timers port }
  | .enable port timer expiresUs now =>
    if s.clock ≤ now then some ⟨pdTimerEnable cmdPdTimer s.timers port timer expiresUs now, now⟩ else none
  | .disable port timer => some { s with timers := pdTimerDisable cmdPdTimer s.timers port timer }
  | .disableRange port range => some { s with timers := pdTimerDisableRange cmdPdTimer s.timers port range }
  | .isDisabled _ _ => some s
  | .isExpired port timer now =>
    if s.clock ≤ now then some ⟨(pdTimerIsExpired cmdPdTimer s.timers port timer now).2, now⟩ else none
  | .manageExpired port now =>
    if (∀ t, s.clock ≤ now t) ∧ ∀ t u, t ≤ u → now t ≤ now u then
      some ⟨pdTimerManageExpired cmdPdTimer s.timers port now, now (Fin.last 36)⟩
    else none
  | .nextExpiration _ now => if s.clock ≤ now then some { s with clock := now } else none

/-! ## What a timer was set to -/

inductive Setting where
  /-- pd_timer_init or pd_timer_disable -/
  | off
  | enabled (since : Time) (expiresUs : BitVec 32)
  deriving DecidableEq

def deadline (since : Time) (expiresUs : BitVec 32) : Time := since + expiresUs.setWidth 64

def remaining (since : Time) (expiresUs : BitVec 32) (now : Time) : Nat := (deadline since expiresUs).toNat - now.toNat

def Action.setting (port : Fin ports) (timer : PdTaskTimer) : Action ports → Option Setting
  | .init p => if port = p then some .off else none
  | .enable p t expiresUs now => if port = p ∧ timer = t then some (.enabled now expiresUs) else none
  | .disable p t => if port = p ∧ timer = t then some .off else none
  | .disableRange p range => if port = p ∧ timer ∈ range.timers then some .off else none
  | _ => none

abbrev Settings (ports : Nat) := Fin ports → PdTaskTimer → Option Setting

def record (a : Action ports) (last : Settings ports) : Settings ports :=
  fun port timer => (a.setting port timer).or (last port timer)

def settings (l : List (System ports × Action ports)) : Settings ports :=
  l.foldl (fun last x => record x.2 last) fun _ _ => none

/-- What a timer looks like at a time, by what it was set to last. -/
inductive Tracks (clock : Time) : Timer → Option Setting → Prop where
  | never (t : Time) : Tracks clock ⟨false, false, t⟩ none
  | off (t : Time) : Tracks clock ⟨false, true, t⟩ (some .off)
  | running {since : Time} {expiresUs : BitVec 32} (hsince : since ≤ clock) :
    Tracks clock ⟨true, false, deadline since expiresUs⟩ (some (.enabled since expiresUs))
  | ended {since : Time} {expiresUs : BitVec 32} (hover : deadline since expiresUs ≤ clock) (t : Time) :
    Tracks clock ⟨false, false, t⟩ (some (.enabled since expiresUs))

variable {cmdPdTimer} {clock now : Time} {v : Timer} {x : Option Setting} {s s' : System ports}
  {l : List (System ports × Action ports)}

theorem Tracks.mono (h : Tracks clock v x) (hle : clock ≤ now) : Tracks now v x := by
  cases h with
  | never t => exact .never t
  | off t => exact .off t
  | running hsince => exact .running (BitVec.le_trans hsince hle)
  | ended hover t => exact .ended (BitVec.le_trans hover hle) t

theorem Tracks.poll (h : Tracks clock v x) (hle : clock ≤ now) : Tracks now (v.poll now) x := by
  cases h with
  | never t => exact .never t
  | off t => exact .off t
  | ended hover t => exact .ended (BitVec.le_trans hover hle) t
  | @running since expiresUs hsince =>
    by_cases hover : deadline since expiresUs ≤ now
    · have hpoll : Timer.poll ⟨true, false, deadline since expiresUs⟩ now = ⟨false, false, deadline since expiresUs⟩ := by
        simp [Timer.poll, hover]
      rw [hpoll]
      exact .ended hover _
    · have hpoll : Timer.poll ⟨true, false, deadline since expiresUs⟩ now = ⟨true, false, deadline since expiresUs⟩ := by
        simp [Timer.poll, hover]
      rw [hpoll]
      exact .running (BitVec.le_trans hsince hle)

/-! ## Calls -/

/-- What a call does to a timer, by what it sets the timer to. -/
inductive Moves (clock clock' : Time) (v : Timer) : Option Setting → Timer → Prop where
  | off : Moves clock clock' v (some .off) v.off
  | enabled {since : Time} (expiresUs : BitVec 32) (hsince : since ≤ clock') :
    Moves clock clock' v (some (.enabled since expiresUs)) ⟨true, false, deadline since expiresUs⟩
  | polled {now : Time} (hafter : clock ≤ now) (hbefore : now ≤ clock') : Moves clock clock' v none (v.poll now)
  | same : Moves clock clock' v none v

theorem Tracks.moves {clock' : Time} {v' : Timer} {y : Option Setting} (h : Tracks clock v x) (hle : clock ≤ clock')
    (hmoves : Moves clock clock' v y v') : Tracks clock' v' (y.or x) := by
  cases hmoves with
  | off => exact .off _
  | enabled expiresUs hsince => exact .running hsince
  | polled hafter hbefore => exact (h.poll hafter).mono hbefore
  | same => exact h.mono hle

theorem step_moves {a : Action ports} (hstep : step cmdPdTimer a s = some s') :
    s.clock ≤ s'.clock ∧
      ∀ port timer, Moves s.clock s'.clock (view s.timers port timer) (a.setting port timer)
        (view s'.timers port timer) := by
  cases a with
  | init port =>
    obtain rfl := Option.some.inj hstep
    refine ⟨BitVec.le_refl _, fun q u => ?_⟩
    dsimp only [Action.setting]
    rw [view_pdTimerInit]
    split
    · exact .off
    · exact .same
  | enable port timer expiresUs now =>
    dsimp only [step] at hstep
    split at hstep
    case isFalse => cases hstep
    case isTrue hle =>
      obtain rfl := Option.some.inj hstep
      refine ⟨hle, fun q u => ?_⟩
      dsimp only [Action.setting]
      rw [updates_pdTimerEnable q u]
      split
      · exact .enabled expiresUs (BitVec.le_refl now)
      · exact .same
  | disable port timer =>
    obtain rfl := Option.some.inj hstep
    refine ⟨BitVec.le_refl _, fun q u => ?_⟩
    dsimp only [Action.setting]
    rw [updates_pdTimerDisable q u]
    split
    · exact .off
    · exact .same
  | disableRange port range =>
    obtain rfl := Option.some.inj hstep
    refine ⟨BitVec.le_refl _, fun q u => ?_⟩
    dsimp only [Action.setting]
    rw [view_pdTimerDisableRange]
    split
    · exact .off
    · exact .same
  | isDisabled port timer =>
    obtain rfl := Option.some.inj hstep
    exact ⟨BitVec.le_refl _, fun q u => .same⟩
  | isExpired port timer now =>
    dsimp only [step] at hstep
    split at hstep
    case isFalse => cases hstep
    case isTrue hle =>
      obtain rfl := Option.some.inj hstep
      refine ⟨hle, fun q u => ?_⟩
      dsimp only [Action.setting]
      rw [updates_pdTimerIsExpired q u]
      split
      · exact .polled hle (BitVec.le_refl now)
      · exact .same
  | manageExpired port now =>
    dsimp only [step] at hstep
    split at hstep
    case isFalse => cases hstep
    case isTrue htimes =>
      obtain rfl := Option.some.inj hstep
      refine ⟨htimes.1 _, fun q u => ?_⟩
      dsimp only [Action.setting]
      rw [view_pdTimerManageExpired]
      split
      · exact .polled (htimes.1 u) (htimes.2 u (Fin.last 36) (Fin.le_last u))
      · exact .same
  | nextExpiration port now =>
    dsimp only [step] at hstep
    split at hstep
    case isFalse => cases hstep
    case isTrue hle =>
      obtain rfl := Option.some.inj hstep
      exact ⟨hle, fun q u => .same⟩

/-! ## Runs -/

def Agrees (s : System ports) (last : Settings ports) : Prop :=
  ∀ port timer, Tracks s.clock (view s.timers port timer) (last port timer)

variable {a : Action ports} {last : Settings ports}

theorem agrees_step (h : Agrees s last) (hstep : step cmdPdTimer a s = some s') : Agrees s' (record a last) := by
  obtain ⟨hclock, hmoves⟩ := step_moves hstep
  exact fun port timer => (h port timer).moves hclock (hmoves port timer)

theorem agrees_run (h : Run (step cmdPdTimer) (start ports) l s) : Agrees s (settings l) := by
  have hstart : Agrees (start ports) fun _ _ => none := by
    intro port timer
    have hview : view (start ports).timers port timer = ⟨false, false, 0⟩ := by
      simp [view, start, boot, State.chkActive, State.chkDisabled, Bitmap.test_empty]
    rw [hview]
    exact .never 0
  have hok : ∀ x ∈ l, (fun _ : System ports × Action ports => True) x := fun _ _ => trivial
  exact h.refines hstart (fun _ _ _ _ hagrees _ hstep => agrees_step hagrees hstep) hok

def Action.expiresUs : Action ports → BitVec 32
  | .enable _ _ expiresUs _ => expiresUs
  | _ => 0

/-- A timer is enabled for less than MAX_EXPIRE. -/
def Allowed (x : System ports × Action ports) : Prop := x.2.expiresUs.toNat < 0x7FFFFFFF

instance (x : System ports × Action ports) : Decidable (Allowed x) :=
  inferInstanceAs (Decidable (x.2.expiresUs.toNat < 0x7FFFFFFF))

/-- The times that timers were enabled for are allowed. -/
def Bounded (last : Settings ports) : Prop :=
  ∀ port timer since expiresUs, last port timer = some (.enabled since expiresUs) → expiresUs.toNat < 0x7FFFFFFF

theorem bounded_record (h : Bounded last) (hok : Allowed (s, a)) : Bounded (record a last) := by
  intro port timer since expiresUs heq
  unfold record at heq
  obtain hset | ⟨-, hbefore⟩ := Option.or_eq_some_iff.mp heq
  · unfold Action.setting at hset
    split at hset
    case h_2 p t e n _ =>
      split at hset
      · cases hset
        exact hok
      · cases hset
    case h_5 => cases hset
    all_goals
      split at hset
      · cases hset
      · cases hset
  · exact h port timer since expiresUs hbefore

theorem bounded_run (h : Run (step cmdPdTimer) (start ports) l s) (hok : ∀ x ∈ l, Allowed x) : Bounded (settings l) := by
  have hstart : Bounded (fun _ _ => none : Settings ports) := by
    intro port timer since expiresUs heq
    cases heq
  exact h.refines (R := fun _ last => Bounded last) hstart
    (fun _ _ _ _ hbounded hallowed _ => bounded_record hbounded hallowed) hok

/-! ## Answers -/

/-- What pd_timer_is_expired answers. -/
def Timer.expired (v : Timer) (now : Time) : Bool := if v.active then decide (v.expires ≤ now) else !v.disabled

variable {t : State ports} {port : Fin ports} {timer : PdTaskTimer}

theorem pdTimerIsExpired_eq : (pdTimerIsExpired cmdPdTimer t port timer now).1 = (view t port timer).expired now := by
  unfold pdTimerIsExpired pdTimerIsActive pdTimerIsInactive Timer.expired view
  dsimp only
  split
  · split
    case isTrue hover => simp [hover]
    case isFalse hover => simp [hover]
  case isFalse hactive => simp [hactive]

theorem Tracks.expired_iff {y : Setting} (h : Tracks clock v (some y)) (hle : clock ≤ now) :
    v.expired now = true ↔ ∃ since expiresUs, y = .enabled since expiresUs ∧ deadline since expiresUs ≤ now := by
  cases h with
  | off t => simp [Timer.expired]
  | running hsince => simp [Timer.expired]
  | ended hover t => simpa [Timer.expired] using BitVec.le_trans hover hle

theorem expired_poll {time : Time} (hle : time ≤ now) : (v.poll time).expired now = v.expired now := by
  unfold Timer.poll
  split
  case isTrue hover => simp [Timer.expired, hover.1, BitVec.le_trans hover.2 hle]
  case isFalse => rfl

theorem disabled_poll {time : Time} (hexclusive : v.active = true → v.disabled = false) :
    (v.poll time).disabled = v.disabled := by
  unfold Timer.poll
  split
  case isTrue hover => exact (hexclusive hover.1).symm
  case isFalse => rfl

theorem Tracks.exclusive (h : Tracks clock v x) (hactive : v.active = true) : v.disabled = false := by
  cases h with
  | off t => cases hactive
  | never t => rfl
  | running hsince => rfl
  | ended hover t => rfl

/-! ## The next expiration -/

/-- What remains of a timer, 0 if it is over. -/
def Timer.left (v : Timer) (now : Time) : Nat := v.expires.toNat - now.toNat

/-- A timer that was enabled is not further away than an int can say. -/
theorem left_lt (hagrees : Tracks clock v x) (hactive : v.active = true)
    (hbounded : ∀ since expiresUs, x = some (.enabled since expiresUs) → expiresUs.toNat < 0x7FFFFFFF)
    (hle : clock ≤ now) : v.left now < 0x7FFFFFFF := by
  cases hagrees with
  | never t => cases hactive
  | off t => cases hactive
  | ended hover t => cases hactive
  | @running since expiresUs hsince =>
    have hexp : expiresUs.toNat < 0x7FFFFFFF := hbounded since expiresUs rfl
    have hsum : (deadline since expiresUs).toNat ≤ since.toNat + expiresUs.toNat := by
      unfold deadline
      rw [BitVec.toNat_add, BitVec.toNat_setWidth, Nat.mod_eq_of_lt (Nat.lt_trans hexp (by decide))]
      exact Nat.mod_le _ _
    have hnow : since.toNat ≤ now.toNat := BitVec.le_trans hsince hle
    unfold Timer.left
    dsimp only
    omega

theorem delta_eq {a b : Time} (hlt : ¬a ≤ b) (hnear : a.toNat - b.toNat < 0x7FFFFFFF) :
    ((a - b).setWidth 32).toInt = ((a.toNat - b.toNat : Nat) : Int) := by
  have hle : b.toNat ≤ a.toNat := Nat.le_of_lt (Nat.lt_of_not_le hlt)
  have hdiff : ((a - b).setWidth 32).toNat = a.toNat - b.toNat := by
    rw [BitVec.toNat_setWidth, BitVec.toNat_sub_of_le (BitVec.le_def.mpr hle),
      Nat.mod_eq_of_lt (Nat.lt_trans hnear (by decide))]
  rw [BitVec.toInt_eq_toNat_of_lt (by rw [hdiff]; omega), hdiff]

/-- The loop finds the smallest of what it starts with and what remains to the active timers. -/
theorem nextExpiration_least (hnear : ∀ timer, (view t port timer).active = true →
    (view t port timer).left now < 0x7FFFFFFF)
    (timers : List PdTaskTimer) (r : Int) (hr : 0 ≤ r) :
    nextExpiration t port now timers r ≤ r ∧
      (∀ u ∈ timers, (view t port u).active = true → nextExpiration t port now timers r ≤ (view t port u).left now) ∧
      (nextExpiration t port now timers r = r ∨
        ∃ u ∈ timers, (view t port u).active = true ∧ nextExpiration t port now timers r = (view t port u).left now) := by
  induction timers generalizing r with
  | nil => exact ⟨le_refl r, by simp, .inl rfl⟩
  | cons timer rest ih =>
    rw [nextExpiration]
    split
    case isFalse hactive =>
      obtain ⟨hle, hall, hattained⟩ := ih r hr
      refine ⟨hle, ?_, ?_⟩
      · intro u hu hset
        obtain rfl | hin := List.mem_cons.mp hu
        · exact absurd hset hactive
        · exact hall u hin hset
      · obtain heq | ⟨u, hu, hset, heq⟩ := hattained
        · exact .inl heq
        · exact .inr ⟨u, List.mem_cons_of_mem _ hu, hset, heq⟩
    case isTrue hactive =>
      have hset : (view t port timer).active = true := hactive
      dsimp only
      split
      case isTrue hover =>
        -- nothing remains of this timer, and nothing can be less
        have hleft : (view t port timer).left now = 0 := Nat.sub_eq_zero_of_le hover
        refine ⟨hr, fun u _ _ => Int.natCast_nonneg _, .inr ⟨timer, List.mem_cons_self, hset, ?_⟩⟩
        rw [hleft]
        rfl
      case isFalse hover =>
        have hdelta : ((t.timerExpires port timer - now).setWidth 32).toInt = ((view t port timer).left now : Int) :=
          delta_eq hover (hnear timer hset)
        rw [hdelta]
        have hmin : ∀ d : Int, (if d < r then d else r) = min d r := by
          intro d
          rw [min_def]
          split <;> split <;> omega
        rw [hmin]
        obtain ⟨hle, hall, hattained⟩ := ih (min ((view t port timer).left now : Int) r) (le_min (Int.natCast_nonneg _) hr)
        refine ⟨le_trans hle (min_le_right _ _), ?_, ?_⟩
        · intro u hu hset'
          obtain rfl | hin := List.mem_cons.mp hu
          · exact le_trans hle (min_le_left _ _)
          · exact hall u hin hset'
        · obtain heq | ⟨u, hu, hset', heq⟩ := hattained
          · obtain hfirst | hsecond := min_choice ((view t port timer).left now : Int) r
            · exact .inr ⟨timer, List.mem_cons_self, hset, heq.trans hfirst⟩
            · exact .inl (heq.trans hsecond)
          · exact .inr ⟨u, List.mem_cons_of_mem _ hu, hset', heq⟩

theorem pdTimerNextExpiration_spec
    (hnear : ∀ timer, (view t port timer).active = true → (view t port timer).left now < 0x7FFFFFFF) :
    (pdTimerNextExpiration t port now = -1 ∧ ∀ timer, (view t port timer).active = false) ∨
      ∃ timer, (view t port timer).active = true ∧ pdTimerNextExpiration t port now = (view t port timer).left now ∧
        ∀ u, (view t port u).active = true → pdTimerNextExpiration t port now ≤ (view t port u).left now := by
  obtain ⟨-, hall, hattained⟩ := nextExpiration_least hnear (List.finRange pdTimerCount) maxExpire (by decide)
  unfold pdTimerNextExpiration
  dsimp only
  split
  case isTrue hmax =>
    refine .inl ⟨rfl, fun timer => ?_⟩
    rw [hmax] at hall
    by_contra hset
    have hactive : (view t port timer).active = true := Bool.of_not_eq_false hset
    have hle : (0x7FFFFFFF : Int) ≤ (view t port timer).left now := hall timer (List.mem_finRange timer) hactive
    have hlt := hnear timer hactive
    omega
  case isFalse hmax =>
    obtain heq | ⟨timer, -, hset, heq⟩ := hattained
    · exact absurd heq hmax
    · exact .inr ⟨timer, hset, heq, fun u hu => hall u (List.mem_finRange u) hu⟩

/-! ## Transparency -/

def Action.portOf : Action ports → Fin ports
  | .init port | .enable port _ _ _ | .disable port _ | .disableRange port _ | .isDisabled port _ | .isExpired port _ _
  | .manageExpired port _ | .nextExpiration port _ => port

/-- What the timers answer at any time from now on, by what they were set to last. -/
structure Answers (cmdPdTimer : Bool) (s : System ports) (last : Settings ports) : Prop where
  expired : ∀ port timer y now, last port timer = some y → s.clock ≤ now →
    ((pdTimerIsExpired cmdPdTimer s.timers port timer now).1 = true ↔
      ∃ since expiresUs, y = .enabled since expiresUs ∧ deadline since expiresUs ≤ now)
  exclusive : ∀ port timer, ¬(s.timers.chkActive port timer = true ∧ s.timers.chkDisabled port timer = true)
  /-- A timer that is active was enabled, and one that was enabled is active until it is over. -/
  active : ∀ port timer, pdTimerIsActive s.timers port timer = true →
    ∃ since expiresUs, last port timer = some (.enabled since expiresUs)
  running : ∀ port timer since expiresUs, last port timer = some (.enabled since expiresUs) →
    s.clock < deadline since expiresUs → pdTimerIsActive s.timers port timer = true
  noTimer : ∀ port now, s.clock ≤ now →
    (pdTimerNextExpiration s.timers port now = -1 ↔ ∀ timer, pdTimerIsActive s.timers port timer = false)
  least : ∀ port now, s.clock ≤ now → ∀ timer since expiresUs, pdTimerIsActive s.timers port timer = true →
    last port timer = some (.enabled since expiresUs) →
      pdTimerNextExpiration s.timers port now ≤ remaining since expiresUs now
  attained : ∀ port now, s.clock ≤ now → (∃ timer, pdTimerIsActive s.timers port timer = true) →
    ∃ timer since expiresUs, pdTimerIsActive s.timers port timer = true ∧
      last port timer = some (.enabled since expiresUs) ∧
      pdTimerNextExpiration s.timers port now = remaining since expiresUs now

/-- A call changes no answer of a timer that it does not affect, nor of another port. -/
structure Isolated (cmdPdTimer : Bool) (a : Action ports) (s s' : System ports) : Prop where
  disabled : ∀ port timer, a.setting port timer = none →
    pdTimerIsDisabled s'.timers port timer = pdTimerIsDisabled s.timers port timer
  expired : ∀ port timer now, a.setting port timer = none → s'.clock ≤ now →
    (pdTimerIsExpired cmdPdTimer s'.timers port timer now).1 = (pdTimerIsExpired cmdPdTimer s.timers port timer now).1
  nextExpiration : ∀ port now, port ≠ a.portOf →
    pdTimerNextExpiration s'.timers port now = pdTimerNextExpiration s.timers port now

theorem Tracks.active_iff {y : Option Setting} (h : Tracks clock v y) (hactive : v.active = true) :
    ∃ since expiresUs, y = some (.enabled since expiresUs) ∧ v.expires = deadline since expiresUs := by
  cases h with
  | never t => cases hactive
  | off t => cases hactive
  | ended hover t => cases hactive
  | @running since expiresUs hsince => exact ⟨since, expiresUs, rfl, rfl⟩

theorem Tracks.left_eq {since : Time} {expiresUs : BitVec 32} (h : Tracks clock v (some (.enabled since expiresUs)))
    (hactive : v.active = true) : v.left now = remaining since expiresUs now := by
  cases h with
  | running hsince => rfl
  | ended hover t => cases hactive

theorem answers_of_agrees {last : Settings ports} (h : Agrees s last) (hbounded : Bounded last) :
    Answers cmdPdTimer s last := by
  have hnear : ∀ port now, s.clock ≤ now → ∀ timer, (view s.timers port timer).active = true →
      (view s.timers port timer).left now < 0x7FFFFFFF := by
    intro port now hle timer hactive
    exact left_lt (h port timer) hactive (hbounded port timer) hle
  refine ⟨?_, ?_, ?_, ?_, ?_, ?_, ?_⟩
  · intro port timer y now hlast hle
    have htracks := h port timer
    rw [hlast] at htracks
    rw [pdTimerIsExpired_eq]
    exact htracks.expired_iff hle
  · rintro port timer ⟨hactive, hdisabled⟩
    have hnot : s.timers.chkDisabled port timer = false := (h port timer).exclusive hactive
    exact Bool.noConfusion (hnot.symm.trans hdisabled)
  · intro port timer hactive
    obtain ⟨since, expiresUs, hlast, -⟩ := (h port timer).active_iff hactive
    exact ⟨since, expiresUs, hlast⟩
  · intro port timer since expiresUs hlast hlt
    have htracks := h port timer
    rw [hlast] at htracks
    show (view s.timers port timer).active = true
    generalize view s.timers port timer = v at htracks
    cases htracks with
    | running hsince => rfl
    | ended hover t => exact absurd hlt (BitVec.not_lt.mpr hover)
  · intro port now hle
    obtain ⟨heq, hall⟩ | ⟨timer, hactive, heq, -⟩ := pdTimerNextExpiration_spec (hnear port now hle)
    · exact ⟨fun _ => hall, fun _ => heq⟩
    · constructor
      · intro hnone
        omega
      · intro hall
        exact Bool.noConfusion ((hall timer).symm.trans hactive)
  · intro port now hle timer since expiresUs hactive hlast
    have htracks := h port timer
    rw [hlast] at htracks
    rw [← htracks.left_eq hactive]
    obtain ⟨-, hall⟩ | ⟨u, hset, heq, hall⟩ := pdTimerNextExpiration_spec (hnear port now hle)
    · exact Bool.noConfusion ((hall timer).symm.trans hactive)
    · exact hall timer hactive
  · rintro port now hle ⟨timer, hactive⟩
    obtain ⟨-, hall⟩ | ⟨u, hset, heq, -⟩ := pdTimerNextExpiration_spec (hnear port now hle)
    · exact Bool.noConfusion ((hall timer).symm.trans hactive)
    · obtain ⟨since, expiresUs, hlast, -⟩ := (h port u).active_iff hset
      have htracks := h port u
      rw [hlast] at htracks
      rw [htracks.left_eq hset] at heq
      exact ⟨u, since, expiresUs, hset, hlast, heq⟩

theorem nextExpiration_congr {t t' : State ports} (h : ∀ timer, view t' port timer = view t port timer)
    (timers : List PdTaskTimer) (r : Int) : nextExpiration t' port now timers r = nextExpiration t port now timers r := by
  induction timers generalizing r with
  | nil => rfl
  | cons timer rest ih =>
    have hactive : pdTimerIsActive t' port timer = pdTimerIsActive t port timer := congrArg Timer.active (h timer)
    have hexpires : t'.timerExpires port timer = t.timerExpires port timer := congrArg Timer.expires (h timer)
    rw [nextExpiration, nextExpiration, hactive, hexpires, ih]
    simp only [ih]

/-- A call for one port leaves every timer of the others as it is. -/
theorem step_otherPort {a : Action ports} (hstep : step cmdPdTimer a s = some s') (hport : port ≠ a.portOf) :
    view s'.timers port timer = view s.timers port timer := by
  cases a with
  | init p =>
    obtain rfl := Option.some.inj hstep
    exact view_pdTimerInit.trans (if_neg hport)
  | enable p u expiresUs now =>
    dsimp only [step] at hstep
    split at hstep
    · obtain rfl := Option.some.inj hstep
      exact (updates_pdTimerEnable port timer).trans (if_neg fun h => hport h.1)
    · cases hstep
  | disable p u =>
    obtain rfl := Option.some.inj hstep
    exact (updates_pdTimerDisable port timer).trans (if_neg fun h => hport h.1)
  | disableRange p range =>
    obtain rfl := Option.some.inj hstep
    exact view_pdTimerDisableRange.trans (if_neg fun h => hport h.1)
  | isDisabled p u =>
    obtain rfl := Option.some.inj hstep
    rfl
  | isExpired p u now =>
    dsimp only [step] at hstep
    split at hstep
    · obtain rfl := Option.some.inj hstep
      exact (updates_pdTimerIsExpired port timer).trans (if_neg fun h => hport h.1)
    · cases hstep
  | manageExpired p now =>
    dsimp only [step] at hstep
    split at hstep
    · obtain rfl := Option.some.inj hstep
      exact view_pdTimerManageExpired.trans (if_neg hport)
    · cases hstep
  | nextExpiration p now =>
    dsimp only [step] at hstep
    split at hstep
    · obtain rfl := Option.some.inj hstep
      rfl
    · cases hstep

theorem isolated_step {a : Action ports} (hagrees : Agrees s last) (hstep : step cmdPdTimer a s = some s') :
    Isolated cmdPdTimer a s s' := by
  obtain ⟨-, hmoves⟩ := step_moves hstep
  refine ⟨?_, ?_, ?_⟩
  · intro port timer hnone
    have hmove := hmoves port timer
    rw [hnone] at hmove
    show (view s'.timers port timer).disabled = (view s.timers port timer).disabled
    generalize view s'.timers port timer = v' at hmove
    cases hmove with
    | polled hafter hbefore => exact disabled_poll (hagrees port timer).exclusive
    | same => rfl
  · intro port timer now hnone hle
    have hmove := hmoves port timer
    rw [hnone] at hmove
    rw [pdTimerIsExpired_eq, pdTimerIsExpired_eq]
    generalize view s'.timers port timer = v' at hmove
    cases hmove with
    | polled hafter hbefore => exact expired_poll (BitVec.le_trans hbefore hle)
    | same => rfl
  · intro port now hport
    unfold pdTimerNextExpiration
    rw [nextExpiration_congr fun timer => step_otherPort hstep hport]

/-- After any calls at times that do not go back, a timer that was set answers by what it was set to last,
    and the next expiration of a port is the smallest time that remains to an active timer. The next
    call changes no answer but those of the timers that it sets. -/
theorem pdTimers_transparent (cmdPdTimer : Bool) (ports : Nat) (l : List (System ports × Action ports)) (s : System ports)
    (h : Run (step cmdPdTimer) (start ports) l s) (hok : ∀ x ∈ l, Allowed x) :
    Answers cmdPdTimer s (settings l) ∧ ∀ a s', step cmdPdTimer a s = some s' → Isolated cmdPdTimer a s s' :=
  ⟨answers_of_agrees (agrees_run h) (bounded_run h hok), fun _ _ hstep => isolated_step (agrees_run h) hstep⟩

/-- Port 1 has a timer of 100 microseconds, which is looked at when it is over. -/
def oneTimer : List (Action 2) :=
  [.init 1, .enable 1 30 100 10, .isExpired 1 30 50, .nextExpiration 1 60,
    .manageExpired 1 fun _ => 200, .isExpired 1 30 300]

theorem pdTimers_transparent_oneTimer : ∃ l s, Run (step true) (start 2) l s ∧ l.map Prod.snd = oneTimer ∧
    (pdTimerIsExpired true s.timers 1 30 400).1 = true := by
  have hseen : (trace (step true) oneTimer ([], start 2)).any fun r =>
      decide (settings r.1 1 30 = some (.enabled 10 100) ∧ r.2.clock ≤ 400 ∧ ∀ x ∈ r.1, Allowed x) := by decide +kernel
  obtain ⟨l, s, run, hlabels, hlast, hclock, hall⟩ := exists_run hseen
  have hexpired := (pdTimers_transparent true 2 l s run hall).1.expired 1 30 (.enabled 10 100) 400 hlast hclock
  exact ⟨l, s, run, hlabels, hexpired.mpr ⟨10, 100, rfl, by decide⟩⟩

end ChromeEc.PdTimer
