import ChromeEc.Lib.Steps
import Mathlib.Data.BitVec

/- VDMs that the AP controls, and the HPD signal that follows from them:
  `common/usbc/ap_vdm_control.c` and `common/usbc/dp_hpd_gpio.c`.

  A port is a state here. A message is its words and how many of them count. The time between
  two pulses of the signal is left out, and so are the events for other tasks and the AP that is
  woken up.

  Correspondence (C ↔ Lean):
    `ap_storage[port]` ↔ `Port`; `hpd` is what the GPIO drives
    `dp_hpd_gpio_set`, `attention_hpd_process`, `ap_vdm_attention_enqueue`, `ap_vdm_attention_pop`,
      `ap_vdm_init`, `ap_vdm_acked`, `ap_vdm_naked` ↔ the same in camelCase

  An observer keeps the levels and interrupts in the messages since the last init, and whether a
  high level came before the first DP:Configure. The signal is right after a DP:Configure unless
  such a level is still remembered although a later message was low, or a message that is low
  with an interrupt was ignored while the signal was high (`Followed`). -/
namespace ChromeEc.ApVdm
open Lib Steps

abbrev Word := BitVec 32

def vdoMaxSize : Nat := 7
def attentionQueueDepth : Nat := 8
def usbSidDisplayport : Word := 0xff01
def cmdDpStatus : Word := 16
def cmdDpConfig : Word := 17

def pdVdoVid (vdo : Word) : Word := vdo >>> 16
def pdVdoSvdm (vdo : Word) : Bool := vdo.getLsbD 15
def pdVdoCmd (vdo : Word) : Word := vdo &&& 0x1f
def pdVdoDpstsHpdLvl (vdo : Word) : Bool := vdo.getLsbD 7
def pdVdoDpstsHpdIrq (vdo : Word) : Bool := vdo.getLsbD 8

structure Port where
  vdmReply : List Word
  vdmReplyType : Nat
  attentionQueue : List (List Word)
  dpConfigured : Bool
  hpdPending : Bool
  hpd : Bool
  vdmRequest : Bool

/-- An interrupt is a short low pulse, which a high level follows. -/
def dpHpdGpioSet (level irq : Bool) (p : Port) : Port :=
  if irq = true ∧ level = false then p else if irq = true ∧ p.hpd = true then { p with hpd := true }
  else { p with hpd := level }

def attentionHpdProcess (vdo : Word) (p : Port) : Port :=
  let hpdLevel := pdVdoDpstsHpdLvl vdo
  let hpdIrq := pdVdoDpstsHpdIrq vdo
  if p.dpConfigured = false ∧ hpdLevel = true then { p with hpdPending := true } else dpHpdGpioSet hpdLevel hpdIrq p

def apVdmAttentionEnqueue (length : Nat) (buf : Nat → Word) (p : Port) : Port :=
  let p := if pdVdoVid (buf 0) = usbSidDisplayport ∧ 1 < length then attentionHpdProcess (buf 1) p else p
  let queue := if p.attentionQueue.length = attentionQueueDepth then p.attentionQueue.drop 1 else p.attentionQueue
  { p with attentionQueue := queue ++ [(List.range length).map buf] }

/-- The words of the first message, and how many messages are left. -/
def apVdmAttentionPop (p : Port) : List Word × Nat × Port :=
  match p.attentionQueue with
  | [] => ([], 0, p)
  | first :: rest => (first, rest.length, { p with attentionQueue := rest })

def apVdmInit (p : Port) : Port :=
  dpHpdGpioSet false false { p with vdmReply := [], attentionQueue := [], dpConfigured := false, hpdPending := false }

/-- The message is a structured DisplayPort VDM with the command. -/
def IsDp (cmd vdm : Word) : Prop := pdVdoVid vdm = usbSidDisplayport ∧ pdVdoSvdm vdm = true ∧ pdVdoCmd vdm = cmd

instance {cmd vdm : Word} : Decidable (IsDp cmd vdm) := inferInstanceAs (Decidable (_ ∧ _ ∧ _))

def apVdmAcked (type vdoCount : Nat) (vdm : Nat → Word) (p : Port) : Port :=
  let p := { p with vdmReply := (List.range vdoCount).map vdm, vdmReplyType := type, vdmRequest := false }
  if IsDp cmdDpConfig (vdm 0) then
    have p := { p with dpConfigured := true }
    if p.hpdPending = true then dpHpdGpioSet true false p else p
  else if IsDp cmdDpStatus (vdm 0) ∧ 1 < vdoCount then attentionHpdProcess (vdm 1) p
  else p

def apVdmNaked (type : Nat) (vdmHeader : Word) (p : Port) : Port :=
  { p with vdmReplyType := type, vdmReply := if vdmHeader = 0 then [] else [vdmHeader], vdmRequest := false }

inductive Call where
  | init
  | acked (type vdoCount : Nat) (vdm : Nat → Word)
  | naked (type : Nat) (vdmHeader : Word)
  | attention (length : Nat) (buf : Nat → Word)
  | pop
  /-- The AP asks for a VDM to be sent. -/
  | request

/-- An acknowledged message has one to seven words, or an assertion fails. -/
def step : Call → Port → Option Port
  | .init, p => some (apVdmInit p)
  | .acked type vdoCount vdm, p =>
    if 1 ≤ vdoCount ∧ vdoCount ≤ vdoMaxSize then some (apVdmAcked type vdoCount vdm p) else none
  | .naked type vdmHeader, p => some (apVdmNaked type vdmHeader p)
  | .attention length buf, p => some (apVdmAttentionEnqueue length buf p)
  | .pop, p => some (apVdmAttentionPop p).2.2
  | .request, p => some { p with vdmRequest := true }

/-! ## What the messages say -/

/-- The level and the interrupt in a DP:Status or in a DP Attention. -/
def signal : Call → Option (Bool × Bool)
  | .acked _ vdoCount vdm =>
    if IsDp cmdDpStatus (vdm 0) ∧ 1 < vdoCount then some (pdVdoDpstsHpdLvl (vdm 1), pdVdoDpstsHpdIrq (vdm 1)) else none
  | .attention length buf =>
    if pdVdoVid (buf 0) = usbSidDisplayport ∧ 1 < length then
      some (pdVdoDpstsHpdLvl (buf 1), pdVdoDpstsHpdIrq (buf 1)) else none
  | _ => none

def Configures : Call → Prop
  | .acked _ _ vdm => IsDp cmdDpConfig (vdm 0)
  | _ => False

instance : DecidablePred Configures
  | .acked _ _ vdm => inferInstanceAs (Decidable (IsDp cmdDpConfig (vdm 0)))
  | .init | .naked .. | .attention .. | .pop | .request => isFalse id

/-- What there was since the last init: the signals, the last first; whether one was high before DP:Configure was
acknowledged; and whether it was. -/
structure Seen where
  signals : List (Bool × Bool)
  early : Bool
  configured : Bool

def Seen.initial : Seen := ⟨[], false, false⟩

def Seen.note (a : Seen) : Option (Bool × Bool) → Seen
  | none => a
  | some m => { a with signals := m :: a.signals, early := a.early || (m.1 && !a.configured) }

def Seen.after (a : Seen) : Port × Call → Seen
  | (_, .init) => .initial
  | (_, .acked type vdoCount vdm) =>
    { a.note (signal (.acked type vdoCount vdm)) with configured := a.configured || decide (IsDp cmdDpConfig (vdm 0)) }
  | (_, c) => a.note (signal c)

def Seen.level (a : Seen) : Bool := (a.signals.head?.map Prod.fst).getD false

/-- The level in the last message that is not low with an interrupt. -/
def Seen.driven (a : Seen) : Bool := ((a.signals.find? fun m => m.1 || !m.2).map Prod.fst).getD false

/-- The signal is not high before DP:Configure, and after it is the level of the last message. -/
def Right (a : Seen) (x : Port × Call) : Prop :=
  ∀ p', step x.2 x.1 = some p' →
    (p'.hpd = true → (a.after x).configured = true) ∧ (Configures x.2 → p'.hpd = (a.after x).level)

/-- When DP:Configure is acknowledged, the last message is high; or no message was before the first DP:Configure, and the
last one that is not low with an interrupt is low. -/
def Followed (a : Seen) (x : Port × Call) : Prop :=
  Configures x.2 → a.level = true ∨ a.early = false ∧ a.driven = false

/-! ## What the state remembers -/

/-- Before DP:Configure the signal is low. -/
structure Waits (p : Port) (a : Seen) : Prop where
  configured : p.dpConfigured = a.configured
  off : a.configured = false → p.hpd = false

/-- As long as the messages are followed, the signal after DP:Configure is the level that a message last set. -/
structure Drives (p : Port) (a : Seen) : Prop where
  pending : p.hpdPending = a.early
  low : a.configured = false → a.early = false → a.driven = false
  on : a.configured = true → p.hpd = a.driven

structure Holds (p : Port) (a : Seen) : Prop where
  waits : Waits p a
  drives : Drives p a

variable {p p' : Port} {a : Seen} {c : Call} {vdoCount type : Nat} {vdm : Nat → Word}

theorem dpHpdGpioSet_hpd (level irq : Bool) :
    (dpHpdGpioSet level irq p).hpd = if irq = true ∧ level = false then p.hpd else level := by
  unfold dpHpdGpioSet
  cases irq <;> cases level <;> cases hhpd : p.hpd <;> simp [hhpd]

theorem dpHpdGpioSet_flags (level irq : Bool) : (dpHpdGpioSet level irq p).dpConfigured = p.dpConfigured ∧
    (dpHpdGpioSet level irq p).hpdPending = p.hpdPending := by
  unfold dpHpdGpioSet
  split
  · exact ⟨rfl, rfl⟩
  · split <;> exact ⟨rfl, rfl⟩

theorem holds_init : Holds (apVdmInit p) .initial := by
  obtain ⟨hconf, hpend⟩ := @dpHpdGpioSet_flags
    { p with vdmReply := [], attentionQueue := [], dpConfigured := false, hpdPending := false } false false
  have hoff : (apVdmInit p).hpd = false := dpHpdGpioSet_hpd false false
  exact ⟨⟨hconf, fun _ => hoff⟩, ⟨hpend, fun _ _ => rfl, fun _ => hoff⟩⟩

theorem driven_note (m : Bool × Bool) :
    (a.note (some m)).driven = if m.2 = true ∧ m.1 = false then a.driven else m.1 := by
  obtain ⟨level, irq⟩ := m
  cases level <;> cases irq <;> simp [Seen.note, Seen.driven]

theorem driven_of_level (h : a.level = true) : a.driven = true := by
  rw [Seen.level] at h
  rw [Seen.driven]
  cases hsignals : a.signals with
  | nil => simp [hsignals] at h
  | cons m rest =>
    rw [hsignals] at h
    have hhigh : m.1 = true := h
    simp [hhigh]

/-! ## A message with a signal -/

/-- A message that comes too early is remembered, unless it is low. -/
theorem low_of_not_early {level : Bool} (h : Waits p a) (hearly : ¬(p.dpConfigured = false ∧ level = true))
    (hoff : a.configured = false) : level = false := by
  simpa [h.configured, hoff] using hearly

theorem Waits.signal (h : Waits p a) (vdo : Word) :
    Waits (attentionHpdProcess vdo p) (a.note (some (pdVdoDpstsHpdLvl vdo, pdVdoDpstsHpdIrq vdo))) := by
  rw [attentionHpdProcess]
  split
  · exact ⟨h.configured, h.off⟩
  · rename_i hearly
    refine ⟨(dpHpdGpioSet_flags _ _).1.trans h.configured, fun hoff => ?_⟩
    rw [dpHpdGpioSet_hpd, low_of_not_early h hearly hoff, h.off hoff, ite_self]

theorem Holds.signal (h : Holds p a) (vdo : Word) :
    Holds (attentionHpdProcess vdo p) (a.note (some (pdVdoDpstsHpdLvl vdo, pdVdoDpstsHpdIrq vdo))) := by
  refine ⟨h.waits.signal vdo, ?_⟩
  generalize hlevel : pdVdoDpstsHpdLvl vdo = level
  generalize hirq : pdVdoDpstsHpdIrq vdo = irq
  have hdriven := @driven_note a (level, irq)
  rw [attentionHpdProcess, hlevel, hirq]
  by_cases hearly : p.dpConfigured = false ∧ level = true
  · obtain ⟨hoff, rfl⟩ := hearly
    have hnot : a.configured = false := h.waits.configured.symm.trans hoff
    rw [if_pos ⟨hoff, rfl⟩]
    refine ⟨?_, fun _ hno => ?_, fun hon => ?_⟩
    · simp [Seen.note, hnot]
    · simp [Seen.note, hnot] at hno
    · rw [Seen.note, hnot] at hon
      cases hon
  · simp only [if_neg hearly]
    refine ⟨?_, fun hoff hno => ?_, fun hon => ?_⟩
    · have hnone : (level && !a.configured) = false := by
        cases hcfg : a.configured with
        | true => rw [Bool.not_true, Bool.and_false]
        | false => rw [low_of_not_early h.waits hearly hcfg, Bool.false_and]
      rw [(dpHpdGpioSet_flags level irq).2, h.drives.pending, Seen.note, hnone, Bool.or_false]
    · have hlow : level = false := low_of_not_early h.waits hearly hoff
      have hnone : a.early = false := by simpa [Seen.note, hlow] using hno
      rw [hdriven, hlow, h.drives.low hoff hnone, ite_self]
    · rw [dpHpdGpioSet_hpd, hdriven, h.drives.on hon]

theorem Waits.heard (h : Waits p a) {b : Prop} [Decidable b] (vdo : Word) :
    Waits (if b then attentionHpdProcess vdo p else p)
      (a.note (if b then some (pdVdoDpstsHpdLvl vdo, pdVdoDpstsHpdIrq vdo) else none)) := by
  split
  · exact h.signal vdo
  · exact h

theorem Holds.heard (h : Holds p a) {b : Prop} [Decidable b] (vdo : Word) :
    Holds (if b then attentionHpdProcess vdo p else p)
      (a.note (if b then some (pdVdoDpstsHpdLvl vdo, pdVdoDpstsHpdIrq vdo) else none)) := by
  split
  · exact h.signal vdo
  · exact h

/-! ## DP:Configure -/

theorem not_status_of_config {word : Word} (h : IsDp cmdDpConfig word) : ¬IsDp cmdDpStatus word := by
  rintro ⟨-, -, hcmd⟩
  have heq : cmdDpConfig = cmdDpStatus := h.2.2.symm.trans hcmd
  exact absurd heq (by decide)

theorem configured_hpd (hconf : IsDp cmdDpConfig (vdm 0)) :
    (apVdmAcked type vdoCount vdm p).dpConfigured = true ∧
      (apVdmAcked type vdoCount vdm p).hpdPending = p.hpdPending ∧
      (apVdmAcked type vdoCount vdm p).hpd = (p.hpdPending || p.hpd) := by
  simp only [apVdmAcked, if_pos hconf]
  split
  · rename_i hpend
    obtain ⟨hcfg, hkept⟩ := @dpHpdGpioSet_flags { p with
      vdmReply := (List.range vdoCount).map vdm, vdmReplyType := type, vdmRequest := false,
        dpConfigured := true } true false
    refine ⟨hcfg, hkept, ?_⟩
    rw [hpend, Bool.true_or]
    exact dpHpdGpioSet_hpd true false
  · rename_i hpend
    rw [Bool.not_eq_true] at hpend
    exact ⟨rfl, rfl, by rw [hpend, Bool.false_or]⟩

theorem after_config (hconf : IsDp cmdDpConfig (vdm 0)) :
    a.after (p, .acked type vdoCount vdm) = { a with configured := true } := by
  have hnone : signal (.acked type vdoCount vdm) = none := if_neg fun h => not_status_of_config hconf h.1
  simp [Seen.after, hnone, Seen.note, hconf]

theorem after_other (hconf : ¬IsDp cmdDpConfig (vdm 0)) :
    a.after (p, .acked type vdoCount vdm) = a.note (signal (.acked type vdoCount vdm)) := by
  have hkept : (a.note (signal (.acked type vdoCount vdm))).configured = a.configured := by
    cases signal (.acked type vdoCount vdm) <;> rfl
  simp [Seen.after, hconf, ← hkept]

theorem Holds.remembered (h : Holds p a) (hlevel : a.level = true) : (p.hpdPending || p.hpd) = true := by
  have hdriven := driven_of_level hlevel
  rw [h.drives.pending]
  cases hconf : a.configured with
  | true => rw [h.drives.on hconf, hdriven, Bool.or_true]
  | false =>
    cases hearly : a.early with
    | true => rfl
    | false =>
      rw [h.drives.low hconf hearly] at hdriven
      cases hdriven

/-- The signal that DP:Configure brings is that of the last message exactly when the messages were followed. -/
theorem Holds.config_iff (h : Holds p a) :
    (p.hpdPending || p.hpd) = a.level ↔ a.level = true ∨ a.early = false ∧ a.driven = false := by
  cases hlevel : a.level with
  | true => exact iff_of_true (h.remembered hlevel) (Or.inl rfl)
  | false =>
    rw [h.drives.pending, Bool.or_eq_false_iff, or_iff_right Bool.false_ne_true]
    refine and_congr_right fun hearly => ?_
    cases hconf : a.configured with
    | true => rw [h.drives.on hconf]
    | false => exact iff_of_true (h.waits.off hconf) (h.drives.low hconf hearly)

/-! ## One call -/

/-- An acknowledged VDM other than DP:Configure stores its words and takes its signal in. -/
theorem acked_other (hconf : ¬IsDp cmdDpConfig (vdm 0)) : apVdmAcked type vdoCount vdm p =
    let p := { p with vdmReply := (List.range vdoCount).map vdm, vdmReplyType := type, vdmRequest := false }
    if IsDp cmdDpStatus (vdm 0) ∧ 1 < vdoCount then attentionHpdProcess (vdm 1) p else p := if_neg hconf

theorem step_acked (hstep : step (.acked type vdoCount vdm) p = some p') : apVdmAcked type vdoCount vdm p = p' := by
  rw [step] at hstep
  split at hstep
  · exact Option.some.inj hstep
  · cases hstep

theorem pop_flags : (apVdmAttentionPop p).2.2.dpConfigured = p.dpConfigured ∧
    (apVdmAttentionPop p).2.2.hpdPending = p.hpdPending ∧ (apVdmAttentionPop p).2.2.hpd = p.hpd := by
  rw [apVdmAttentionPop]
  split <;> exact ⟨rfl, rfl, rfl⟩

theorem waits_step (h : Waits p a) (hstep : step c p = some p') : Waits p' (a.after (p, c)) := by
  cases c with
  | init =>
    obtain rfl := Option.some.inj hstep
    exact holds_init.waits
  | acked type vdoCount vdm =>
    obtain rfl := step_acked hstep
    by_cases hconf : IsDp cmdDpConfig (vdm 0)
    · rw [after_config hconf]
      refine ⟨(configured_hpd hconf).1, fun hoff => ?_⟩
      cases hoff
    · have hstored : Waits { p with
          vdmReply := (List.range vdoCount).map vdm, vdmReplyType := type, vdmRequest := false } a :=
        ⟨h.configured, h.off⟩
      rw [after_other hconf, acked_other hconf]
      exact hstored.heard (vdm 1)
  | naked type vdmHeader =>
    obtain rfl := Option.some.inj hstep
    exact ⟨h.configured, h.off⟩
  | attention length buf =>
    obtain rfl := Option.some.inj hstep
    have hheard := h.heard (b := pdVdoVid (buf 0) = usbSidDisplayport ∧ 1 < length) (buf 1)
    exact ⟨hheard.configured, hheard.off⟩
  | pop =>
    obtain rfl := Option.some.inj hstep
    obtain ⟨hconf, -, hhpd⟩ := @pop_flags p
    exact ⟨hconf.trans h.configured, fun hoff => hhpd.trans (h.off hoff)⟩
  | request =>
    obtain rfl := Option.some.inj hstep
    exact ⟨h.configured, h.off⟩

/-- An init starts again, DP:Configure drives what is remembered, and the others leave the flags or take a signal in. -/
theorem holds_step (h : Holds p a) (hok : Followed a (p, c)) (hstep : step c p = some p') : Holds p' (a.after (p, c)) := by
  refine ⟨waits_step h.waits hstep, ?_⟩
  cases c with
  | init =>
    obtain rfl := Option.some.inj hstep
    exact holds_init.drives
  | acked type vdoCount vdm =>
    obtain rfl := step_acked hstep
    by_cases hconf : IsDp cmdDpConfig (vdm 0)
    · obtain ⟨-, hkept, hhpd⟩ := @configured_hpd p vdoCount type vdm hconf
      rw [after_config hconf]
      refine ⟨hkept.trans h.drives.pending, fun hoff => ?_, fun _ => ?_⟩
      · cases hoff
      · rw [hhpd, h.config_iff.mpr (hok hconf)]
        rcases hok hconf with hhigh | ⟨-, hlow⟩
        · exact hhigh.trans (driven_of_level hhigh).symm
        · cases hlevel : a.level with
          | true => exact (driven_of_level hlevel).symm
          | false => exact hlow.symm
    · have hstored : Holds { p with
          vdmReply := (List.range vdoCount).map vdm, vdmReplyType := type, vdmRequest := false } a :=
        ⟨⟨h.waits.configured, h.waits.off⟩, ⟨h.drives.pending, h.drives.low, h.drives.on⟩⟩
      have hheard := hstored.heard (b := IsDp cmdDpStatus (vdm 0) ∧ 1 < vdoCount) (vdm 1)
      rw [after_other hconf, acked_other hconf]
      exact ⟨hheard.drives.pending, hheard.drives.low, hheard.drives.on⟩
  | naked type vdmHeader =>
    obtain rfl := Option.some.inj hstep
    exact ⟨h.drives.pending, h.drives.low, h.drives.on⟩
  | attention length buf =>
    obtain rfl := Option.some.inj hstep
    have hheard := h.heard (b := pdVdoVid (buf 0) = usbSidDisplayport ∧ 1 < length) (buf 1)
    exact ⟨hheard.drives.pending, hheard.drives.low, hheard.drives.on⟩
  | pop =>
    obtain rfl := Option.some.inj hstep
    obtain ⟨-, hpend, hhpd⟩ := @pop_flags p
    exact ⟨hpend.trans h.drives.pending, h.drives.low, fun hon => hhpd.trans (h.drives.on hon)⟩
  | request =>
    obtain rfl := Option.some.inj hstep
    exact ⟨h.drives.pending, h.drives.low, h.drives.on⟩

theorem right_iff (h : Holds p a) (hstep : step c p = some p') : Right a (p, c) ↔ Followed a (p, c) := by
  have hlevel : ∀ {type vdoCount vdm}, c = .acked type vdoCount vdm → IsDp cmdDpConfig (vdm 0) →
      (p'.hpd = (a.after (p, c)).level ↔ a.level = true ∨ a.early = false ∧ a.driven = false) := by
    rintro type vdoCount vdm rfl hconf
    obtain rfl := step_acked hstep
    rw [after_config hconf, (configured_hpd hconf).2.2]
    exact h.config_iff
  constructor
  · intro hright hconf
    cases c with
    | acked type vdoCount vdm => exact (hlevel rfl hconf).mp ((hright p' hstep).2 hconf)
    | _ => exact hconf.elim
  · intro hfollowed q hq
    obtain rfl := Option.some.inj (hstep.symm.trans hq)
    refine ⟨fun hhigh => ?_, fun hconf => ?_⟩
    · by_contra hoff
      rw [(waits_step h.waits hstep).off (Bool.not_eq_true _ ▸ hoff)] at hhigh
      cases hhigh
    · cases c with
      | acked type vdoCount vdm => exact (hlevel rfl hconf).mpr (hfollowed hconf)
      | _ => exact hconf.elim

/-! ## Runs -/

variable {start : Port} {l : List (Port × Call)}

/-- In every run from an init, the signal is right after each call exactly when the messages are followed. -/
theorem hpd_iff (h : Run step (apVdmInit start) l p) :
    Always Seen.after Right .initial l ↔ Always Seen.after Followed .initial l :=
  Run.always_iff (R := Holds) holds_init (fun _ _ _ _ => holds_step) (fun _ _ _ _ => right_iff) h

def idle : Port := ⟨[], 0, [], false, false, false, false⟩

/-- A DisplayPort VDM of one command, and the word behind it. -/
def dpVdm (cmd status : Word) (k : Nat) : Word := if k = 0 then 0xff018000 ||| cmd else status

instance {a : Seen} {x : Port × Call} : Decidable (Followed a x) := inferInstanceAs (Decidable (_ → _ ∨ _ ∧ _))

/-- DP:Status is high before DP:Configure. Then the level goes low, and high again before the mode is configured anew. -/
def replugged : List Call :=
  [.request, .acked 0 2 (dpVdm cmdDpStatus 0x80), .acked 0 1 (dpVdm cmdDpConfig 0), .attention 2 (dpVdm 6 0), .pop,
    .attention 2 (dpVdm 6 0x180), .acked 0 1 (dpVdm cmdDpConfig 0)]

theorem hpd_iff_replugged : ∃ l p, Run step (apVdmInit idle) l p ∧ l.map Prod.snd = replugged ∧ p.hpd = true ∧
    Always Seen.after Right .initial l := by
  have hsome : (trace step replugged ([], apVdmInit idle)).any fun r =>
      decide (r.2.hpd = true ∧ Always Seen.after Followed .initial r.1) := by decide +kernel
  obtain ⟨l, p, run, hlabels, hhigh, hfollowed⟩ := exists_run hsome
  exact ⟨l, p, run, hlabels, hhigh, (hpd_iff run).mpr hfollowed⟩

/-- The level is high in DP:Status and low in the Attention behind it; DP:Configure drives the signal high. -/
theorem early_high_remembered : ∃ l p, Run step (apVdmInit idle) l p ∧ p.hpd = true ∧
    (l.getLast?.map fun x => x.2) = some (.acked 0 1 (dpVdm cmdDpConfig 0)) ∧
    (l.foldl Seen.after .initial).level = false := by
  refine ⟨_, _, .step (.step (.step (i := .acked 0 2 (dpVdm cmdDpStatus 0x80)) .start rfl)
    (i := .attention 2 (dpVdm 6 0)) rfl) (i := .acked 0 1 (dpVdm cmdDpConfig 0)) rfl, ?_, ?_, ?_⟩
  · rfl
  · rfl
  · rfl

end ChromeEc.ApVdm
