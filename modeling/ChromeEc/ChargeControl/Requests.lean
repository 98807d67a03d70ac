import ChromeEc.ChargeControl.Model
import ChromeEc.Lib.Steps

/- A charge control request is all or nothing, and forgets what was there before.

  A SET request deals with the sustainer first (`asked`) and with the mode second. The mode may
  be refused when the sustainer has been changed already, and a request may leave the flags as
  they are. `Clean` says when neither shows. -/
namespace ChromeEc.ChargeControl
open Lib Steps

variable {c : Config} {e : Env} {version : Nat} {p : Params} {s s' : St}

/-! ## What a request asks for -/

def Params.TurnsOff (p : Params) : Prop := p.mode ≠ 0 ∨ p.lower = -1 ∨ p.upper = -1

instance : Decidable p.TurnsOff := inferInstanceAs (Decidable (_ ∨ _))

/-- The sustainer is to be on, and can be. -/
def Params.TurnsOn (c : Config) (p : Params) : Prop :=
  ¬p.TurnsOff ∧ (p.lower.toInt ≤ p.upper.toInt ∧ 0 ≤ p.lower.toInt ∧ p.upper.toInt ≤ 100) ∧ c.dischargeOnAc = true

instance : Decidable (p.TurnsOn c) := inferInstanceAs (Decidable (_ ∧ _ ∧ _))

def Params.setsFlags (version : Nat) (p : Params) : Option (BitVec 8) :=
  if p.mode ≠ 0 then none
  else if version = 2 then if ¬p.TurnsOff ∧ p.lower.toInt < p.upper.toInt then some flagNoIdle else none
  else some p.flags

def Refuses (c : Config) (e : Env) (mode : Nat) : Prop :=
  3 ≤ mode ∨ (mode ≠ 0 ∧ e.ac = false) ∨ (mode = 2 ∧ c.dischargeOnAc = false) ∨
    (c.dischargeOnAc = true ∧ e.chargerDischargeOnAc (mode == 2) ≠ ecSuccess)

instance {mode : Nat} : Decidable (Refuses c e mode) := inferInstanceAs (Decidable (_ ∨ _ ∨ _ ∨ _))

/-- The sustainer as a request leaves it. -/
def asked (version : Nat) (p : Params) (s : St) : SustainSoc :=
  if p.TurnsOff then
    let before := if batterySustainerEnabled s then ⟨-1, -1, 0⟩ else s.sustainSoc
    { before with flags := (p.setsFlags version).getD before.flags }
  else
    ⟨p.lower, p.upper, (p.setsFlags version).getD s.sustainSoc.flags⟩

/-- What a sustainer that is off looks like. -/
def Parked (s : St) : Prop := batterySustainerEnabled s = false → s.sustainSoc.lower = -1 ∧ s.sustainSoc.upper = -1

def Ordered (s : St) : Prop := batterySustainerEnabled s = true → s.sustainSoc.lower.toInt ≤ s.sustainSoc.upper.toInt

/-! ## The two halves of a request -/

theorem disable_eq : batterySustainerDisable c s =
    if batterySustainerEnabled s then { s with sustainSoc := ⟨-1, -1, 0⟩ } else s := by
  unfold batterySustainerDisable batterySustainerSet
  rw [if_pos (.inl rfl)]

theorem set_off {lower upper : Int8} (h : lower = -1 ∨ upper = -1) : batterySustainerSet c lower upper s =
    (ecSuccess, if batterySustainerEnabled s then { s with sustainSoc := ⟨-1, -1, 0⟩ } else s) := by
  unfold batterySustainerSet
  rw [if_pos h]

theorem setSustainer_off (hparked : Parked s) (h : p.TurnsOff) :
    setSustainer c version p s = (none, { s with sustainSoc := asked version p s }) := by
  unfold setSustainer asked Params.setsFlags
  rw [if_pos h]
  by_cases hmode : p.mode = 0
  · have hoff : p.lower = -1 ∨ p.upper = -1 := h.resolve_left (not_not.mpr hmode)
    rw [if_pos hmode, set_off hoff]
    cases henabled : batterySustainerEnabled s
    · obtain ⟨hlower, hupper⟩ := hparked henabled
      obtain ⟨⟨lower, upper, flags⟩, mode, voltage, current⟩ := s
      dsimp only at hlower hupper
      by_cases hversion : version = 2 <;> simp [hversion, hmode, h, hlower, hupper]
    · by_cases hversion : version = 2 <;> simp [hversion, hmode, h]
  · rw [if_neg hmode, disable_eq]
    cases henabled : batterySustainerEnabled s <;> simp [hmode]

theorem setSustainer_on (h : p.TurnsOn c) :
    setSustainer c version p s = (none, { s with sustainSoc := asked version p s }) := by
  obtain ⟨hon, hrange, hconfig⟩ := h
  have hkeeps := hon
  simp only [Params.TurnsOff, not_or, not_not] at hon
  obtain ⟨hmode, hlower, hupper⟩ := hon
  have hset : batterySustainerSet c p.lower p.upper s =
      (ecSuccess, { s with sustainSoc := { s.sustainSoc with lower := p.lower, upper := p.upper } }) := by
    unfold batterySustainerSet
    rw [if_neg (not_or.mpr ⟨hlower, hupper⟩), if_pos hrange, hconfig]
    rfl
  unfold setSustainer asked Params.setsFlags
  rw [if_neg hkeeps, if_pos hmode, hset]
  by_cases hversion : version = 2
  · by_cases hlt : p.lower.toInt < p.upper.toInt
    · simp [hversion, hlt, hkeeps, hmode]
    · simp [hversion, hlt, hmode]
  · simp [hversion, hmode]

theorem setSustainer_refused (hoff : ¬p.TurnsOff) (hon : ¬p.TurnsOn c) :
    ∃ status, status ≠ .success ∧ setSustainer c version p s = (some status, s) := by
  have hkeeps := hoff
  simp only [Params.TurnsOff, not_or, not_not] at hoff
  obtain ⟨hmode, hlower, hupper⟩ := hoff
  have hset : batterySustainerSet c p.lower p.upper s = (ecResUnavailable, s) ∨
      batterySustainerSet c p.lower p.upper s = (ecErrorInval, s) := by
    unfold batterySustainerSet
    rw [if_neg (not_or.mpr ⟨hlower, hupper⟩)]
    split
    · rename_i hrange
      have hconfig : ¬c.dischargeOnAc = true := fun h => hon ⟨hkeeps, hrange, h⟩
      rw [if_neg hconfig]
      exact .inl rfl
    · exact .inr rfl
  unfold setSustainer
  rw [if_pos hmode]
  obtain hset | hset := hset
  · exact ⟨.unavailable, by decide, by rw [hset]; rfl⟩
  · exact ⟨.invalidParam, by decide, by rw [hset]; rfl⟩

theorem toNat_of_ofNat? {n : Nat} {mode : Mode} (h : Mode.ofNat? n = some mode) : n = mode.toNat := by
  unfold Mode.ofNat? at h
  split at h <;> cases h <;> rfl

theorem ofNat?_none {n : Nat} : Mode.ofNat? n = none ↔ 3 ≤ n := by
  rcases n with _ | _ | _ | n <;> simp [Mode.ofNat?]

theorem refuses_toNat {mode : Mode} : Refuses c e mode.toNat ↔ (mode ≠ .normal ∧ e.ac = false) ∨
    (mode = .discharge ∧ c.dischargeOnAc = false) ∨
      (c.dischargeOnAc = true ∧ e.chargerDischargeOnAc (mode == .discharge) ≠ ecSuccess) := by
  unfold Refuses
  cases mode with
  | normal => simp [Mode.toNat, (by decide : (Mode.normal == .discharge) = false)]
  | idle => simp [Mode.toNat, (by decide : (Mode.idle == .discharge) = false)]
  | discharge => simp [Mode.toNat]

theorem setChgCtrlMode_refused {mode : Nat} (h : Refuses c e mode) :
    ∃ rv, rv ≠ ecSuccess ∧ setChgCtrlMode c e mode s = (rv, s) := by
  unfold setChgCtrlMode
  cases hmode : Mode.ofNat? mode with
  | none => exact ⟨ecErrorInval, by decide, rfl⟩
  | some m =>
    rw [toNat_of_ofNat? hmode, refuses_toNat] at h
    dsimp only
    split
    · exact ⟨ecErrorNotPowered, by decide, rfl⟩
    · rename_i hpowered
      split
      · exact ⟨ecErrorUnimplemented, by decide, rfl⟩
      · rename_i hconfigured
        obtain ⟨hconfig, hrv⟩ := (h.resolve_left hpowered).resolve_left hconfigured
        rw [hconfig, if_pos rfl, if_pos hrv]
        exact ⟨_, hrv, rfl⟩

theorem setChgCtrlMode_accepted {mode : Nat} (h : ¬Refuses c e mode) : ∃ m : Mode, mode = m.toNat ∧
    setChgCtrlMode c e mode s = (ecSuccess,
      { s with chgCtlMode := m, manualCurrent := (manualFor m s).1, manualVoltage := (manualFor m s).2 }) := by
  unfold setChgCtrlMode
  cases hmode : Mode.ofNat? mode with
  | none => exact absurd (.inl (ofNat?_none.mp hmode)) h
  | some m =>
    obtain rfl := toNat_of_ofNat? hmode
    refine ⟨m, rfl, ?_⟩
    simp only [refuses_toNat, not_or] at h
    obtain ⟨hpowered, hconfigured, hcharger⟩ := h
    have hrv : (if c.dischargeOnAc then e.chargerDischargeOnAc (m == .discharge) else ecSuccess) = ecSuccess := by
      split
      · rename_i hconfig
        exact not_not.mp fun hrv => hcharger ⟨hconfig, hrv⟩
      · rfl
    dsimp only
    rw [if_neg hpowered, if_neg hconfigured, hrv]
    rfl

/-! ## The request as a whole -/

def Params.isSet (p : Params) : Prop := p.cmd = .set

/-- The request runs into an error before the sustainer is changed. -/
theorem command_rejected (hset : p.isSet) (hoff : ¬p.TurnsOff) (hon : ¬p.TurnsOn c) :
    (chargeCommandChargeControl c e version p s).1 ≠ .success ∧ (chargeCommandChargeControl c e version p s).2.2 = s := by
  obtain ⟨status, hstatus, heq⟩ := @setSustainer_refused c version p s hoff hon
  have hcommand : chargeCommandChargeControl c e version p s = (status, none, s) := by
    unfold chargeCommandChargeControl
    rw [show p.cmd = .set from hset, heq]
  rw [hcommand]
  exact ⟨hstatus, rfl⟩

theorem setSustainer_eq (hparked : Parked s) (h : p.TurnsOff ∨ p.TurnsOn c) :
    setSustainer c version p s = (none, { s with sustainSoc := asked version p s }) := by
  obtain hoff | hon := h
  · exact setSustainer_off hparked hoff
  · exact setSustainer_on hon

theorem command_refused (hset : p.isSet) (hparked : Parked s) (h : p.TurnsOff ∨ p.TurnsOn c)
    (hrefused : Refuses c e p.mode) :
    (chargeCommandChargeControl c e version p s).1 ≠ .success ∧
      (chargeCommandChargeControl c e version p s).2.2 = { s with sustainSoc := asked version p s } := by
  obtain ⟨rv, hrv, heq⟩ := @setChgCtrlMode_refused c e { s with sustainSoc := asked version p s } _ hrefused
  have herror : EcStatus.error ≠ .success := by decide
  have hcommand : chargeCommandChargeControl c e version p s =
      (.error, none, { s with sustainSoc := asked version p s }) := by
    unfold chargeCommandChargeControl
    rw [show p.cmd = .set from hset, setSustainer_eq hparked h]
    dsimp only
    rw [heq, if_pos hrv]
  rw [hcommand]
  exact ⟨herror, rfl⟩

theorem command_accepted (hset : p.isSet) (hparked : Parked s) (h : p.TurnsOff ∨ p.TurnsOn c) (hok : ¬Refuses c e p.mode) :
    (chargeCommandChargeControl c e version p s).1 = .success ∧
      (chargeCommandChargeControl c e version p s).2.2.sustainSoc = asked version p s ∧
        p.mode = (chargeCommandChargeControl c e version p s).2.2.chgCtlMode.toNat := by
  obtain ⟨m, hm, heq⟩ := @setChgCtrlMode_accepted c e { s with sustainSoc := asked version p s } _ hok
  have hcommand : chargeCommandChargeControl c e version p s = (.success, none,
      { s with
        sustainSoc := asked version p s
        chgCtlMode := m
        manualCurrent := (manualFor m s).1
        manualVoltage := (manualFor m s).2 }) := by
    unfold chargeCommandChargeControl
    rw [show p.cmd = .set from hset, setSustainer_eq hparked h]
    dsimp only
    rw [heq]
    rfl
  rw [hcommand]
  exact ⟨rfl, rfl, hm⟩

/-- What a request is to set. -/
def settings (s : St) : SustainSoc × Mode := (s.sustainSoc, s.chgCtlMode)

/-- After an error nothing has changed, and after a success the sustainer and the mode are as if the request were the
first one. -/
def AllOrNothing (c : Config) (e : Env) (version : Nat) (p : Params) (s : St) : Prop :=
  ((chargeCommandChargeControl c e version p s).1 ≠ .success → (chargeCommandChargeControl c e version p s).2.2 = s) ∧
    ((chargeCommandChargeControl c e version p s).1 = .success →
      settings (chargeCommandChargeControl c e version p s).2.2 =
        settings (chargeCommandChargeControl c e version p .initial).2.2)

/-- The sustainer is what the request makes of it. -/
def Already (version : Nat) (p : Params) (s : St) : Prop :=
  (if p.TurnsOff then batterySustainerEnabled s = false else s.sustainSoc.lower = p.lower ∧ s.sustainSoc.upper = p.upper) ∧
    ∀ flags ∈ p.setsFlags version, s.sustainSoc.flags = flags

/-- No flags of an earlier request stay. -/
def Forgets (version : Nat) (p : Params) (s : St) : Prop :=
  p.setsFlags version = none → s.sustainSoc.flags = 0 ∨ (p.TurnsOff ∧ batterySustainerEnabled s = true)

/-- A mode that is refused finds the sustainer as the request makes it, and one that is accepted finds no flags that
stay. -/
def Clean (c : Config) (e : Env) (version : Nat) (p : Params) (s : St) : Prop :=
  p.TurnsOff ∨ p.TurnsOn c →
    (Refuses c e p.mode → Already version p s) ∧ (¬Refuses c e p.mode → Forgets version p s)

theorem enabled_initial : batterySustainerEnabled .initial = false := by decide

theorem parked_initial : Parked .initial := fun _ => ⟨rfl, rfl⟩

theorem asked_eq_iff (hparked : Parked s) : asked version p s = s.sustainSoc ↔ Already version p s := by
  obtain ⟨⟨lower, upper, flags⟩, mode, voltage, current⟩ := s
  unfold asked Already
  by_cases hoff : p.TurnsOff
  · rw [if_pos hoff, if_pos hoff]
    cases henabled : batterySustainerEnabled ⟨⟨lower, upper, flags⟩, mode, voltage, current⟩
    · cases hflags : p.setsFlags version <;> simp [eq_comm]
    · -- an enabled sustainer is not as it is when it is off
      have hlower : lower ≠ -1 := by
        simp only [batterySustainerEnabled, Bool.and_eq_true, bne_iff_ne] at henabled
        exact henabled.1
      simp [hlower.symm]
  · rw [if_neg hoff, if_neg hoff]
    cases hflags : p.setsFlags version <;> simp [eq_comm, and_assoc]

theorem asked_initial_iff (hparked : Parked s) : asked version p s = asked version p .initial ↔ Forgets version p s := by
  obtain ⟨⟨lower, upper, flags⟩, mode, voltage, current⟩ := s
  unfold asked Forgets
  rw [enabled_initial]
  by_cases hoff : p.TurnsOff
  · rw [if_pos hoff, if_pos hoff]
    cases henabled : batterySustainerEnabled ⟨⟨lower, upper, flags⟩, mode, voltage, current⟩
    · obtain ⟨hlower, hupper⟩ := hparked henabled
      dsimp only at hlower hupper
      cases hflags : p.setsFlags version <;> simp [hlower, hupper, St.initial]
    · cases hflags : p.setsFlags version <;> simp [hoff, St.initial]
  · rw [if_neg hoff, if_neg hoff]
    cases hflags : p.setsFlags version <;> simp [hoff, St.initial]

theorem toNat_injective {m m' : Mode} (h : m.toNat = m'.toNat) : m = m' := by
  cases m <;> cases m' <;> first | rfl | cases h

theorem allOrNothing_iff (hset : p.isSet) (hparked : Parked s) : AllOrNothing c e version p s ↔ Clean c e version p s := by
  by_cases hgoes : p.TurnsOff ∨ p.TurnsOn c
  · by_cases hrefused : Refuses c e p.mode
    · obtain ⟨hstatus, hafter⟩ := @command_refused c e version p s hset hparked hgoes hrefused
      have hsame : { s with sustainSoc := asked version p s } = s ↔ Already version p s := by
        rw [← asked_eq_iff hparked]
        exact ⟨fun heq => congrArg St.sustainSoc heq, fun heq => by rw [heq]⟩
      unfold AllOrNothing Clean
      rw [hafter, hsame]
      exact ⟨fun h _ => ⟨fun _ => h.1 hstatus, fun hok => absurd hrefused hok⟩,
        fun h => ⟨fun _ => (h hgoes).1 hrefused, fun hsuccess => absurd hsuccess hstatus⟩⟩
    · obtain ⟨hstatus, hsustain, hmode⟩ := @command_accepted c e version p s hset hparked hgoes hrefused
      obtain ⟨-, hsustain₀, hmode₀⟩ := @command_accepted c e version p .initial hset parked_initial hgoes hrefused
      have hsame : settings (chargeCommandChargeControl c e version p s).2.2 =
          settings (chargeCommandChargeControl c e version p .initial).2.2 ↔ Forgets version p s := by
        rw [← asked_initial_iff hparked, settings, settings, hsustain, hsustain₀,
          toNat_injective (hmode.symm.trans hmode₀), Prod.mk.injEq]
        exact and_iff_left rfl
      unfold AllOrNothing Clean
      rw [hsame]
      exact ⟨fun h _ => ⟨fun hbad => absurd hbad hrefused, fun _ => h.2 hstatus⟩,
        fun h => ⟨fun hbad => absurd hstatus hbad, fun _ => (h hgoes).2 hrefused⟩⟩
  · obtain ⟨hstatus, hafter⟩ := @command_rejected c e version p s hset (fun h => hgoes (.inl h)) fun h => hgoes (.inr h)
    exact ⟨fun _ h => absurd h hgoes, fun _ => ⟨fun _ => hafter, fun hsuccess => absurd hsuccess hstatus⟩⟩

end ChromeEc.ChargeControl
