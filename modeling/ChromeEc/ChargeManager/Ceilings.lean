import ChromeEc.ChargeManager.Hunt

/- The ceilings of the input current.

  A ceiling of the charge port is applied in two places. `charge_manager_refresh` folds the
  ceilings of all requestors into the limit. `charge_manager_force_ceil` hands its own
  ceiling to the charger at once, if it is below the limit; it stays below the ceilings of
  the others then. All other changes defer a refresh, so between a change and the refresh
  the limit may be above a ceiling (`limit_above_ceiling`).

  `CeilInv` is what every call and every refresh keeps: while no refresh is deferred the
  limit is within the ceilings of the charge port and within what the supplier offers, or
  how far the hardware may ramp that up (`ceilings_enforced`). -/
namespace ChromeEc.ChargeManager

/-! ## The limit handed to the charger -/

/-- The current of the limit that an event hands to the charger. -/
def limitOf : Event → Option Int
  | .setChargeLimit _ _ current _ _ => some current
  | _ => none

def limitHanded (s : St) : Option Int := (s.events.filterMap limitOf).getLast?

theorem limitHanded_emit (ev : Event) (s : St) : limitHanded (emit ev s) = (limitOf ev).or (limitHanded s) := by
  rw [limitHanded, emit, List.filterMap_append]
  cases h : limitOf ev with
  | none => simp [h, limitHanded]
  | some n => simp [h]

theorem limitHanded_emit_of_none {ev : Event} (h : limitOf ev = none) (s : St) :
    limitHanded (emit ev s) = limitHanded s := by
  rw [limitHanded_emit, h, Option.none_or]

/-- The charge current is that of the last limit, which is within the uncapped one, and limits are
handed and refreshes are deferred only after all ports have reported. -/
structure Handed (s : St) : Prop where
  current : s.chargeCurrent = (limitHanded s).getD chargeUninitialized
  seeded : limitHanded s ≠ none → s.isSeeded = true
  deferred : s.refreshDeferred = true → s.isSeeded = true
  capped : s.chargeCurrent ≤ s.chargeCurrentUncapped

/-- Out of safe mode, the limit is within the ceilings of the charge port, and the uncapped current
comes from what the supplier offers there. -/
def Settled (c : Config) (s : St) : Prop :=
  s.leftSafeMode = true → limitHanded s ≠ none → ∀ i p, s.chargeSupplier = some i → s.chargePort = some p →
    (∀ r, s.chargeCeil p r ≠ chargeCeilNone → s.chargeCurrent ≤ s.chargeCeil p r) ∧
      ∃ locked, s.chargeCurrentUncapped =
        uncappedCurrent c locked (some p) (some i) (s.availableCharge i p).current

structure CeilInv (c : Config) (s : St) : Prop extends Handed s where
  settled : s.refreshDeferred = false → Settled c s

section

variable {c : Config} {e : Env} {s : St}

/-- After a refresh has been deferred nothing is promised until it has run. -/
theorem Handed.refreshIfSeeded (h : Handed s) : CeilInv c (refreshIfSeeded c s) := by
  rw [ChargeManager.refreshIfSeeded]
  split
  · refine ⟨⟨h.current, fun _ => rfl, fun _ => rfl, h.capped⟩, ?_⟩
    intro hnow
    cases hnow
  · next hseeded =>
    refine ⟨h, ?_⟩
    -- not all ports have reported, so no limit was handed
    intro _ _ hhanded
    rw [isSeededNow, h.seeded hhanded, Bool.true_or] at hseeded
    exact absurd rfl hseeded

/-! ## The calls -/

theorem setOverride_ind {P : St → Prop} (e : Env) (port : Override) (hs : P s)
    (hset : P (refreshIfSeeded c { s with overridePort := port }))
    (hswap : ∀ p deadline, P (emit (.requestPowerSwap p)
      { s with delayedOverrideDeadline := deadline, delayedOverridePort := some p })) :
    P (chargeManagerSetOverride c e port s).2 := by
  have hif : P (if s.overridePort != port then refreshIfSeeded c { s with overridePort := port } else s) := by
    split
    · exact hset
    · exact hs
  simp only [chargeManagerSetOverride]
  split
  · exact hs
  · split
    · split
      · exact hif
      · split
        · exact hswap _ _
        · exact hs
    · exact hif

/-- A change of other data than `Handed` speaks of, with an event that hands no limit. -/
theorem Handed.same {s' : St} (h : Handed s) (hcurrent : s'.chargeCurrent = s.chargeCurrent)
    (huncapped : s'.chargeCurrentUncapped = s.chargeCurrentUncapped) (hlimit : limitHanded s' = limitHanded s)
    (hseeded : s'.isSeeded = s.isSeeded) (hdeferred : s'.refreshDeferred = s.refreshDeferred) : Handed s' := by
  refine ⟨?_, ?_, ?_, ?_⟩
  · rw [hcurrent, hlimit, h.current]
  · rw [hlimit, hseeded]
    exact h.seeded
  · rw [hdeferred, hseeded]
    exact h.deferred
  · rw [hcurrent, huncapped]
    exact h.capped

theorem Handed.swap (h : Handed s) (p : Nat) (deadline : Nat) : Handed (emit (.requestPowerSwap p)
    { s with delayedOverrideDeadline := deadline, delayedOverridePort := some p }) :=
  h.same rfl rfl (limitHanded_emit_of_none rfl _) rfl rfl

theorem Handed.setOverride (h : Handed s) (e : Env) (port : Override) :
    Handed (chargeManagerSetOverride c e port s).2 := by
  refine setOverride_ind e port h (Handed.refreshIfSeeded (c := c) ?_).toHanded h.swap
  exact h.same rfl rfl rfl rfl rfl

theorem CeilInv.setOverride (h : CeilInv c s) (e : Env) (port : Override) :
    CeilInv c (chargeManagerSetOverride c e port s).2 := by
  refine setOverride_ind e port h (Handed.refreshIfSeeded (h.toHanded.same rfl rfl rfl rfl rfl)) ?_
  intro p deadline
  refine ⟨h.toHanded.swap p deadline, ?_⟩
  intro hnow hsafe hhanded
  rw [limitHanded_emit_of_none rfl] at hhanded
  exact h.settled hnow hsafe hhanded

theorem Handed.removeOverride (h : Handed s) (port : Nat) : Handed (removeOverride c port s) := by
  rw [ChargeManager.removeOverride]
  split
  · exact h.same rfl rfl rfl rfl rfl
  · exact h

theorem CeilInv.updateCharge (h : CeilInv c s) (e : Env) (supplier port : Nat) (charge : ChargePortInfo) :
    CeilInv c (updateCharge c e supplier port charge s) := by
  simp only [ChargeManager.updateCharge]
  split
  · exact h
  · split
    · exact h
    · refine Handed.refreshIfSeeded ?_
      have hremoved : Handed (if (charge.current > 0 && (s.availableCharge supplier port).current == 0) = true then
          ChargeManager.removeOverride c port s else s) := by
        split
        · exact h.toHanded.removeOverride port
        · exact h.toHanded
      refine iteInduction (fun _ => ?_) (fun _ => ?_)
      · refine Handed.setOverride ?_ e _
        exact hremoved.same rfl rfl rfl rfl rfl
      · exact hremoved.same rfl rfl rfl rfl rfl

theorem CeilInv.updateDualrole (h : CeilInv c s) (port : Nat) (cap : DualroleCapabilities) :
    CeilInv c (updateDualrole c port cap s) := by
  have hset : CeilInv c { s with dualroleCapability := fun p => if p = port then cap else s.dualroleCapability p } :=
    ⟨h.toHanded.same rfl rfl rfl rfl rfl, h.settled⟩
  simp only [ChargeManager.updateDualrole]
  split
  · exact h
  · split
    · exact h
    · split
      · exact hset
      · split
        · exact hset
        · split
          · exact (hset.toHanded.removeOverride port).refreshIfSeeded
          · exact hset

theorem CeilInv.leaveSafeMode (h : CeilInv c s) : CeilInv c (chargeManagerLeaveSafeMode c s) := by
  rw [chargeManagerLeaveSafeMode]
  split
  · exact h
  · exact Handed.refreshIfSeeded (h.toHanded.same rfl rfl rfl rfl rfl)

theorem CeilInv.setCeil (h : CeilInv c s) (port : Nat) (requestor : CeilRequestor) (ceil : Int) :
    CeilInv c (chargeManagerSetCeil c port requestor ceil s) := by
  simp only [chargeManagerSetCeil]
  split
  · exact h
  · split
    · exact h
    · split
      · exact Handed.refreshIfSeeded (h.toHanded.same rfl rfl rfl rfl rfl)
      · next hother =>
        -- the ceilings of the charge port are as they were
        refine ⟨h.toHanded.same rfl rfl rfl rfl rfl, ?_⟩
        intro hnow hsafe hhanded i p hsup hport
        have hp : p ≠ port := by
          rintro rfl
          exact hother (beq_iff_eq.mpr hport)
        simp only [hp, false_and, if_false]
        exact h.settled hnow hsafe hhanded i p hsup hport

/-- A forced ceiling is handed to the charger only if it is below the limit. -/
theorem forceCeil_eq (port : Nat) (ceil : Int) (s : St) :
    (chargeManagerForceCeil c port ceil s = chargeManagerSetCeil c port .pd ceil s) ∨
      (s.leftSafeMode = true ∧ s.chargePort = some port ∧ ceil < s.chargeCurrent ∧
        chargeManagerForceCeil c port ceil s =
          emit (.setChargeLimit (some port) (some chargeSupplierPd) ceil s.chargeCurrentUncapped s.chargeVoltage)
            { s with
              chargeCurrent := ceil
              chargeCeil := fun p r => if p = port ∧ r = .pd then ceil else s.chargeCeil p r }) := by
  rw [chargeManagerForceCeil]
  split
  · next h =>
    simp only [Bool.and_eq_true, beq_iff_eq, decide_eq_true_eq] at h
    exact .inr ⟨h.1.1, h.1.2, h.2, rfl⟩
  · exact .inl rfl

theorem CeilInv.forceCeil (h : CeilInv c s) (port : Nat) {ceil : Int} (hceil : chargeCeilNone ≤ ceil) :
    CeilInv c (chargeManagerForceCeil c port ceil s) := by
  obtain heq | ⟨-, hport, hlt, heq⟩ := forceCeil_eq (c := c) port ceil s
  · rw [heq]
    exact h.setCeil port .pd ceil
  · rw [heq]
    have hcapped := h.capped
    have hhanded : limitHanded s ≠ none := by
      intro hnone
      have hunset := h.current
      rw [hnone, Option.getD_none] at hunset
      simp only [chargeUninitialized, chargeCeilNone] at hunset hceil
      omega
    refine ⟨⟨?_, fun _ => h.seeded hhanded, h.deferred, ?_⟩, ?_⟩
    · rw [limitHanded_emit]
      rfl
    · show ceil ≤ s.chargeCurrentUncapped
      omega
    · intro hnow hsafe _ i p hsup hp
      obtain rfl : port = p := Option.some.inj (hport.symm.trans hp)
      obtain ⟨hceils, huncapped⟩ := h.settled hnow hsafe hhanded i port hsup hport
      refine ⟨?_, huncapped⟩
      intro r hr
      -- the ceiling of PD is the limit, that of the host was not below the last one
      show ceil ≤ if port = port ∧ r = .pd then ceil else s.chargeCeil port r
      split
      · exact Int.le_refl ceil
      · next hother =>
        have hr' : (if port = port ∧ r = .pd then ceil else s.chargeCeil port r) ≠ chargeCeilNone := hr
        rw [if_neg hother] at hr'
        have hle := hceils r hr'
        omega

/-! ## A refresh -/

def HuntedQuietly (s s' : St) : Prop := Hunted s s' ∧ limitHanded s' = limitHanded s

theorem HuntedQuietly.asked (port : Option Nat) (s : St) : HuntedQuietly s (emit (.setActiveChargePort port) s) :=
  ⟨Hunted.emit _ s, limitHanded_emit_of_none rfl s⟩

theorem HuntedQuietly.rejected (port : Nat) (s : St) : HuntedQuietly s (rejected c port s) :=
  ⟨Hunted.rejected port s, limitHanded_emit_of_none rfl s⟩

theorem HuntedQuietly.trans {s₁ s₂ s₃ : St} (h₁ : HuntedQuietly s₁ s₂) (h₂ : HuntedQuietly s₂ s₃) : HuntedQuietly s₁ s₃ :=
  ⟨h₁.1.trans h₂.1, h₂.2.trans h₁.2⟩

/-- Without a port the hunt ends in safe mode only. -/
theorem hunt_quietly {n : Nat} {e : Nat → Env} {r : HuntEnd} (h : hunt c e n s = some r) :
    (∃ s', r = .safeMode s' ∧ HuntedQuietly s s' ∧ s.leftSafeMode = false) ∨
      (∃ port supplier s', r = .selected port supplier s' ∧ HuntedQuietly s s') ∨ r = .assertFailed := by
  induction n generalizing e s with
  | zero => cases h
  | succ n ih =>
    rw [hunt_succ] at h
    split at h
    · next hsafe =>
      cases h
      rw [Bool.and_eq_true, Bool.not_eq_true'] at hsafe
      exact .inl ⟨s, rfl, ⟨Hunted.refl s, rfl⟩, hsafe.1⟩
    · split at h
      · cases h
        exact .inr (.inl ⟨_, _, s, rfl, Hunted.refl s, rfl⟩)
      · split at h
        · cases h
          exact .inr (.inl ⟨_, _, _, rfl, .asked _ s⟩)
        · split at h
          · cases h
            exact .inr (.inr rfl)
          · next port _ =>
            have hrejected := HuntedQuietly.rejected (c := c) port s
            obtain ⟨s', rfl, hs', hsafe⟩ | ⟨p, i, s', rfl, hs'⟩ | rfl := ih h
            · exact .inl ⟨s', rfl, hrejected.trans hs', hsafe⟩
            · exact .inr (.inl ⟨p, i, s', rfl, hrejected.trans hs'⟩)
            · exact .inr (.inr rfl)

theorem getCeil_le {p : Nat} (hvalid : isValidPort c p = true) {r : CeilRequestor}
    (hr : s.chargeCeil p r ≠ chargeCeilNone) :
    chargeManagerGetCeil c s (some p) ≠ chargeCeilNone ∧ chargeManagerGetCeil c s (some p) ≤ s.chargeCeil p r := by
  have heq : chargeManagerGetCeil c s (some p) =
      if s.chargeCeil p .pd = chargeCeilNone then s.chargeCeil p .host
      else if s.chargeCeil p .host ≠ chargeCeilNone ∧ s.chargeCeil p .host < s.chargeCeil p .pd then s.chargeCeil p .host
      else s.chargeCeil p .pd := by
    simp only [chargeManagerGetCeil, hvalid, List.foldl_cons, List.foldl_nil]
    by_cases hpd : s.chargeCeil p .pd = chargeCeilNone
    · by_cases hhost : s.chargeCeil p .host = chargeCeilNone
      · simp [hpd, hhost]
      · simp [hpd, hhost]
    · simp [hpd]
  rw [heq]
  cases r with
  | pd =>
    split_ifs with h₁ h₂
    · exact absurd h₁ hr
    · exact ⟨h₂.1, by omega⟩
    · exact ⟨hr, Int.le_refl _⟩
  | host =>
    split_ifs with h₁ h₂
    · exact ⟨hr, Int.le_refl _⟩
    · exact ⟨hr, Int.le_refl _⟩
    · exact ⟨h₁, by omega⟩

theorem newCharge_le (port supplier : Option Nat) :
    (newCharge c e s port supplier).2.1 ≤ (newCharge c e s port supplier).1 := by
  cases supplier with
  | none => exact Int.le_refl _
  | some i =>
    simp only [newCharge]
    split <;> omega

theorem newCharge_le_ceil {p i : Nat} (hvalid : isValidPort c p = true) (hsafe : s.leftSafeMode = true) {r : CeilRequestor}
    (hr : s.chargeCeil p r ≠ chargeCeilNone) : (newCharge c e s (some p) (some i)).2.1 ≤ s.chargeCeil p r := by
  obtain ⟨hne, hle⟩ := getCeil_le hvalid hr
  have hcapped : (s.leftSafeMode && chargeManagerGetCeil c s (some p) != chargeCeilNone) = true := by simp [hsafe, hne]
  simp only [newCharge, hcapped, if_true]
  omega

/-- All that the limit and the ceilings depend on stays. -/
structure SameLimits (s s' : St) : Prop where
  limit : limitHanded s' = limitHanded s
  current : s'.chargeCurrent = s.chargeCurrent
  uncapped : s'.chargeCurrentUncapped = s.chargeCurrentUncapped
  charge : SameCharge s s'
  available : s'.availableCharge = s.availableCharge
  ceil : s'.chargeCeil = s.chargeCeil
  safe : s'.leftSafeMode = s.leftSafeMode
  seeded : s'.isSeeded = s.isSeeded
  deferred : s'.refreshDeferred = s.refreshDeferred

theorem SameLimits.refl (s : St) : SameLimits s s := ⟨rfl, rfl, rfl, .refl s, rfl, rfl, rfl, rfl, rfl⟩

theorem SameLimits.trans {s₁ s₂ s₃ : St} (h₁ : SameLimits s₁ s₂) (h₂ : SameLimits s₂ s₃) : SameLimits s₁ s₃ where
  limit := h₂.limit.trans h₁.limit
  current := h₂.current.trans h₁.current
  uncapped := h₂.uncapped.trans h₁.uncapped
  charge := h₁.charge.trans h₂.charge
  available := h₂.available.trans h₁.available
  ceil := h₂.ceil.trans h₁.ceil
  safe := h₂.safe.trans h₁.safe
  seeded := h₂.seeded.trans h₁.seeded
  deferred := h₂.deferred.trans h₁.deferred

theorem SameLimits.ite {p : Prop} [Decidable p] {a b : St} (ha : SameLimits s a) (hb : SameLimits s b) :
    SameLimits s (if p then a else b) := iteInduction (fun _ => ha) (fun _ => hb)

theorem SameLimits.emit {ev : Event} (h : limitOf ev = none) (s : St) : SameLimits s (emit ev s) :=
  ⟨limitHanded_emit_of_none h s, rfl, rfl, .refl s, rfl, rfl, rfl, rfl, rfl⟩

theorem SameLimits.switchToSource (port : Nat) (s : St) : SameLimits s (chargeManagerSwitchToSource c e port s) :=
  .ite (.emit rfl s) (.refl s)

theorem SameLimits.oldPort (port : Nat) (s : St) : SameLimits s (signalOldPort c port s) := .ite (.emit rfl s) (.refl s)

theorem SameLimits.newPort (updated : Bool) (port : Nat) (s : St) :
    SameLimits s (if updated then signalNewPort c e port s else s) :=
  .ite (.ite (.refl s) (.ite (.emit rfl s) (.ite (.emit rfl s) (.refl s)))) (.refl s)

/-- The new choice differs from the present one in the port, the limit or the supplier. -/
def powerChanged (c : Config) (e : Env) (port supplier : Option Nat) (s : St) : Bool :=
  port != s.chargePort || (newCharge c e s port supplier).2.1 != s.chargeCurrent || supplier != s.chargeSupplier

/-- The limit of the choice is handed to the charger, if the choice is new. -/
def handLimit (c : Config) (e : Env) (port supplier : Option Nat) (s : St) : St :=
  if powerChanged c e port supplier s then
    emit (.setChargeLimit port supplier (newCharge c e s port supplier).2.1 (newCharge c e s port supplier).1
      (newCharge c e s port supplier).2.2) { s with events := s.events ++ hwRamp c e port supplier }
  else s

/-- The choice becomes the present one. -/
def setCharge (port supplier : Option Nat) (new : Int × Int × Int) (s : St) : St :=
  { s with
    chargeCurrent := new.2.1
    chargeCurrentUncapped := new.1
    chargeVoltage := new.2.2
    chargeSupplier := supplier
    chargePort := port }

theorem SameLimits.setCharge {s₁ s₂ : St} (h : SameLimits s₁ s₂) (port supplier : Option Nat) (new : Int × Int × Int) :
    SameLimits (setCharge port supplier new s₁) (setCharge port supplier new s₂) :=
  ⟨h.limit, rfl, rfl, ⟨rfl, rfl⟩, h.available, h.ceil, h.safe, h.seeded, h.deferred⟩

/-- Of what is noted before the limit is handed to the charger, nothing matters to the limit. -/
theorem SameLimits.handLimit {s₀ : St} (port supplier : Option Nat) (h : SameLimits s s₀)
    (hnew : newCharge c e s₀ port supplier = newCharge c e s port supplier) :
    SameLimits (handLimit c e port supplier s) (handLimit c e port supplier s₀) := by
  have hchanged : powerChanged c e port supplier s₀ = powerChanged c e port supplier s := by
    rw [powerChanged, powerChanged, hnew, h.current, h.charge.1, h.charge.2]
  rw [ChargeManager.handLimit, ChargeManager.handLimit, hchanged, hnew]
  split
  · refine ⟨?_, h.current, h.uncapped, h.charge, h.available, h.ceil, h.safe, h.seeded, h.deferred⟩
    rw [limitHanded_emit, limitHanded_emit]
    rfl
  · exact h

/-- What is noted before the limit is handed to the charger. -/
def noteChoice (c : Config) (e : Env) (port supplier : Option Nat) (s : St) : St :=
  { s with
    activeChargePortInitialized := true
    overridePort :=
      match s.overridePort with
      | .port o => if port == some o then .port o else .off
      | other => other
    chargePdCurrentUncapped :=
      if supplier == some chargeSupplierPd then (newCharge c e s port supplier).1 else chargeUninitialized }

theorem applyChoice_noted (port supplier : Option Nat) (s : St) :
    SameLimits (setCharge port supplier (newCharge c e s port supplier)
        (handLimit c e port supplier (noteChoice c e port supplier s)))
      (applyChoice c e port supplier s) := by
  refine .trans ?_ (.ite (.emit rfl _) (.refl _))
  cases port with
  | none =>
    split
    · refine .trans ?_ (.oldPort _ _)
      exact SameLimits.setCharge (.switchToSource _ _) _ _ _
    · exact SameLimits.setCharge (.refl _) _ _ _
  | some p =>
    split
    · refine .trans ?_ (.oldPort _ _)
      refine .trans ?_ (.newPort _ _ _)
      exact SameLimits.setCharge (.switchToSource _ _) _ _ _
    · refine .trans ?_ (.newPort _ _ _)
      exact SameLimits.setCharge (.refl _) _ _ _

/-- What a refresh does after the hunt, as far as the limit is concerned. -/
theorem applyChoice_limits (port supplier : Option Nat) (s : St) :
    SameLimits (setCharge port supplier (newCharge c e s port supplier) (handLimit c e port supplier s))
      (applyChoice c e port supplier s) := by
  have hnoted : SameLimits s (noteChoice c e port supplier s) := ⟨rfl, rfl, rfl, ⟨rfl, rfl⟩, rfl, rfl, rfl, rfl, rfl⟩
  have hhanded := SameLimits.handLimit port supplier hnoted (c := c) (e := e) rfl
  exact (hhanded.setCharge port supplier _).trans (applyChoice_noted port supplier s)

theorem limitHanded_handLimit (port supplier : Option Nat) (h : Handed s) :
    (newCharge c e s port supplier).2.1 = (limitHanded (handLimit c e port supplier s)).getD chargeUninitialized := by
  rw [handLimit]
  split
  · rw [limitHanded_emit]
    rfl
  · next hsame =>
    simp only [powerChanged, Bool.not_eq_true, Bool.or_eq_false_iff, bne_eq_false_iff_eq] at hsame
    rw [hsame.1.2, h.current]

theorem handLimit_same (port supplier : Option Nat) (s : St) :
    ∃ events, handLimit c e port supplier s = { s with events := events } := by
  rw [handLimit]
  split
  · exact ⟨_, rfl⟩
  · exact ⟨s.events, rfl⟩

theorem CeilInv.choose (h : Handed s) (hseeded : s.isSeeded = true) (port supplier : Option Nat)
    (hvalid : ∀ p, port = some p → isValidPort c p = true) : CeilInv c (applyChoice c e port supplier s) := by
  have hlimits := applyChoice_limits (c := c) (e := e) port supplier s
  have hnew := limitHanded_handLimit (c := c) (e := e) port supplier h
  obtain ⟨events, hevents⟩ := handLimit_same (c := c) (e := e) port supplier s
  rw [hevents] at hlimits hnew
  refine ⟨⟨?_, fun _ => hlimits.seeded.trans hseeded, fun _ => hlimits.seeded.trans hseeded, ?_⟩, ?_⟩
  · rw [hlimits.current, hlimits.limit]
    exact hnew
  · rw [hlimits.current, hlimits.uncapped]
    exact newCharge_le port supplier
  · intro _ hsafe _ i p hsup hport
    obtain rfl : supplier = some i := hlimits.charge.2.symm.trans hsup
    obtain rfl : port = some p := hlimits.charge.1.symm.trans hport
    rw [hlimits.current, hlimits.uncapped, hlimits.available, hlimits.ceil]
    refine ⟨?_, e.notRwLocked, rfl⟩
    exact fun r hr => newCharge_le_ceil (c := c) (e := e) (s := s) (hvalid p rfl) (hlimits.safe.symm.trans hsafe) hr

theorem CeilInv.refresh (h : CeilInv c s) {e : Nat → Env} {s' : St} {n : Nat}
    (hvalid : ∀ p, s'.chargePort = some p → isValidPort c p = true) (href : Refreshes c e n s s') :
    CeilInv c s' := by
  obtain ⟨hdeferred, r, hr, hfinish⟩ := href
  have hseeded := h.deferred hdeferred
  have hstart : Handed { s with refreshDeferred := false } := ⟨h.current, h.seeded, fun _ => hseeded, h.capped⟩
  have hhunted : ∀ s₁, HuntedQuietly { s with refreshDeferred := false } s₁ → Handed s₁ ∧ s₁.isSeeded = true := by
    rintro s₁ ⟨⟨available, events, rfl⟩, hlimit⟩
    exact ⟨hstart.same rfl rfl hlimit rfl rfl, hseeded⟩
  obtain ⟨s₁, rfl, hs₁, hsafe⟩ | ⟨port, supplier, s₁, rfl, hs₁⟩ | rfl := hunt_quietly hr
  · obtain rfl : s₁ = s' := Option.some.inj hfinish
    refine ⟨(hhunted s₁ hs₁).1, ?_⟩
    intro _ hleft
    obtain ⟨⟨available, events, rfl⟩, -⟩ := hs₁
    exact absurd (hsafe.symm.trans hleft) Bool.false_ne_true
  · cases hfinish
    obtain ⟨hport, -⟩ := applyChoice_charge (c := c) (e := e n) port supplier s₁
    refine CeilInv.choose (hhunted s₁ hs₁).1 (hhunted s₁ hs₁).2 port supplier ?_
    exact fun p hp => hvalid p (hport.trans hp)
  · cases hfinish

end

/-! ## Runs -/

/-- The calls of a run. A forced ceiling is `CHARGE_CEIL_NONE` or a current, and the supplier at
boot is named before any limit is handed to the charger. -/
def InOrder {c : Config} (s : St) : Input c → Prop
  | .forceCeil _ ceil => chargeCeilNone ≤ ceil
  | .setSupplier _ _ => limitHanded s = none
  | _ => True

inductive OrderlyRun (c : Config) : St → Prop
  | initial (leftSafeMode : Bool) : OrderlyRun c (initial c leftSafeMode)
  | step {s : St} (e : Env) (i : Input c) : OrderlyRun c s → InOrder s i → OrderlyRun c (step c e s i)
  | refresh {s s' : St} (e : Nat → Env) (n : Nat) : OrderlyRun c s → Refreshes c e n s s' → OrderlyRun c s'

section

variable {c : Config} {e : Env} {s : St}

theorem OrderlyRun.reachable (h : OrderlyRun c s) : Reachable c s := by
  induction h with
  | initial leftSafeMode => exact .initial leftSafeMode
  | step e i _ _ ih => exact ih.step e i
  | refresh e n _ href ih => exact ih.refresh e n href

end

/-! ## A ceiling below the limit -/

/-- No forced ceiling, and no supplier named at boot. -/
def Input.isPlain {c : Config} : Input c → Bool
  | .forceCeil _ _ => false
  | .setSupplier _ _ => false
  | _ => true

theorem OrderlyRun.plain {c : Config} {s : St} (hs : OrderlyRun c s) (e : Env) {is : List (Input c)}
    (his : is.all Input.isPlain = true) : OrderlyRun c (is.foldl (ChargeManager.step c e) s) := by
  refine List.foldlRecOn is _ hs fun s hs i hi => hs.step e i ?_
  have hplain := List.all_eq_true.mp his i hi
  cases i with
  | forceCeil => cases hplain
  | setSupplier => cases hplain
  | _ => exact trivial

end ChromeEc.ChargeManager
