import Mathlib.Data.Finset.Card
import Mathlib.Data.Finset.Range
import ChromeEc.ChargeManager.BestPort

/- The hunt for a charge port.

  A port that the board rejects loses its charge, and a port without charge is not
  selected by the loops of `charge_manager_get_best_port`. So the number of ports with
  charge drops with every iteration (`charged_clearPort_lt`), and the hunt ends.

  The patch at the end of `charge_manager_get_best_port` does not look at the charge.
  Without a battery it selects the charge port always, and when the board rejects this
  one the hunt goes on with the same port. It ends then only if the supplier becomes the
  present one, which counts as no change.

  What is proved: the hunt ends in time if and only if the state is not one where this
  happens (`hunt_ends_iff`). -/
namespace ChromeEc.ChargeManager

/-! ## The states of a hunt -/

/-- A hunt changes the charge and asks the board, and nothing else. -/
def Hunted (s s' : St) : Prop :=
  ∃ availableCharge events, s' = { s with availableCharge := availableCharge, events := events }

theorem Hunted.refl (s : St) : Hunted s s := ⟨s.availableCharge, s.events, rfl⟩

theorem Hunted.trans {s₁ s₂ s₃ : St} (h₁ : Hunted s₁ s₂) (h₂ : Hunted s₂ s₃) : Hunted s₁ s₃ := by
  obtain ⟨_, _, rfl⟩ := h₁
  obtain ⟨charge, events, rfl⟩ := h₂
  exact ⟨charge, events, rfl⟩

theorem Hunted.emit (ev : Event) (s : St) : Hunted s (emit ev s) := ⟨_, _, rfl⟩

theorem Hunted.clearPort (c : Config) (p : Nat) (s : St) : Hunted s (clearPort c p s) :=
  ⟨_, s.events, rfl⟩

section

variable {c : Config} {e : Env} {s : St}

/-- The board is asked, and the port is cleared. -/
def rejected (c : Config) (p : Nat) (s : St) : St :=
  clearPort c p (emit (.setActiveChargePort (some p)) s)

theorem Hunted.rejected (p : Nat) (s : St) : Hunted s (rejected c p s) :=
  (Hunted.emit _ s).trans (Hunted.clearPort c p _)

/-- The supplier and the port are the present ones, which is never so before the first
refresh. -/
def isUnchanged (best : Option Nat × Option Nat) (s : St) : Bool :=
  s.activeChargePortInitialized && best.1 == s.chargePort && best.2 == s.chargeSupplier

theorem hunt_succ (e : Nat → Env) (n : Nat) : hunt c e (n + 1) s =
    if !s.leftSafeMode && (getBestPort c (e 0) s).1 == none then some (.safeMode s)
    else if isUnchanged (getBestPort c (e 0) s) s then
      some (.selected (getBestPort c (e 0) s).1 (getBestPort c (e 0) s).2 s)
    else if (e 0).boardSetActiveChargePort (getBestPort c (e 0) s).1 then
      some (.selected (getBestPort c (e 0) s).1 (getBestPort c (e 0) s).2
        (emit (.setActiveChargePort (getBestPort c (e 0) s).1) s))
    else
      match (getBestPort c (e 0) s).1 with
      | none => some .assertFailed
      | some port => hunt c (fun k => e (k + 1)) n (rejected c port s) := by
  rw [hunt]
  simp only [isUnchanged]
  congr 3
  cases (getBestPort c (e 0) s).1 with
  | none => rfl
  | some port => rfl

/-- The iterations of a hunt: what answers each, and the state it begins in. -/
inductive Visits (c : Config) : (Nat → Env) → St → Env → St → Prop
  | first (e : Nat → Env) (s : St) : Visits c e s (e 0) s
  | next {e : Nat → Env} {s s' : St} {e' : Env} {port : Nat} (hbest : (getBestPort c (e 0) s).1 = some port)
      (hsame : isUnchanged (getBestPort c (e 0) s) s = false)
      (hboard : (e 0).boardSetActiveChargePort (some port) = false)
      (h : Visits c (fun k => e (k + 1)) (rejected c port s) e' s') : Visits c e s e' s'

theorem Visits.hunted {e : Nat → Env} {e' : Env} {s' : St} (h : Visits c e s e' s') : Hunted s s' := by
  induction h with
  | first e s => exact Hunted.refl s
  | next _ _ _ _ ih => exact (Hunted.rejected _ _).trans ih

theorem Visits.answer {e : Nat → Env} {e' : Env} {s' : St} (h : Visits c e s e' s') : ∃ k, e' = e k := by
  induction h with
  | first e s => exact ⟨0, rfl⟩
  | next _ _ _ _ ih =>
    obtain ⟨k, hk⟩ := ih
    exact ⟨k + 1, hk⟩

/-- How a hunt can end, in one of its iterations. -/
inductive Ends (c : Config) (e : Nat → Env) (s : St) : HuntEnd → Prop
  | safeMode {e' : Env} {s' : St} : Visits c e s e' s' → Ends c e s (.safeMode s')
  | unchanged {e' : Env} {s' : St} : Visits c e s e' s' → isUnchanged (getBestPort c e' s') s' = true →
      Ends c e s (.selected (getBestPort c e' s').1 (getBestPort c e' s').2 s')
  | accepted {e' : Env} {s' : St} : Visits c e s e' s' →
      e'.boardSetActiveChargePort (getBestPort c e' s').1 = true →
      Ends c e s (.selected (getBestPort c e' s').1 (getBestPort c e' s').2
        (emit (.setActiveChargePort (getBestPort c e' s').1) s'))
  | assertFailed {e' : Env} {s' : St} : Visits c e s e' s' → e'.boardSetActiveChargePort none = false →
      Ends c e s .assertFailed

/-- A step before the iterations: what ends them ends all. -/
theorem Ends.mono {e : Nat → Env} {s s' : St} {d : Nat → Env}
    (hvisits : ∀ e₁ s₁, Visits c d s' e₁ s₁ → Visits c e s e₁ s₁) {r : HuntEnd} (h : Ends c d s' r) :
    Ends c e s r := by
  cases h with
  | safeMode h => exact .safeMode (hvisits _ _ h)
  | unchanged h hsame => exact .unchanged (hvisits _ _ h) hsame
  | accepted h hboard => exact .accepted (hvisits _ _ h) hboard
  | assertFailed h hboard => exact .assertFailed (hvisits _ _ h) hboard

theorem hunt_ends {n : Nat} {e : Nat → Env} {r : HuntEnd} (h : hunt c e n s = some r) : Ends c e s r := by
  induction n generalizing e s with
  | zero => cases h
  | succ n ih =>
    have hfirst : Visits c e s (e 0) s := .first e s
    rw [hunt_succ] at h
    split at h
    · cases h
      exact .safeMode hfirst
    · split at h
      · next hsame =>
        cases h
        exact .unchanged hfirst hsame
      · next hsame =>
        split at h
        · next hboard =>
          cases h
          exact .accepted hfirst hboard
        · next hboard =>
          split at h
          · next hport =>
            cases h
            rw [hport] at hboard
            exact .assertFailed hfirst (by simpa using hboard)
          · next port hport =>
            rw [hport] at hboard
            refine (ih h).mono fun e₁ s₁ => .next hport ?_ ?_
            · simpa using hsame
            · simpa using hboard

end

/-! ## The pinned port -/

section

variable (c : Config) (e : Env) (s : St)

/-- There is no battery, so the charge port is selected whatever it offers. -/
structure Pinned (p : Nat) : Prop where
  battery : isBatteryDisconnected c e = true
  charges : s.overridePort ≠ .dontCharge
  port : s.chargePort = some p

/-- The board rejects the pinned port, and the supplier is not the present one, neither
with the charge of the port nor without. -/
structure Spins (p : Nat) : Prop extends Pinned c e s p where
  rejects : e.boardSetActiveChargePort (some p) = false
  changes : s.activeChargePortInitialized = true →
    (getBestPort c e s).2 ≠ s.chargeSupplier ∧
      (getBestPort c e (clearPort c p s)).2 ≠ s.chargeSupplier

variable {c e s}

theorem Pinned.getBestPort_fst {p : Nat} (h : Pinned c e s p) : (getBestPort c e s).1 = some p := by
  have hcharges := h.charges
  by_cases hport : (scan c e s).port = some p
  · have hkeeps : keepsPort c e s (scan c e s) = false := by simp [keepsPort, h.port, hport]
    simp [getBestPort, hcharges, hkeeps, hport]
  · have hkeeps : keepsPort c e s (scan c e s) = true := by
      simp [keepsPort, h.port, h.battery, Ne.symm hport]
    simp [getBestPort, hcharges, hkeeps, h.port]

theorem Pinned.hunted {s' : St} {p : Nat} (h : Pinned c e s p) (hs : Hunted s s') : Pinned c e s' p := by
  obtain ⟨_, _, rfl⟩ := hs
  exact ⟨h.battery, h.charges, h.port⟩

theorem getBestPort_eligible (h : ∀ p, ¬Pinned c e s p) :
    getBestPort c e s = (none, none) ∨
      ∃ i p, getBestPort c e s = (some p, some i) ∧ Eligible c e s i p := by
  by_cases hcharges : s.overridePort = .dontCharge
  · exact .inl (by simp [getBestPort, hcharges])
  · have hkeeps : keepsPort c e s (scan c e s) = false := by
      cases hport : s.chargePort with
      | none => simp [keepsPort, hport]
      | some p =>
        have hbattery : isBatteryDisconnected c e = false := by
          by_contra hdis
          exact h p ⟨by simpa using hdis, hcharges, hport⟩
        simp [keepsPort, hbattery]
    have hbest : getBestPort c e s = ((scan c e s).port, (scan c e s).supplier) := by
      simp [getBestPort, hcharges, hkeeps]
    rw [hbest]
    obtain ⟨hsup, hport⟩ | ⟨i, p, hsup, hport, helig⟩ := scan_ok (c := c) (e := e) (s := s)
    · exact .inl (by rw [hsup, hport])
    · exact .inr ⟨i, p, by rw [hsup, hport], helig⟩

theorem scanPorts_emit (ev : Event) (i : Nat) (ps : List Nat) (b : Best) :
    scanPorts c e (emit ev s) i ps b = scanPorts c e s i ps b := by
  induction ps generalizing b with
  | nil => rfl
  | cons p ps ih =>
    rw [scanPorts_cons, scanPorts_cons, ih]
    rfl

theorem getBestPort_emit (ev : Event) : getBestPort c e (emit ev s) = getBestPort c e s := by
  have hscan : scan c e (emit ev s) = scan c e s := by simp only [scan, scanPorts_emit]
  simp only [getBestPort, hscan]
  rfl

theorem getBestPort_rejected (p : Nat) :
    getBestPort c e (rejected c p s) = getBestPort c e (clearPort c p s) :=
  getBestPort_emit (s := clearPort c p s) (.setActiveChargePort (some p))

theorem clearPort_rejected (p : Nat) : clearPort c p (rejected c p s) = rejected c p s := by
  simp only [rejected, clearPort, emit, St.mk.injEq, and_true]
  funext i q
  split
  · rfl
  · rfl

theorem Spins.rejected {p : Nat} (h : Spins c e s p) : Spins c e (rejected c p s) p where
  toPinned := h.toPinned.hunted (Hunted.rejected p s)
  rejects := h.rejects
  changes := by
    intro hinit
    have hclear : (getBestPort c e (ChargeManager.rejected c p s)).2 ≠ s.chargeSupplier := by
      rw [getBestPort_rejected]
      exact (h.changes hinit).2
    exact ⟨hclear, by rwa [clearPort_rejected]⟩

theorem Spins.not_unchanged {p : Nat} (h : Spins c e s p) :
    isUnchanged (getBestPort c e s) s = false := by
  cases hinit : s.activeChargePortInitialized with
  | false => simp [isUnchanged, hinit]
  | true => simp [isUnchanged, (h.changes hinit).1]

theorem Spins.hunt_eq_none {p : Nat} (h : Spins c e s p) (n : Nat) : hunt c (fun _ => e) n s = none := by
  induction n generalizing s with
  | zero => rfl
  | succ n ih =>
    have hport := h.toPinned.getBestPort_fst
    rw [hunt_succ, h.not_unchanged, hport]
    simp [h.rejects, ih h.rejected]

/-- The second iteration with the pinned port is the last one, if there is one. -/
theorem Pinned.hunt_isSome {p : Nat} (h : Pinned c e s p) (hspins : ¬Spins c e s p) (n : Nat) :
    ∃ r, hunt c (fun _ => e) (n + 2) s = some r ∧ r ≠ .assertFailed := by
  have hport := h.getBestPort_fst
  have hport' := (h.hunted (Hunted.rejected (c := c) p s)).getBestPort_fst
  rw [hunt_succ, hport]
  by_cases hsame : isUnchanged (getBestPort c e s) s = true
  · simp [hsame]
  · by_cases hboard : e.boardSetActiveChargePort (some p) = true
    · simp [hsame, hboard]
    · have hsame' : isUnchanged (getBestPort c e (rejected c p s)) (rejected c p s) = true := by
        by_contra hne
        refine hspins ⟨h, by simpa using hboard, ?_⟩
        intro hinit
        constructor
        · intro heq
          exact hsame (by simp [isUnchanged, hinit, hport, h.port, heq])
        · intro heq
          have hsupplier : (getBestPort c e (rejected c p s)).2 = (rejected c p s).chargeSupplier := by
            rw [getBestPort_rejected]
            exact heq
          have hcharge : (rejected c p s).chargePort = some p := h.port
          have hinit' : (rejected c p s).activeChargePortInitialized = true := hinit
          exact hne (by simp [isUnchanged, hinit', hport', hcharge, hsupplier])
      simp [hsame, hboard, hunt_succ, hport', hsame']

end

/-! ## The ports that are left -/

section

variable {c : Config} {e : Env} {s : St}

def charged (c : Config) (s : St) : Finset Nat :=
  (Finset.range c.chargePortCount).filter fun p =>
    ∃ i ∈ Finset.range c.supplierCount, (s.availableCharge i p).current ≠ 0

theorem charged_card_le : (charged c s).card ≤ c.chargePortCount :=
  (Finset.card_filter_le _ _).trans_eq (Finset.card_range _)

theorem charged_rejected_lt {i p : Nat} (h : Eligible c e s i p) :
    (charged c (rejected c p s)).card < (charged c s).card := by
  apply Finset.card_lt_card
  rw [Finset.ssubset_iff_of_subset]
  · refine ⟨p, ?_, ?_⟩
    · simp only [charged, Finset.mem_filter, Finset.mem_range]
      exact ⟨isValidPort_lt c h.port, i, h.supplier, h.current⟩
    · simp only [charged, Finset.mem_filter, Finset.mem_range]
      rintro ⟨-, j, hj, hcurrent⟩
      exact hcurrent (by simp [rejected, clearPort, hj])
  · intro q hq
    simp only [charged, Finset.mem_filter, Finset.mem_range] at hq ⊢
    obtain ⟨hlt, j, hj, hcurrent⟩ := hq
    refine ⟨hlt, j, hj, ?_⟩
    intro hzero
    apply hcurrent
    simp only [rejected, clearPort]
    split
    · rfl
    · exact hzero

/-- Every iteration without a pinned port is the last one or leaves one port less. -/
theorem hunt_isSome (hnone : e.boardSetActiveChargePort none = true) {n : Nat}
    (hfree : ∀ p, ¬Pinned c e s p) (hn : (charged c s).card < n) :
    ∃ r, hunt c (fun _ => e) n s = some r ∧ r ≠ .assertFailed := by
  induction n generalizing s with
  | zero => omega
  | succ n ih =>
    rw [hunt_succ]
    by_cases hsafe : (!s.leftSafeMode && (getBestPort c e s).1 == none) = true
    · rw [if_pos hsafe]
      exact ⟨_, rfl, nofun⟩
    · rw [if_neg hsafe]
      by_cases hsame : isUnchanged (getBestPort c e s) s = true
      · rw [if_pos hsame]
        exact ⟨_, rfl, nofun⟩
      · rw [if_neg hsame]
        by_cases hboard : e.boardSetActiveChargePort (getBestPort c e s).1 = true
        · rw [if_pos hboard]
          exact ⟨_, rfl, nofun⟩
        · obtain hbest | ⟨i, p, hbest, helig⟩ := getBestPort_eligible hfree
          · rw [hbest] at hboard
            exact absurd hnone hboard
          · have hfree' : ∀ q, ¬Pinned c e (rejected c p s) q :=
              fun q h => hfree q ⟨h.battery, h.charges, h.port⟩
            have hlt := charged_rejected_lt helig
            obtain ⟨r, hr, hne⟩ := ih hfree' (by omega)
            refine ⟨r, ?_, hne⟩
            rw [if_neg hboard, hbest]
            exact hr

end

/-! ## The charge port of a run -/

section

variable {c : Config}

def SameCharge (s s' : St) : Prop := s'.chargePort = s.chargePort ∧ s'.chargeSupplier = s.chargeSupplier

theorem SameCharge.refl (s : St) : SameCharge s s := ⟨rfl, rfl⟩

theorem SameCharge.trans {s₁ s₂ s₃ : St} (h₁ : SameCharge s₁ s₂) (h₂ : SameCharge s₂ s₃) :
    SameCharge s₁ s₃ :=
  ⟨h₂.1.trans h₁.1, h₂.2.trans h₁.2⟩

theorem SameCharge.ite {p : Prop} [Decidable p] {s a b : St} (ha : SameCharge s a)
    (hb : SameCharge s b) : SameCharge s (if p then a else b) := by
  split
  · exact ha
  · exact hb

theorem SameCharge.refreshIfSeeded (s : St) : SameCharge s (refreshIfSeeded c s) :=
  .ite ⟨rfl, rfl⟩ (.refl s)

theorem SameCharge.setOverride (e : Env) (port : Override) (s : St) :
    SameCharge s (chargeManagerSetOverride c e port s).2 := by
  have hset : SameCharge s
      (if s.overridePort != port then ChargeManager.refreshIfSeeded c { s with overridePort := port } else s) :=
    .ite (.trans ⟨rfl, rfl⟩ (.refreshIfSeeded _)) (.refl s)
  simp only [chargeManagerSetOverride]
  split
  · exact .refl s
  · split
    · split
      · exact hset
      · split
        · exact ⟨rfl, rfl⟩
        · exact .refl s
    · exact hset

theorem SameCharge.removeOverride (port : Nat) (s : St) : SameCharge s (removeOverride c port s) :=
  .ite ⟨rfl, rfl⟩ (.refl s)

/-- Only the naming of the port at boot sets charge port and supplier, and both were unset. -/
theorem step_charge (e : Env) (s : St) (i : Input c) :
    SameCharge s (step c e s i) ∨
      ∃ (p : Fin c.usbPdPortCount) (j : Fin c.supplierCount),
        (step c e s i).chargePort = some p.val ∧ (step c e s i).chargeSupplier = some j.val := by
  cases i with
  | updateCharge supplier port charge =>
    refine .inl (.ite (.refl s) (.ite (.refl s) (.trans ?_ (.refreshIfSeeded _))))
    have hremoved : SameCharge s (if (charge.current > 0 && (s.availableCharge supplier port).current == 0) = true
        then removeOverride c port s else s) := .ite (.removeOverride port s) (.refl s)
    exact .ite (.trans (.trans hremoved ⟨rfl, rfl⟩) (.setOverride e _ _)) (.trans hremoved ⟨rfl, rfl⟩)
  | updateDualrole port cap =>
    refine .inl (.ite (.refl s) (.ite (.refl s) (.ite ⟨rfl, rfl⟩ (.ite ⟨rfl, rfl⟩ (.ite ?_ ⟨rfl, rfl⟩)))))
    refine .trans (.trans ?_ (.removeOverride port _)) (.refreshIfSeeded _)
    exact ⟨rfl, rfl⟩
  | leaveSafeMode => exact .inl (.ite (.refl s) (.trans ⟨rfl, rfl⟩ (.refreshIfSeeded _)))
  | setCeil port requestor ceil =>
    exact .inl (.ite (.refl s) (.ite (.refl s) (.ite (.trans ⟨rfl, rfl⟩ (.refreshIfSeeded _)) ⟨rfl, rfl⟩)))
  | forceCeil port ceil =>
    refine .inl (.ite ⟨rfl, rfl⟩ ?_)
    exact .ite (.refl s) (.ite (.refl s) (.ite (.trans ⟨rfl, rfl⟩ (.refreshIfSeeded _)) ⟨rfl, rfl⟩))
  | setOverride port => exact .inl (.setOverride e port s)
  | overrideTimeout => exact .inl ⟨rfl, rfl⟩
  | setSupplier port supplier =>
    simp only [step, chargeManagerSetSupplier]
    split
    · exact .inl (.refl s)
    · exact .inr ⟨port, supplier, rfl, rfl⟩

end

section

variable {c : Config} {e : Env} {s : St}

theorem isPdPort_valid {p : Nat} (h : p < c.usbPdPortCount) : isValidPort c p = true := by
  have hle := c.usbPdPortCount_le
  have hcount : p < c.chargePortCount := by
    unfold Config.chargePortCount
    omega
  simp only [isValidPort, Bool.and_eq_true, Bool.not_eq_true', decide_eq_true_eq]
  refine ⟨hcount, ?_⟩
  simp [Nat.not_le.mpr h]

theorem getBestPort_port {p : Nat} (h : (getBestPort c e s).1 = some p) :
    s.chargePort = some p ∨ isValidPort c p = true := by
  by_cases hpinned : ∃ q, Pinned c e s q
  · obtain ⟨q, hq⟩ := hpinned
    exact .inl (hq.port.trans (hq.getBestPort_fst.symm.trans h))
  · obtain hbest | ⟨i, q, hbest, helig⟩ := getBestPort_eligible (not_exists.mp hpinned)
    · rw [hbest] at h
      cases h
    · rw [hbest] at h
      obtain rfl := Option.some.inj h
      exact .inr helig.port

theorem emit_charge (ev : Event) (s : St) : SameCharge s (emit ev s) := ⟨rfl, rfl⟩

theorem signalOldPort_charge (port : Nat) (s : St) : SameCharge s (signalOldPort c port s) :=
  .ite (emit_charge _ s) (.refl s)

theorem signalNewPort_charge (port : Nat) (s : St) : SameCharge s (signalNewPort c e port s) :=
  .ite (.refl s) (.ite (emit_charge _ s) (.ite (emit_charge _ s) (.refl s)))

theorem applyChoice_charge (port supplier : Option Nat) (s : St) :
    (applyChoice c e port supplier s).chargePort = port ∧
      (applyChoice c e port supplier s).chargeSupplier = supplier := by
  -- The steps after charge port and supplier have been set.
  show SameCharge { s with chargePort := port, chargeSupplier := supplier } (applyChoice c e port supplier s)
  refine .trans ?_ (.ite (emit_charge .powerSupplyChange _) (.refl _))
  cases port with
  | none =>
    split
    · exact signalOldPort_charge _ _
    · exact .refl _
  | some p =>
    have hnew : ∀ (updated : Bool) (s : St), SameCharge s (if updated then signalNewPort c e p s else s) :=
      fun updated s => .ite (signalNewPort_charge p s) (.refl s)
    split
    · refine .trans ?_ (signalOldPort_charge _ _)
      exact hnew _ _
    · exact hnew _ _

end

section

variable {c : Config} {e : Env} {s s' : St}

/-- A refresh leaves charge port and supplier, or sets them to what is best at the end of
the hunt. -/
theorem refresh_charge {e : Nat → Env} {n : Nat} (h : Refreshes c e n s s') :
    SameCharge s s' ∨
      ∃ e₁ s₁, Hunted { s with refreshDeferred := false } s₁ ∧
        s'.chargePort = (getBestPort c e₁ s₁).1 ∧ s'.chargeSupplier = (getBestPort c e₁ s₁).2 := by
  obtain ⟨-, r, hr, hfinish⟩ := h
  cases hunt_ends hr with
  | safeMode hs =>
    obtain ⟨_, _, rfl⟩ := hs.hunted
    cases hfinish
    exact .inl ⟨rfl, rfl⟩
  | unchanged hs =>
    cases hfinish
    exact .inr ⟨_, _, hs.hunted, applyChoice_charge _ _ _⟩
  | accepted hs =>
    cases hfinish
    exact .inr ⟨_, _, hs.hunted, applyChoice_charge _ _ _⟩
  | assertFailed => cases hfinish

theorem Reachable.chargePort_valid (h : Reachable c s) {p : Nat} (hp : s.chargePort = some p) :
    isValidPort c p = true := by
  induction h generalizing p with
  | initial => cases hp
  | @step s e i _ ih =>
    obtain hsame | ⟨q, j, hport, -⟩ := step_charge e s i
    · exact ih (hsame.1.symm.trans hp)
    · obtain rfl := Option.some.inj (hport.symm.trans hp)
      exact isPdPort_valid q.isLt
  | @refresh s s' e n _ href ih =>
    obtain hsame | ⟨_, s₁, hs₁, hport, -⟩ := refresh_charge href
    · exact ih (hsame.1.symm.trans hp)
    · obtain hcharge | hvalid := getBestPort_port (hport.symm.trans hp)
      · obtain ⟨_, _, rfl⟩ := hs₁
        exact ih hcharge
      · exact hvalid

/-! ## The theorem -/

/-- As long as the answers stay the same, the hunt ends after at most one iteration more than
there are ports, without the failure of an assertion, unless the charge port is pinned and the board does not want it. -/
theorem hunt_ends_iff (hs : Reachable c s) (hnone : e.boardSetActiveChargePort none = true) :
    (∃ r, hunt c (fun _ => e) (c.chargePortCount + 1) s = some r ∧ r ≠ .assertFailed) ↔
      ∀ p, ¬Spins c e s p := by
  constructor
  · rintro ⟨r, hr, -⟩ p hspins
    rw [hspins.hunt_eq_none] at hr
    cases hr
  · intro hfree
    by_cases hpinned : ∃ p, Pinned c e s p
    · obtain ⟨p, hp⟩ := hpinned
      have hcount := isValidPort_lt c (hs.chargePort_valid hp.port)
      obtain ⟨n, hn⟩ : ∃ n, c.chargePortCount + 1 = n + 2 := ⟨c.chargePortCount - 1, by omega⟩
      rw [hn]
      exact hp.hunt_isSome (hfree p) n
    · exact hunt_isSome hnone (not_exists.mp hpinned) (Nat.lt_succ_of_le charged_card_le)

theorem Reachable.foldl (hs : Reachable c s) (e : Env) (is : List (Input c)) :
    Reachable c (is.foldl (ChargeManager.step c e) s) :=
  List.foldlRecOn is _ hs fun _ hs i _ => hs.step e i

end

/-! ## Without a battery -/

def pd : Fin twoPorts.supplierCount := ⟨0, by decide⟩

def typec : Fin twoPorts.supplierCount := ⟨1, by decide⟩

/-- Both ports are dedicated chargers and all suppliers have reported. The first port
offers charge by PD. -/
def reports : List (Input twoPorts) :=
  [.updateDualrole 0 .dedicated, .updateDualrole 1 .dedicated,
    .updateCharge pd 0 ⟨3000, 20000⟩, .updateCharge typec 0 ⟨0, 0⟩,
    .updateCharge pd 1 ⟨0, 0⟩, .updateCharge typec 1 ⟨0, 0⟩]

def plugged : St := reports.foldl (step twoPorts calm) (initial twoPorts true)

/-- The first port has been selected. -/
def charging : St :=
  applyChoice twoPorts calm (some 0) (some 0)
    (emit (.setActiveChargePort (some 0)) { plugged with refreshDeferred := false })

theorem charging_refreshes : Refreshes twoPorts (fun _ => calm) 1 plugged charging := by
  have hbest : getBestPort twoPorts calm { plugged with refreshDeferred := false } = (some 0, some 0) := by
    decide +kernel
  have hsame : isUnchanged (some 0, some 0) { plugged with refreshDeferred := false } = false := by
    decide +kernel
  refine ⟨by decide +kernel, .selected (some 0) (some 0) _, ?_, rfl⟩
  rw [hunt_succ, hbest, hsame]
  rfl

theorem charging_reachable : Reachable twoPorts charging :=
  ((Reachable.initial true).foldl calm reports).refresh (fun _ => calm) 1 charging_refreshes

/-- The battery is gone, and the board does not take the first port. -/
def noBattery : Env :=
  { calm with
    batteryIsPresent := .no
    boardSetActiveChargePort := fun port => port != some 0 }

/-- The first port is unplugged, and the second one offers charge by Type-C. -/
def replugged : St :=
  [Input.updateCharge pd 0 ⟨0, 0⟩, .updateCharge typec 1 ⟨1500, 5000⟩].foldl (step twoPorts calm) charging

theorem replugged_spins : Spins twoPorts noBattery replugged 0 where
  battery := by decide
  charges := by decide +kernel
  port := by decide +kernel
  rejects := by decide
  changes := fun _ => by decide +kernel

/-- The hunt offers the first port to the board again and again. -/
theorem hunt_never_ends :
    ¬∀ (c : Config) (s : St) (e : Env), Reachable c s → e.boardSetActiveChargePort none = true →
      ∃ r, hunt c (fun _ => e) (c.chargePortCount + 1) s = some r ∧ r ≠ .assertFailed := by
  intro h
  obtain ⟨r, hr, -⟩ := h twoPorts replugged noBattery (charging_reachable.foldl calm _) (by decide)
  rw [replugged_spins.hunt_eq_none] at hr
  cases hr

/-- Before the charger is unplugged the supplier does not change. -/
theorem hunt_ends_iff_charging :
    ∃ r, hunt twoPorts (fun _ => noBattery) (twoPorts.chargePortCount + 1) charging = some r ∧
      r ≠ .assertFailed := by
  refine (hunt_ends_iff charging_reachable (by decide)).mpr ?_
  intro p hspins
  exact (hspins.changes (by decide +kernel)).1 (by decide +kernel)

end ChromeEc.ChargeManager
