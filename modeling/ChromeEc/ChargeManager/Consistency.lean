import ChromeEc.ChargeManager.Hunt

/- Charge port and charge supplier.

  The loops of `charge_manager_get_best_port` find both or neither. The patch at their
  end replaces the port by the charge port when there is no battery, and the supplier
  only if this one still offers something: without another port to take a supplier from,
  the pair is a port and no supplier. If the board takes the port, the next patch reads
  the table at `CHARGE_SUPPLIER_NONE`.

  The battery is asked for in every iteration of the hunt, so this can happen in any of them.

  What is proved: as long as no iteration goes this way, port and supplier are both set or
  both unset, and the table is read where it has entries (`port_supplier_consistent`). -/
namespace ChromeEc.ChargeManager

/-! ## The scan -/

section

variable {c : Config} {e : Env} {s : St}

theorem scanPorts_none {i : Nat} (ps : List Nat) {b : Best} (hb : b.supplier = none → b.port = none)
    (h : (scanPorts c e s i ps b).supplier = none) :
    b.supplier = none ∧ ∀ p ∈ ps, isOpen c e s i p = false := by
  induction ps generalizing b with
  | nil => exact ⟨h, by simp⟩
  | cons p ps ih =>
    rw [scanPorts_cons] at h
    split at h
    · cases h
    · have hvisit : (visit c e s i b p).supplier = none → (visit c e s i b p).port = none := by
        simp only [visit]
        split
        · intro hsome
          cases hsome
        · exact hb
      obtain ⟨hsup, hrest⟩ := ih hvisit h
      by_cases htaken : (isOpen c e s i p && !isOverridden s p b &&
          isBetter c s i p (getCandidatePortPower c e s i p) b) = true
      · simp [visit, htaken] at hsup
      · have hnone : b.supplier = none := by simpa [visit, htaken] using hsup
        -- Nothing was selected, so this pair is left for no other reason than its charge.
        have hover : isOverridden s p b = false := by
          unfold isOverridden
          split
          · simp [hb hnone]
          · rfl
        have hbetter : isBetter c s i p (getCandidatePortPower c e s i p) b = true := by
          simp [isBetter, hnone]
        have hclosed : isOpen c e s i p = false := by simpa [hover, hbetter] using htaken
        refine ⟨hnone, ?_⟩
        intro q hq
        obtain rfl | hq := List.mem_cons.mp hq
        · exact hclosed
        · exact hrest q hq

theorem scan_none (h : (scan c e s).supplier = none) (i p : Nat) : ¬Eligible c e s i p := by
  have hloop : ∀ (is : List Nat) (b : Best), (∀ i ∈ is, i < c.supplierCount) → BestOk c e s b →
      (is.foldl (fun b i => scanPorts c e s i (List.range c.chargePortCount) b) b).supplier = none →
      b.supplier = none ∧ ∀ i ∈ is, ∀ p ∈ List.range c.chargePortCount, isOpen c e s i p = false := by
    intro is
    induction is with
    | nil => exact fun b _ _ h => ⟨h, by simp⟩
    | cons i is ih =>
      intro b his hb h
      have hi := his i (List.mem_cons_self ..)
      obtain ⟨hnone, hrest⟩ :=
        ih _ (fun j hj => his j (List.mem_cons_of_mem i hj)) (scanPorts_ok hi _ hb) h
      have hunset : b.supplier = none → b.port = none := by
        intro hsup
        obtain ⟨-, hport⟩ | ⟨j, q, hj, -, -⟩ := hb
        · exact hport
        · rw [hsup] at hj
          cases hj
      obtain ⟨hsup, hports⟩ := scanPorts_none _ hunset hnone
      refine ⟨hsup, ?_⟩
      intro j hj
      obtain rfl | hj := List.mem_cons.mp hj
      · exact hports
      · exact hrest j hj
  intro helig
  obtain ⟨hi, hopen⟩ := (eligible_iff c e s i p).mp helig
  have hclosed := (hloop _ _ (fun i hi => List.mem_range.mp hi) (.inl ⟨rfl, rfl⟩) h).2 i
    (List.mem_range.mpr hi) p (List.mem_range.mpr (isValidPort_lt c helig.port))
  rw [hopen] at hclosed
  cases hclosed

end

/-! ## Consistent pairs -/

section

variable (c : Config)

def InRange (supplier port : Option Nat) : Prop :=
  ∃ i p, supplier = some i ∧ port = some p ∧ i < c.supplierCount ∧ isValidPort c p = true

/-- Both are unset, or they are a place of the table. -/
def ConsistentPair (supplier port : Option Nat) : Prop :=
  (supplier = none ∧ port = none) ∨ InRange c supplier port

def Consistent (s : St) : Prop := ConsistentPair c s.chargeSupplier s.chargePort

variable {c} {e : Env} {s : St}

theorem scan_consistent : ConsistentPair c (scan c e s).supplier (scan c e s).port := by
  obtain h | ⟨i, p, hsup, hport, helig⟩ := scan_ok (c := c) (e := e) (s := s)
  · exact .inl h
  · exact .inr ⟨i, p, hsup, hport, helig.supplier, helig.port⟩

variable (c e s)

/-- The charge port is kept and accepted, but there is no supplier: it does not offer
anything any more, and neither does any other. -/
structure KeepsEmpty (p : Nat) : Prop extends Pinned c e s p where
  accepts : e.boardSetActiveChargePort (some p) = true
  empty : chargeAt e s s.chargeSupplier s.chargePort = ⟨0, 0⟩
  noOther : ∀ i q, ¬Eligible c e s i q

variable {c e s}

/-! ## A refresh -/

theorem getBestPort_consistent (h : ∀ p, ¬Pinned c e s p) :
    ConsistentPair c (getBestPort c e s).2 (getBestPort c e s).1 := by
  obtain hbest | ⟨i, p, hbest, helig⟩ := getBestPort_eligible h
  · exact .inl (by simp [hbest])
  · exact .inr ⟨i, p, by simp [hbest], by simp [hbest], helig.supplier, helig.port⟩

theorem Pinned.getBestPort_snd {p : Nat} (h : Pinned c e s p) :
    ((scan c e s).port = some p ∧ (getBestPort c e s).2 = (scan c e s).supplier) ∨
      ((getBestPort c e s).2 = if chargeAt e s s.chargeSupplier s.chargePort = ⟨0, 0⟩ then
        (scan c e s).supplier else s.chargeSupplier) := by
  have hcharges := h.charges
  by_cases hport : (scan c e s).port = some p
  · have hkeeps : keepsPort c e s (scan c e s) = false := by simp [keepsPort, h.port, hport]
    exact .inl ⟨hport, by simp [getBestPort, hcharges, hkeeps]⟩
  · have hkeeps : keepsPort c e s (scan c e s) = true := by
      simp [keepsPort, h.port, h.battery, Ne.symm hport]
    refine .inr ?_
    simp only [getBestPort, hkeeps, if_true]
    generalize chargeAt e s s.chargeSupplier s.chargePort = info
    obtain ⟨current, voltage⟩ := info
    by_cases hcurrent : current = 0
    · by_cases hvoltage : voltage = 0
      · simp [hcharges, hcurrent, hvoltage]
      · simp [hcharges, hvoltage]
    · simp [hcharges, hcurrent]

theorem Pinned.getBestPort_consistent {p : Nat} (h : Pinned c e s p) (hs : Consistent c s)
    (hkeeps : ¬KeepsEmpty c e s p) (haccepts : e.boardSetActiveChargePort (some p) = true) :
    ConsistentPair c (getBestPort c e s).2 (getBestPort c e s).1 := by
  obtain ⟨i, q, hsup, hport, hi, hvalid⟩ : InRange c s.chargeSupplier s.chargePort := by
    refine hs.resolve_left ?_
    rintro ⟨-, hnone⟩
    rw [h.port] at hnone
    cases hnone
  obtain rfl : p = q := Option.some.inj (h.port.symm.trans hport)
  rw [h.getBestPort_fst]
  -- With the supplier of the scan, whatever port this one is on.
  have hscan : (scan c e s).supplier ≠ none → ConsistentPair c (scan c e s).supplier (some p) := by
    intro hne
    obtain ⟨hnone, -⟩ | ⟨j, _, hj, -, hlt, -⟩ := scan_consistent (c := c) (e := e) (s := s)
    · exact absurd hnone hne
    · exact .inr ⟨j, p, hj, rfl, hlt, hvalid⟩
  obtain ⟨hscanPort, hbest⟩ | hbest := h.getBestPort_snd
  · rw [hbest, ← hscanPort]
    exact scan_consistent
  · rw [hbest]
    split
    · next hempty =>
      exact hscan fun hnone => hkeeps ⟨h, haccepts, hempty, scan_none hnone⟩
    · exact .inr ⟨i, p, hsup, rfl, hi, hvalid⟩

theorem Consistent.same {s' : St} (hs : Consistent c s) (h : SameCharge s s') : Consistent c s' := by
  unfold Consistent
  rw [h.1, h.2]
  exact hs

theorem Consistent.hunted {s' : St} (hs : Consistent c s) (h : Hunted s s') : Consistent c s' := by
  obtain ⟨_, _, rfl⟩ := h
  exact hs

/-- No iteration of the hunt keeps a port without a supplier. -/
def TidyHunt (c : Config) (e : Nat → Env) (s : St) : Prop :=
  ∀ e₁ s₁, Visits c e s e₁ s₁ → ∀ p, ¬KeepsEmpty c e₁ s₁ p

theorem hunt_consistent {e : Nat → Env} {n : Nat} {port supplier : Option Nat} {s₁ : St} (hs : Consistent c s)
    (htidy : TidyHunt c e s) (hr : hunt c e n s = some (.selected port supplier s₁)) :
    ConsistentPair c supplier port := by
  cases hunt_ends hr with
  | unchanged hvisits hsame =>
    simp only [isUnchanged, Bool.and_eq_true, beq_iff_eq] at hsame
    rw [hsame.1.2, hsame.2]
    exact hs.hunted hvisits.hunted
  | @accepted e₁ s₁ hvisits hboard =>
    by_cases hpinned : ∃ p, Pinned c e₁ s₁ p
    · obtain ⟨p, hp⟩ := hpinned
      rw [hp.getBestPort_fst] at hboard
      exact hp.getBestPort_consistent (hs.hunted hvisits.hunted) (htidy e₁ s₁ hvisits p) hboard
    · exact ChargeManager.getBestPort_consistent (not_exists.mp hpinned)

theorem refresh_consistent {e : Nat → Env} {n : Nat} {s' : St} (hs : Consistent c s)
    (htidy : TidyHunt c e { s with refreshDeferred := false }) (h : Refreshes c e n s s') : Consistent c s' := by
  obtain ⟨-, r, hr, hfinish⟩ := h
  have hstart : Consistent c { s with refreshDeferred := false } := hs
  cases r with
  | safeMode s₁ =>
    cases hfinish
    cases hunt_ends hr with
    | safeMode hvisits => exact hstart.hunted hvisits.hunted
  | selected port supplier s₁ =>
    cases hfinish
    obtain ⟨hport, hsup⟩ := applyChoice_charge (c := c) (e := e n) port supplier s₁
    unfold Consistent
    rw [hport, hsup]
    exact hunt_consistent hstart htidy hr
  | assertFailed => cases hfinish

end

/-! ## Runs -/

/-- A run in which no iteration of a refresh keeps a port without a supplier. -/
inductive TidyRun (c : Config) : St → Prop
  | initial (leftSafeMode : Bool) : TidyRun c (initial c leftSafeMode)
  | step {s : St} (e : Env) (i : Input c) : TidyRun c s → TidyRun c (step c e s i)
  | refresh {s s' : St} (e : Nat → Env) (n : Nat) : TidyRun c s →
      TidyHunt c e { s with refreshDeferred := false } → Refreshes c e n s s' → TidyRun c s'

/-- A hunt from this state reads the table where it has entries: in the patch of
`charge_manager_get_best_port`, and at its end. -/
structure ReadsInRange (c : Config) (e : Nat → Env) (s : St) : Prop where
  kept : ∀ e₁ s₁, Visits c e s e₁ s₁ → keepsPort c e₁ s₁ (scan c e₁ s₁) = true →
    InRange c s₁.chargeSupplier s₁.chargePort
  selected : ∀ n port supplier s₁, hunt c e n s = some (.selected port supplier s₁) →
    supplier ≠ none → InRange c supplier port

section

variable {c : Config} {s : St}

theorem TidyRun.consistent (h : TidyRun c s) : Consistent c s := by
  induction h with
  | initial => exact .inl ⟨rfl, rfl⟩
  | @step s e i _ ih =>
    obtain hsame | ⟨p, j, hport, hsup⟩ := step_charge e s i
    · exact ih.same hsame
    · exact .inr ⟨j, p, hsup, hport, j.isLt, isPdPort_valid p.isLt⟩
  | refresh e n _ htidy href ih => exact refresh_consistent ih htidy href

theorem ConsistentPair.inRange {supplier port : Option Nat} (h : ConsistentPair c supplier port)
    (hne : supplier ≠ none) : InRange c supplier port :=
  h.resolve_left fun hnone => hne hnone.1

theorem Consistent.readsInRange (hs : Consistent c s) {e : Nat → Env} (htidy : TidyHunt c e s) :
    ReadsInRange c e s where
  kept := by
    intro e₁ s₁ hvisits h
    refine (hs.hunted hvisits.hunted).resolve_left ?_
    rintro ⟨-, hnone⟩
    simp [keepsPort, hnone] at h
  selected := by
    intro n port supplier s₁ hr
    exact (hunt_consistent hs htidy hr).inRange

/-- Port and supplier are both set or both unset, and no refresh that can follow reads
outside of the table. -/
theorem port_supplier_consistent (h : TidyRun c s) :
    (s.chargeSupplier = none ↔ s.chargePort = none) ∧
    (∀ i p, s.chargeSupplier = some i → s.chargePort = some p →
      i < c.supplierCount ∧ isValidPort c p = true) ∧
    ∀ e : Nat → Env, TidyHunt c e { s with refreshDeferred := false } →
      ReadsInRange c e { s with refreshDeferred := false } := by
  have hstart : Consistent c { s with refreshDeferred := false } := h.consistent
  refine ⟨?_, ?_, fun e htidy => hstart.readsInRange htidy⟩
  · obtain ⟨hsup, hport⟩ | ⟨i, p, hsup, hport, -⟩ := h.consistent
    · simp [hsup, hport]
    · simp [hsup, hport]
  · intro i p hsup hport
    have hne : s.chargeSupplier ≠ none := by simp [hsup]
    obtain ⟨j, q, hj, hq, hlt, hvalid⟩ := h.consistent.inRange hne
    obtain rfl := Option.some.inj (hsup.symm.trans hj)
    obtain rfl := Option.some.inj (hport.symm.trans hq)
    exact ⟨hlt, hvalid⟩

/-- An iteration that keeps a port without a supplier does select the port alone. -/
theorem KeepsEmpty.getBestPort_eq {e : Env} {p : Nat} (h : KeepsEmpty c e s p) :
    getBestPort c e s = (some p, none) := by
  have hnone : (scan c e s).supplier = none := by
    obtain ⟨hnone, -⟩ | ⟨i, q, -, -, helig⟩ := scan_ok (c := c) (e := e) (s := s)
    · exact hnone
    · exact absurd helig (h.noOther i q)
  refine Prod.ext h.toPinned.getBestPort_fst ?_
  obtain ⟨-, hbest⟩ | hbest := h.toPinned.getBestPort_snd
  · exact hbest.trans hnone
  · rw [hbest, h.empty, if_pos rfl, hnone]

end

/-! ## Unplugged without a battery -/

def removed : Env := { calm with batteryIsPresent := .no }

/-- The board rejects the second port, and then the battery is taken away. -/
def removedMeanwhile : Nat → Env
  | 0 => { calm with boardSetActiveChargePort := fun port => port != some 1 }
  | _ => removed

def outbid : St := step twoPorts calm charging (.updateCharge pd 1 ⟨5000, 20000⟩)

theorem outbid_visits {e' : Env} {s' : St}
    (h : Visits twoPorts removedMeanwhile { outbid with refreshDeferred := false } e' s') :
    isBatteryDisconnected twoPorts e' = false ∨ chargeAt e' s' s'.chargeSupplier s'.chargePort = ⟨3000, 20000⟩ := by
  cases h with
  | first => exact .inl (by decide)
  | @next _ _ _ _ port hbest _ _ h =>
    have hsecond : (getBestPort twoPorts (removedMeanwhile 0) { outbid with refreshDeferred := false }).1 =
        some 1 := by decide +kernel
    obtain rfl : 1 = port := Option.some.inj (hsecond.symm.trans hbest)
    refine .inr ?_
    cases h with
    | first => decide +kernel
    | next _ hchanged =>
      -- the first port is the best one again, and the present one
      have hsame : isUnchanged (getBestPort twoPorts (removedMeanwhile 1)
          (rejected twoPorts 1 { outbid with refreshDeferred := false }))
          (rejected twoPorts 1 { outbid with refreshDeferred := false }) = true := by decide +kernel
      exact absurd (hsame.symm.trans hchanged) (by decide)

/-- A rejection, and the battery is gone before the next iteration: the charge port is kept
with its supplier. -/
theorem port_supplier_consistent_charging :
    charging.chargePort = some 0 ∧
      (charging.chargeSupplier = none ↔ charging.chargePort = none) ∧
      ReadsInRange twoPorts removedMeanwhile { outbid with refreshDeferred := false } := by
  have hpresent : isBatteryDisconnected twoPorts calm = false := by decide
  have hcalm : ∀ s, TidyHunt twoPorts (fun _ => calm) s := by
    intro s e₁ s₁ hvisits p h
    obtain ⟨k, rfl⟩ := hvisits.answer
    exact absurd (hpresent.symm.trans h.battery) (by decide)
  have htidy : TidyHunt twoPorts removedMeanwhile { outbid with refreshDeferred := false } := by
    intro e₁ s₁ hvisits p h
    obtain hbattery | hcharge := outbid_visits hvisits
    · exact absurd (hbattery.symm.trans h.battery) (by decide)
    · exact absurd (hcharge.symm.trans h.empty) (by decide)
  have hplugged : TidyRun twoPorts plugged :=
    List.foldlRecOn reports _ (TidyRun.initial true) fun s hs i _ => hs.step calm i
  have hrun : TidyRun twoPorts charging := hplugged.refresh (fun _ => calm) 1 (hcalm _) charging_refreshes
  obtain ⟨hboth, -, -⟩ := port_supplier_consistent hrun
  obtain ⟨-, -, hreads⟩ := port_supplier_consistent (hrun.step calm (.updateCharge pd 1 ⟨5000, 20000⟩))
  exact ⟨by decide +kernel, hboth, hreads removedMeanwhile htidy⟩

def unplugged : St := step twoPorts calm charging (.updateCharge pd 0 ⟨0, 0⟩)

theorem unplugged_keepsEmpty : KeepsEmpty twoPorts removed { unplugged with refreshDeferred := false } 0 where
  battery := by decide
  charges := by decide +kernel
  port := by decide +kernel
  accepts := by decide
  empty := by decide +kernel
  noOther := scan_none (by decide +kernel)

/-- The refresh after the unplugging leaves a charge port without a supplier, and the
next one reads the table before its first row. -/
theorem port_without_supplier :
    ∃ s', Reachable twoPorts unplugged ∧ Refreshes twoPorts (fun _ => removed) 1 unplugged s' ∧
      s'.chargePort = some 0 ∧ s'.chargeSupplier = none ∧ ¬ReadsInRange twoPorts (fun _ => removed) s' := by
  have hsame : isUnchanged (some 0, none) { unplugged with refreshDeferred := false } = false := by
    decide +kernel
  have hhunt : hunt twoPorts (fun _ => removed) 1 { unplugged with refreshDeferred := false } =
      some (.selected (some 0) none
        (emit (.setActiveChargePort (some 0)) { unplugged with refreshDeferred := false })) := by
    rw [hunt_succ, unplugged_keepsEmpty.getBestPort_eq, hsame]
    rfl
  obtain ⟨hport, hsup⟩ := applyChoice_charge (c := twoPorts) (e := removed) (some 0) none
    (emit (.setActiveChargePort (some 0)) { unplugged with refreshDeferred := false })
  refine ⟨_, charging_reachable.step calm _, ⟨by decide +kernel, _, hhunt, rfl⟩, hport, hsup, ?_⟩
  intro hreads
  obtain ⟨i, p, hi, -⟩ := hreads.kept _ _ (.first _ _) (by decide +kernel)
  rw [hsup] at hi
  cases hi

end ChromeEc.ChargeManager
