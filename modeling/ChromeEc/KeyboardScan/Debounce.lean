import ChromeEc.KeyboardScan.Expiry

/- After a change of a key is reported no other is until the time for it has elapsed, with the
  debouncer that is not strict.

  The time that has elapsed is never measured as more than it is, so that it does no harm to
  measure it from a later scan. The window is that of the column: a key that was reported as
  released is debounced by the time for key down while another key of its column is down. That
  matters when the key is read as pressed before the time for key up has elapsed (`Steady`). -/
namespace ChromeEc.KeyboardScan
open Lib Steps

variable {c : Config} {s s' : St} {scan : Scan} {a : Seen}

/-- A change is reported only when the time for the last one of the key has elapsed. -/
def Quiet (c : Config) (a : Seen) (x : St × Scan) : Prop :=
  ∀ key p, .changed key p ∈ (checkKeysChanged c x.2.time x.2.raw x.1.kb).events →
    ∀ u q, a.report key = some (u, q) → debounceTime c q ≤ x.2.time - u

/-- No key whose debouncing ended early is read as pressed before the time for key up has elapsed. -/
def Steady (c : Config) (a : Seen) (x : St × Scan) : Prop :=
  ¬Ghosts c x.2.raw → ∀ key, a.early key = true ∨ EndsEarly c x.2.time x.2.raw x.1.kb key →
    ((readMatrix c x.2.raw).1 key.1).getLsbD key.2 = true → ∀ u q, a.report key = some (u, q) →
      debounceTime c false ≤ x.2.time - u

/-! ## A scan and a key -/

theorem report_same {key : Key} (h : ∀ p, .changed key p ∉ (checkKeysChanged c scan.time scan.raw s.kb).events) :
    (a.after c (s, scan)).report key = a.report key ∧
      (a.after c (s, scan)).early key = (a.early key || decide (EndsEarly c scan.time scan.raw s.kb key)) := by
  unfold Seen.after
  dsimp only
  split
  · rename_i p hp
    exact absurd (findSome?_mem (fun _ _ => changeOf_eq_some) hp) (h p)
  · exact ⟨rfl, rfl⟩

theorem report_new {key : Key} {p : Bool} (h : .changed key p ∈ (checkKeysChanged c scan.time scan.raw s.kb).events) :
    ∃ q, .changed key q ∈ (checkKeysChanged c scan.time scan.raw s.kb).events ∧
      (a.after c (s, scan)).report key = some (scan.time, q) ∧ (a.after c (s, scan)).early key = false := by
  unfold Seen.after
  dsimp only
  split
  · rename_i q hq
    exact ⟨q, findSome?_mem (fun _ _ => changeOf_eq_some) hq, rfl, rfl⟩
  · rename_i hnone
    exact absurd h (findSome?_not_mem (fun _ _ => changeOf_eq_some) hnone p)

def reads (c : Config) (scan : Scan) (key : Key) : Bool := ((readMatrix c scan.raw).1 key.1).getLsbD key.2

structure Turned (c : Config) (s : St) (a : Seen) (scan : Scan) (s' : St) (key : Key) : Prop where
  ghosts : ¬Ghosts c scan.raw
  inside : key.1 < c.cols ∧ key.2 < 8
  turns : Turns c (scanLook c scan.time scan.raw s.kb key.1) (columnOf s.kb key.1) key.2
  masked : Masked s'.kb key
  state : (s'.kb.debouncedState key.1).getLsbD key.2 = reads c scan key
  edge : (a.after c (s, scan)).edge key = some (a.scans + 1, reads c scan key)
  report : (a.after c (s, scan)).report key = some (scan.time, reads c scan key)
  early : (a.after c (s, scan)).early key = false

/-- None is. -/
structure Same (c : Config) (s : St) (a : Seen) (scan : Scan) (s' : St) (key : Key) : Prop where
  turns : ¬Ghosts c scan.raw → key.1 < c.cols → key.2 < 8 →
    ¬Turns c (scanLook c scan.time scan.raw s.kb key.1) (columnOf s.kb key.1) key.2
  masked : Masked s'.kb key ↔ Masked s.kb key ∧ (¬Ghosts c scan.raw → key.1 < c.cols →
    ¬Ends c (scanLook c scan.time scan.raw s.kb key.1) (columnOf s.kb key.1) key.2)
  state : key.1 < c.cols → key.2 < 8 →
    (s'.kb.debouncedState key.1).getLsbD key.2 = (s.kb.debouncedState key.1).getLsbD key.2
  edge : (a.after c (s, scan)).edge key = a.edge key
  report : (a.after c (s, scan)).report key = a.report key
  early : (a.after c (s, scan)).early key = (a.early key || decide (EndsEarly c scan.time scan.raw s.kb key))
  silent : ∀ p, .changed key p ∉ (checkKeysChanged c scan.time scan.raw s.kb).events

theorem same_of_silent {key : Key} (hstep : step c scan s = some s')
    (hsilent : ∀ p, .changed key p ∉ (checkKeysChanged c scan.time scan.raw s.kb).events)
    (hquiet : ∀ p, .edge key p ∉ (checkKeysChanged c scan.time scan.raw s.kb).events)
    (hturns : ¬Ghosts c scan.raw → key.1 < c.cols → key.2 < 8 →
      ¬Turns c (scanLook c scan.time scan.raw s.kb key.1) (columnOf s.kb key.1) key.2)
    (hmasked : Masked s'.kb key ↔ Masked s.kb key ∧ (¬Ghosts c scan.raw → key.1 < c.cols →
      ¬Ends c (scanLook c scan.time scan.raw s.kb key.1) (columnOf s.kb key.1) key.2))
    (hstate : key.1 < c.cols → key.2 < 8 →
      (s'.kb.debouncedState key.1).getLsbD key.2 = (s.kb.debouncedState key.1).getLsbD key.2) :
    Same c s a scan s' key := by
  obtain ⟨hnow, -⟩ := step_some hstep
  obtain ⟨hreport, hearly⟩ := report_same (a := a) hsilent
  exact ⟨hturns, hmasked, hstate, edge_same hquiet, hreport, hearly, hsilent⟩

theorem turned_or_same (hlax : c.strict = false) (hstep : step c scan s = some s') (key : Key) :
    Turned c s a scan s' key ∨ Same c s a scan s' key := by
  obtain ⟨hnow, rfl⟩ := step_some hstep
  obtain ⟨k, i⟩ := key
  by_cases hghosts : Ghosts c scan.raw
  · obtain ⟨hevents, hkb⟩ := scan_ghosts (t := scan.time) hghosts
    have hnone : ∀ e, e ∉ (checkKeysChanged c scan.time scan.raw s.kb).events := fun e => by
      rw [hevents]
      exact List.not_mem_nil
    refine .inr (same_of_silent hstep (fun p => hnone _) (fun p => hnone _) (fun h => absurd hghosts h) ?_ fun _ _ => ?_)
    · unfold Masked
      rw [hkb]
      exact (and_iff_left fun h => absurd hghosts h).symm
    · dsimp only
      rw [hkb]
      rfl
  · by_cases hinside : k < c.cols ∧ i < 8
    · obtain ⟨hk, hi⟩ := hinside
      have hspec := @scan_spec c s.kb scan.time _ k i hghosts hk hi
      obtain ⟨hstate, hchanged⟩ := @scan_state c s.kb scan.time _ k i hlax hghosts hk hi
      by_cases hturn : Turns c (scanLook c scan.time scan.raw s.kb k) (columnOf s.kb k) i
      · rw [if_pos hturn] at hstate
        obtain ⟨q, hq, hedge⟩ := edge_new (a := a) ((hspec.edges _).mpr ⟨hturn, rfl⟩)
        obtain ⟨r, hr, hreport, hearly⟩ := report_new (a := a) (s := s) ((hchanged _).mpr ⟨hturn, rfl⟩)
        rw [((hspec.edges q).mp hq).2] at hedge
        rw [((hchanged r).mp hr).2] at hreport
        exact .inl ⟨hghosts, ⟨hk, hi⟩, hturn, hspec.debouncing.mpr (.inr hturn), hstate, hedge, hreport, hearly⟩
      · rw [if_neg hturn] at hstate
        refine .inr (same_of_silent hstep (fun p hp => hturn ((hchanged p).mp hp).1)
          (fun p hp => hturn ((hspec.edges p).mp hp).1) (fun _ _ _ => hturn) ?_ fun _ _ => hstate)
        refine hspec.debouncing.trans ((or_iff_left hturn).trans ?_)
        exact and_congr_right fun _ => ⟨fun h _ _ => h, fun h => h hghosts hk⟩
    · have hnone : ∀ e : Event, e.key = (k, i) → e ∉ (checkKeysChanged c scan.time scan.raw s.kb).events := by
        intro e hkey he
        have hin := scan_key he
        rw [hkey] at hin
        exact hinside hin
      refine .inr (same_of_silent hstep (fun p => hnone _ rfl) (fun p => hnone _ rfl)
        (fun _ hk hi => absurd ⟨hk, hi⟩ hinside) ?_ fun hk hi => absurd ⟨hk, hi⟩ hinside)
      by_cases hk : k < c.cols
      · -- there is no such row
        have hrow : ∀ b : BitVec 8, ¬b.getLsbD i = true := fun b hb => hinside ⟨hk, BitVec.lt_of_getLsbD hb⟩
        exact iff_of_false (hrow _) fun h => hrow _ h.1
      · obtain ⟨hdebouncing, -⟩ := scan_outside (t := scan.time) hghosts hk
        unfold Masked
        rw [show (checkKeysChanged c scan.time scan.raw s.kb).kb.debouncing k = s.kb.debouncing k from hdebouncing]
        exact (and_iff_left fun _ h => absurd h hk).symm

/-! ## What was reported -/

/-- The last report of a key is its last edge, and its time has elapsed if the key is not debounced, or its debouncing
ended early. -/
structure Reports (c : Config) (s : St) (a : Seen) : Prop where
  history : History s a
  report : ∀ key, a.report key = (a.edge key).map fun e => (a.times e.1, e.2)
  inside : ∀ key e, a.edge key = some e → key.1 < c.cols ∧ key.2 < 8
  state : ∀ key u q, a.report key = some (u, q) → (s.kb.debouncedState key.1).getLsbD key.2 = q
  elapsed : ∀ key u q, a.report key = some (u, q) → ¬Masked s.kb key →
    debounceTime c q ≤ s.now - u ∨ (a.early key = true ∧ q = false)
  early : ∀ key, a.early key = true → ¬Masked s.kb key ∧ ∀ u q, a.report key = some (u, q) → q = false

theorem reports_initial {state : Cols} {now : Nat} : Reports c ⟨.initial state, now⟩ .initial := by
  refine ⟨history_initial, fun _ => rfl, ?_, ?_, ?_, ?_⟩
  · intro key e he
    cases he
  · intro key u q hreport
    cases hreport
  · intro key u q hreport
    cases hreport
  · intro key hearly
    cases hearly

theorem Reports.inside_of_report (h : Reports c s a) {key : Key} {u : Nat} {q : Bool}
    (hreport : a.report key = some (u, q)) :
    key.1 < c.cols ∧ key.2 < 8 := by
  rw [h.report] at hreport
  obtain ⟨e, hedge, -⟩ := Option.map_eq_some_iff.mp hreport
  exact h.inside key e hedge

/-- A key that no longer waits has waited for its own time, or its debouncing ended early. -/
theorem Reports.waited (h : Reports c s a) (hlax : c.strict = false) (hnow : s.now ≤ scan.time)
    (hghosts : ¬Ghosts c scan.raw) {key : Key} {u : Nat} {q : Bool} (hreport : a.report key = some (u, q))
    (hfree : ¬Held c (scanLook c scan.time scan.raw s.kb key.1) (columnOf s.kb key.1) key.2) :
    debounceTime c q ≤ scan.time - u ∨
      ((a.early key = true ∨ EndsEarly c scan.time scan.raw s.kb key) ∧ q = false) := by
  obtain ⟨k, i⟩ := key
  by_cases hmasked : Masked s.kb (k, i)
  · -- the debouncing ends with this scan
    obtain ⟨j, p, hedge, hindex⟩ := h.history.tracks.masked k i hmasked
    have hlast := h.report (k, i)
    rw [hreport, hedge] at hlast
    obtain ⟨rfl, rfl⟩ := Prod.mk.inj (Option.some.inj hlast)
    obtain ⟨-, hbound⟩ := elapsed_masked h.history hnow hmasked hedge
    have hstate := h.state _ _ _ hreport
    have hpast : ¬Waits c (scanLook c scan.time scan.raw s.kb k) (columnOf s.kb k) (s.kb.debouncedState k) i :=
      fun hwaits => hfree ((held_lax hlax).mpr ⟨hmasked, hwaits⟩)
    have hwindow : (window c (s.kb.debouncedState k)).toNat ≤ (.ofNat 32 scan.time -
        (saveTime (.ofNat 32 scan.time) s.kb).scanTime (s.kb.scanEdgeIndex k i) : BitVec 32).toNat := not_lt.mp hpast
    have htimes : ∀ b : BitVec 16, (b.setWidth 32).toNat = b.toNat := fun b => by
      rw [BitVec.toNat_setWidth]
      exact Nat.mod_eq_of_lt (Nat.lt_trans b.isLt (by decide))
    cases q with
    | true =>
      -- the key itself is down in its column
      have hcolumn : s.kb.debouncedState k ≠ 0 := by
        intro hzero
        dsimp only at hstate
        rw [hzero] at hstate
        simp at hstate
      rw [window, if_pos hcolumn, htimes] at hwindow
      exact .inl (hwindow.trans hbound)
    | false =>
      by_cases hcolumn : s.kb.debouncedState k = 0
      · rw [window, if_neg (not_not.mpr hcolumn), htimes] at hwindow
        exact .inl (hwindow.trans hbound)
      · rw [window, if_pos hcolumn] at hwindow
        by_cases hlong : (c.debounceUpUs.setWidth 32).toNat ≤ (.ofNat 32 scan.time -
            (saveTime (.ofNat 32 scan.time) s.kb).scanTime (s.kb.scanEdgeIndex k i) : BitVec 32).toNat
        · rw [htimes] at hlong
          exact .inl (hlong.trans hbound)
        · have hearly : EndsEarly c scan.time scan.raw s.kb (k, i) :=
            ⟨hghosts, (h.inside_of_report hreport).1, hmasked, hstate, hcolumn, BitVec.le_def.mpr hwindow,
              BitVec.lt_def.mpr (not_le.mp hlong)⟩
          exact .inr ⟨.inr hearly, rfl⟩
  · exact (h.elapsed _ _ _ hreport hmasked).imp (fun hle => hle.trans (Nat.sub_le_sub_right hnow u))
      fun hboth => ⟨.inl hboth.1, hboth.2⟩

theorem EndsEarly.free (hlax : c.strict = false) {key : Key} (h : EndsEarly c scan.time scan.raw s.kb key) :
    ¬Held c (scanLook c scan.time scan.raw s.kb key.1) (columnOf s.kb key.1) key.2 := by
  obtain ⟨-, -, -, -, hcolumn, hdown, -⟩ := h
  intro hheld
  have hwaits := ((held_lax hlax).mp hheld).2
  unfold Waits window at hwaits
  rw [if_pos (show (columnOf s.kb key.1).state ≠ 0 from hcolumn)] at hwaits
  exact absurd hwaits (BitVec.not_lt.mpr hdown)

theorem quiet_iff (hlax : c.strict = false) (h : Reports c s a) (hstep : step c scan s = some s') :
    Quiet c a (s, scan) ↔ Steady c a (s, scan) := by
  obtain ⟨hnow, -⟩ := step_some hstep
  constructor
  · intro hquiet hghosts key hfree hreads u q hreport
    obtain ⟨hk, hi⟩ := h.inside_of_report hreport
    have hstate := h.state key u q hreport
    have hreleased : q = false := by
      obtain hearly | hends := hfree
      · exact (h.early key hearly).2 u q hreport
      · exact hstate.symm.trans hends.2.2.2.1
    have hnotHeld : ¬Held c (scanLook c scan.time scan.raw s.kb key.1) (columnOf s.kb key.1) key.2 := by
      obtain hearly | hends := hfree
      · exact fun hheld => (h.early key hearly).1 hheld.1
      · exact hends.free hlax
    have hdiffers : ((readMatrix c scan.raw).1 key.1).getLsbD key.2 ≠ (s.kb.debouncedState key.1).getLsbD key.2 := by
      rw [hstate, hreleased, show ((readMatrix c scan.raw).1 key.1).getLsbD key.2 = true from hreads]
      decide
    have hchanged := ((@scan_state c s.kb scan.time _ _ _ hlax hghosts hk hi).2 _).mpr
      ⟨(turns_lax hlax).mpr ⟨hdiffers, hnotHeld⟩, rfl⟩
    have hdue := hquiet key _ hchanged u q hreport
    rwa [hreleased] at hdue
  · intro hsteady key p hchanged u q hreport
    obtain ⟨hk, hi⟩ : key.1 < c.cols ∧ key.2 < 8 := scan_key hchanged
    have hghosts : ¬Ghosts c scan.raw := by
      intro hghosts
      rw [(scan_ghosts hghosts).1] at hchanged
      exact List.not_mem_nil hchanged
    obtain ⟨hturn, -⟩ := ((@scan_state c s.kb scan.time _ _ _ hlax hghosts hk hi).2 p).mp hchanged
    obtain ⟨hdiffers, hnotHeld⟩ := (turns_lax hlax).mp hturn
    obtain hdue | ⟨hfree, hreleased⟩ := h.waited hlax hnow hghosts hreport hnotHeld
    · exact hdue
    · have hreads : ((readMatrix c scan.raw).1 key.1).getLsbD key.2 = true := by
        have hstate : (columnOf s.kb key.1).state.getLsbD key.2 = false := (h.state key u q hreport).trans hreleased
        rw [hstate] at hdiffers
        exact Bool.eq_true_of_not_eq_false hdiffers
      rw [hreleased]
      exact hsteady hghosts key hfree hreads u q hreport

theorem reports_step (hlax : c.strict = false) (h : Reports c s a) (hstep : step c scan s = some s') :
    Reports c s' (a.after c (s, scan)) := by
  obtain ⟨hnow, hs'⟩ := step_some hstep
  have htimes : (a.after c (s, scan)).times = fun n => if n = a.scans + 1 then scan.time else a.times n := rfl
  have hcases := turned_or_same (a := a) hlax hstep
  refine ⟨history_step h.history hstep, fun key => ?_, fun key e hedge => ?_, fun key u q hreport => ?_,
    fun key u q hreport hmasked => ?_, fun key hearly => ?_⟩
  · obtain hturned | hsame := hcases key
    · rw [hturned.report, hturned.edge, htimes]
      simp
    · rw [hsame.report, hsame.edge, h.report, htimes]
      cases hedge : a.edge key with
      | none => rfl
      | some e =>
        have hle := (h.history.tracks.edges key e.1 e.2 hedge).2
        simp [show e.1 ≠ a.scans + 1 by omega]
  · obtain hturned | hsame := hcases key
    · exact hturned.inside
    · exact h.inside key e (hsame.edge.symm.trans hedge)
  · obtain hturned | hsame := hcases key
    · obtain ⟨-, hq⟩ := Prod.mk.inj (Option.some.inj (hturned.report.symm.trans hreport))
      exact hturned.state.trans hq
    · rw [hsame.report] at hreport
      obtain ⟨hk, hi⟩ := h.inside_of_report hreport
      exact (hsame.state hk hi).trans (h.state key u q hreport)
  · obtain hturned | hsame := hcases key
    · exact absurd hturned.masked hmasked
    · rw [hsame.report] at hreport
      rw [hsame.masked] at hmasked
      rw [hsame.early, hs']
      by_cases hbefore : Masked s.kb key
      · -- the debouncing has ended with this scan
        obtain ⟨hghosts, hends⟩ : ¬Ghosts c scan.raw ∧
            Ends c (scanLook c scan.time scan.raw s.kb key.1) (columnOf s.kb key.1) key.2 := by
          by_contra hneither
          exact hmasked ⟨hbefore, fun hghosts _ hends => hneither ⟨hghosts, hends⟩⟩
        obtain hdue | ⟨hearly, hreleased⟩ := h.waited hlax hnow hghosts hreport fun hheld => hheld.2 hends
        · exact .inl hdue
        · exact .inr ⟨by simpa using hearly, hreleased⟩
      · refine (h.elapsed key u q hreport hbefore).imp (fun hle => hle.trans (Nat.sub_le_sub_right hnow u)) ?_
        rintro ⟨hearly, hreleased⟩
        exact ⟨by rw [hearly, Bool.true_or], hreleased⟩
  · obtain hturned | hsame := hcases key
    · rw [hturned.early] at hearly
      cases hearly
    · rw [hsame.early, Bool.or_eq_true, decide_eq_true_iff] at hearly
      rw [hsame.masked, hsame.report]
      obtain hearly | hends := hearly
      · exact ⟨fun hmasked => (h.early key hearly).1 hmasked.1, (h.early key hearly).2⟩
      · have hfree := hends.free hlax
        obtain ⟨hghosts, hk, hmasked, hstate, -⟩ := hends
        refine ⟨fun hstill => hfree ⟨hmasked, hstill.2 hghosts hk⟩, fun u q hreport => ?_⟩
        exact (h.state key u q hreport).symm.trans hstate

/-! ## Runs -/

/-- Each change in a run is reported only after the time for the last one of its key exactly when no key whose debouncing
ended early is read as pressed too soon. -/
theorem debounce_window (hlax : c.strict = false) {state : Cols} {now : Nat} {l : List (St × Scan)}
    (h : Run (step c) ⟨.initial state, now⟩ l s) :
    Always (Seen.after c) (Quiet c) .initial l ↔ Always (Seen.after c) (Steady c) .initial l :=
  Run.always_iff (R := Reports c) reports_initial (fun _ _ _ _ hs _ hstep => reports_step hlax hs hstep)
    (fun _ _ _ _ hs hstep => quiet_iff hlax hs hstep) h

/-- Two keys of a column are down, and the first one is released. -/
def oneReleased : St := ⟨(checkKeysChanged (oneColumn 30000) 1000 (keysDown 2) (.initial fun _ => 3)).kb, 1000⟩

theorem release_step : step (oneColumn 30000) ⟨1000, keysDown 2⟩ ⟨.initial fun _ => 3, 0⟩ = some oneReleased := rfl

theorem first_report {x : St × Scan} {key : Key} {u : Nat} {q : Bool}
    (h : (Seen.initial.after c x).report key = some (u, q)) : u = x.2.time := by
  unfold Seen.after at h
  dsimp only at h
  split at h
  · exact (Prod.mk.inj (Option.some.inj h)).1.symm
  · cases h

theorem debounce_window_held : ∃ l s, Run (step (oneColumn 30000)) ⟨.initial fun _ => 3, 0⟩ l s ∧
    l.map Prod.snd = [⟨1000, keysDown 2⟩, ⟨32000, keysDown 3⟩] ∧
      Always (Seen.after (oneColumn 30000)) (Quiet (oneColumn 30000)) .initial l := by
  have hsecond : step (oneColumn 30000) ⟨32000, keysDown 3⟩ oneReleased = some _ := rfl
  have run := Run.step (.step .start release_step) hsecond
  refine ⟨_, _, run, rfl, (debounce_window rfl run).mpr
    ⟨fun _ key _ _ u q hreport => ?_, fun _ key _ _ u q hreport => ?_, trivial⟩⟩
  · cases hreport
  · have htime : debounceTime (oneColumn 30000) false ≤ 32000 - 1000 := by decide
    rw [first_report hreport]
    exact htime

/-- The first key bounces after 10 ms. -/
theorem bounce_reported : ∃ l s, Run (step (oneColumn 30000)) ⟨.initial fun _ => 3, 0⟩ l s ∧
    l.map Prod.snd = [⟨1000, keysDown 2⟩, ⟨11000, keysDown 3⟩] ∧
      ¬Always (Seen.after (oneColumn 30000)) (Quiet (oneColumn 30000)) .initial l := by
  have hsecond : step (oneColumn 30000) ⟨11000, keysDown 3⟩ oneReleased = some _ := rfl
  have run := Run.step (.step .start release_step) hsecond
  refine ⟨_, _, run, rfl, fun hquiet => ?_⟩
  obtain ⟨-, hlast, -⟩ := hquiet
  have hreport : (Seen.initial.after (oneColumn 30000) (⟨.initial fun _ => 3, 0⟩, ⟨1000, keysDown 2⟩)).report (0, 0) =
      some (1000, false) := by decide +kernel
  have hchanged : .changed (0, 0) true ∈
      (checkKeysChanged (oneColumn 30000) 11000 (keysDown 3) oneReleased.kb).events := by
    decide +kernel
  have hdue : debounceTime (oneColumn 30000) false ≤ 11000 - 1000 := hlast (0, 0) true hchanged 1000 false hreport
  exact absurd hdue (by decide)

end ChromeEc.KeyboardScan
