import ChromeEc.KeyboardScan.History

/- The debouncing of a key ends when its time has elapsed.

  What has elapsed is measured from the scan that the index of the edge stands for by now, and
  compared with the time for the column of the key. Where that is not the time of the key, or
  where the edge is 32 scans or more ago, a key may wait for longer (`Measured`); if the time
  is longer than 31 scans take, it waits for as long as the scanning goes on. -/
namespace ChromeEc.KeyboardScan
open Lib Steps

variable {c : Config} {s s' : St} {scan : Scan} {a : Seen}

/-- The time for key down or key up, in microseconds. -/
def debounceTime (c : Config) (pressed : Bool) : Nat := if pressed then c.debounceDownUs.toNat else c.debounceUpUs.toNat

def Masked (kb : Kb) (key : Key) : Prop := (kb.debouncing key.1).getLsbD key.2 = true

instance {kb : Kb} {key : Key} : Decidable (Masked kb key) := inferInstanceAs (Decidable (_ = true))

/-- The time of a key that is debounced has elapsed since its last edge. -/
def Due (c : Config) (a : Seen) (x : St × Scan) (key : Key) : Prop :=
  ¬Ghosts c x.2.raw ∧ key.1 < c.cols ∧ Masked x.1.kb key ∧
    ∃ j p, a.edge key = some (j, p) ∧ debounceTime c p ≤ x.2.time - a.times j

/-- Its debouncing ends with the scan. -/
def Expired (c : Config) (a : Seen) (x : St × Scan) : Prop :=
  ∀ key, Due c a x key → .cleared key ∈ (checkKeysChanged c x.2.time x.2.raw x.1.kb).events

def columnAt (c : Config) (x : St × Scan) (key : Key) : BitVec 8 :=
  (clearRows c (scanLook c x.2.time x.2.raw x.1.kb key.1) (columnOf x.1.kb key.1) key.2).state

/-- Enough time has elapsed, for its column and since the scan that its edge is taken for. -/
def Measured (c : Config) (a : Seen) (x : St × Scan) : Prop :=
  ∀ key, Due c a x key → ∀ j p, a.edge key = some (j, p) →
    (window c (columnAt c x key)).toNat ≤
      (x.2.time - (a.count x.2.time).times ((a.count x.2.time).measuredFrom j)) % 2 ^ 32

/-! ## One scan -/

/-- The times and the edges are tracked. -/
structure History (s : St) (a : Seen) : Prop where
  ring : Ring s.kb a s.now
  tracks : Tracks s.kb a

theorem step_some (h : step c scan s = some s') : s.now ≤ scan.time ∧
    s' = ⟨(checkKeysChanged c scan.time scan.raw s.kb).kb, scan.time⟩ := by
  unfold step at h
  split at h
  · rename_i hnow
    exact ⟨hnow, (Option.some.inj h).symm⟩
  · cases h

theorem history_step (h : History s a) (hstep : step c scan s = some s') : History s' (a.after c (s, scan)) := by
  obtain ⟨hnow, rfl⟩ := step_some hstep
  exact ⟨ring_step h.ring hnow, tracks_step h.ring h.tracks hnow⟩

theorem history_initial {state : Cols} {now : Nat} : History ⟨.initial state, now⟩ .initial := by
  refine ⟨⟨rfl, fun m hpos hm => ?_, fun _ _ _ _ => Nat.le_refl 0, fun _ _ => Nat.zero_le now⟩, ?_, ?_⟩
  · have hzero : m ≤ 0 := hm
    omega
  · intro key j p hedge
    cases hedge
  · intro k i hmasked
    simp [Kb.initial] at hmasked

/-- What the code takes for the time since the edge. -/
theorem elapsed_masked (h : History s a) {t j : Nat} {p : Bool} {k i : Nat}
    (hnow : s.now ≤ t) (hmasked : Masked s.kb (k, i))
    (hedge : a.edge (k, i) = some (j, p)) :
    (.ofNat 32 t - (saveTime (.ofNat 32 t) s.kb).scanTime (s.kb.scanEdgeIndex k i) : BitVec 32).toNat =
      (t - (a.count t).times ((a.count t).measuredFrom j)) % 2 ^ 32 ∧
    (.ofNat 32 t - (saveTime (.ofNat 32 t) s.kb).scanTime (s.kb.scanEdgeIndex k i) : BitVec 32).toNat ≤ t - a.times j := by
  obtain ⟨j', p', hedge', hindex⟩ := h.tracks.masked k i hmasked
  obtain ⟨rfl, -⟩ := Prod.mk.inj (Option.some.inj (hedge.symm.trans hedge'))
  obtain ⟨hpos, hle⟩ := h.tracks.edges _ _ _ hedge
  obtain ⟨heq, hbound⟩ := (h.ring.save hnow).elapsed hpos (Nat.le_succ_of_le hle)
  have hbefore : (a.count t).times j = a.times j := if_neg (by omega)
  rw [hindex]
  rw [hbefore] at hbound
  exact ⟨heq, hbound⟩

theorem cleared_iff (h : History s a) (hnow : s.now ≤ scan.time) {key : Key} (hdue : Due c a (s, scan) key) {j : Nat}
    {p : Bool} (hedge : a.edge key = some (j, p)) :
    .cleared key ∈ (checkKeysChanged c scan.time scan.raw s.kb).events ↔
      (window c (columnAt c (s, scan) key)).toNat ≤
        (scan.time - (a.count scan.time).times ((a.count scan.time).measuredFrom j)) % 2 ^ 32 := by
  obtain ⟨k, i⟩ := key
  obtain ⟨hghosts, hk, hmasked, -⟩ := hdue
  have hi : i < 8 := BitVec.lt_of_getLsbD hmasked
  have hspec := @scan_spec c s.kb scan.time _ k i hghosts hk hi
  rw [← (elapsed_masked h hnow hmasked hedge).1]
  refine hspec.cleared.trans ?_
  unfold Ends Waits
  rw [BitVec.lt_def, not_lt]
  exact and_iff_right hmasked

theorem expired_iff (h : History s a) (hstep : step c scan s = some s') :
    Expired c a (s, scan) ↔ Measured c a (s, scan) := by
  obtain ⟨hnow, -⟩ := step_some hstep
  refine forall_congr' fun key => forall_congr' fun hdue => ⟨fun hcleared j p hedge => ?_, fun hmeasured => ?_⟩
  · exact (cleared_iff h hnow hdue hedge).mp hcleared
  · obtain ⟨-, -, -, j, p, hedge, -⟩ := id hdue
    exact (cleared_iff h hnow hdue hedge).mpr (hmeasured j p hedge)

/-! ## Runs -/

/-- The debouncing of each key ends in time in a run exactly when enough is measured in each of its scans. -/
theorem debounce_ends {state : Cols} {now : Nat} {l : List (St × Scan)} (h : Run (step c) ⟨.initial state, now⟩ l s) :
    Always (Seen.after c) (Expired c) .initial l ↔ Always (Seen.after c) (Measured c) .initial l :=
  Run.always_iff (R := History) history_initial (fun _ _ _ _ hs _ hstep => history_step hs hstep)
    (fun _ _ _ _ hs hstep => expired_iff hs hstep) h

/-- One column, and an event of its keys is debounced for 9 ms or for some time. -/
def oneColumn (debounceUpUs : BitVec 16) : Config :=
  ⟨false, true, 1, 9000, debounceUpUs, fun _ => 0xff, 0, 7, fun _ => false⟩

def keysDown (column : BitVec 8) : Raw := ⟨fun _ => column, fun _ => true, false, fun _ => 0⟩

/-- A key is down from the first scan on. -/
def pressed : St := ⟨(checkKeysChanged (oneColumn 30000) 1000 (keysDown 1) (.initial fun _ => 0)).kb, 1000⟩

theorem debounce_ends_press : ∃ l s, Run (step (oneColumn 30000)) ⟨.initial fun _ => 0, 0⟩ l s ∧
    l.map Prod.snd = [⟨1000, keysDown 1⟩, ⟨10000, keysDown 1⟩] ∧
      Always (Seen.after (oneColumn 30000)) (Expired (oneColumn 30000)) .initial l := by
  have hfirst : step (oneColumn 30000) ⟨1000, keysDown 1⟩ ⟨.initial fun _ => 0, 0⟩ = some pressed := rfl
  have hsecond : step (oneColumn 30000) ⟨10000, keysDown 1⟩ pressed = some _ := rfl
  have run := Run.step (.step .start hfirst) hsecond
  refine ⟨_, _, run, rfl, (debounce_ends run).mpr ⟨fun key hdue => ?_, fun key hdue => ?_, trivial⟩⟩
  · -- nothing is debounced before the first scan
    obtain ⟨-, -, hmasked, -⟩ := hdue
    simp [Masked, Kb.initial] at hmasked
  · obtain ⟨k, i⟩ := key
    obtain ⟨-, hk, hmasked, -⟩ := hdue
    have honly : ∀ i, i < 8 → Masked pressed.kb (0, i) → i = 0 := by decide +kernel
    have hedge : (Seen.after (oneColumn 30000) .initial (⟨.initial fun _ => 0, 0⟩, ⟨1000, keysDown 1⟩)).edge (0, 0) =
        some (1, true) := by decide +kernel
    obtain rfl : k = 0 := Nat.lt_one_iff.mp hk
    obtain rfl := honly i (BitVec.lt_of_getLsbD hmasked) hmasked
    intro j p hlast
    obtain ⟨rfl, rfl⟩ := Prod.mk.inj (Option.some.inj (hedge.symm.trans hlast))
    decide +kernel

/-! ## A time that is longer than 31 scans -/

/-- Key up is debounced for 40 ms, and there is a scan each millisecond. -/
abbrev slow : Config := oneColumn 40000

def idleScan (n : Nat) : Scan := ⟨1000 * n, keysDown 0⟩

/-- A key was released in the first scan, and there were `n` scans. -/
structure Waiting (n : Nat) (s : St) (a : Seen) : Prop where
  history : History s a
  scans : a.scans = n
  times : ∀ m, 1 ≤ m → m ≤ n → a.times m = 1000 * m
  now : s.now = 1000 * n
  edge : a.edge (0, 0) = some (1, false)
  masked : Masked s.kb (0, 0)
  state : s.kb.debouncedState 0 = 0

theorem idle_ghosts : ¬Ghosts slow (keysDown 0) := fun h => Bool.noConfusion h.1

theorem idle_matrix : (readMatrix slow (keysDown 0)).1 0 = 0 := by decide

/-- The edge is never taken to be more than 31 scans ago. -/
theorem Waiting.held {n : Nat} (h : Waiting n s a) (hpos : 1 ≤ n) :
    Held slow (scanLook slow (1000 * (n + 1)) (keysDown 0) s.kb 0) (columnOf s.kb 0) 0 := by
  have hnow : s.now ≤ 1000 * (n + 1) := by
    rw [h.now]
    omega
  obtain ⟨helapsed, -⟩ := elapsed_masked h.history hnow h.masked h.edge
  have hscan : (a.count (1000 * (n + 1))).measuredFrom 1 = n + 1 - n % 32 := by
    unfold Seen.measuredFrom Seen.count
    dsimp only
    rw [h.scans, Nat.add_sub_cancel]
  have htime : (a.count (1000 * (n + 1))).times (n + 1 - n % 32) = 1000 * (n + 1 - n % 32) := by
    unfold Seen.count
    dsimp only
    rw [h.scans]
    split
    · rename_i hlast
      rw [hlast]
    · exact h.times _ (by omega) (by omega)
  rw [hscan, htime] at helapsed
  refine (held_lax rfl).mpr ⟨h.masked, ?_⟩
  unfold Waits window
  rw [show (columnOf s.kb 0).state = 0 from h.state, if_neg (by simp), BitVec.lt_def]
  have hup : (slow.debounceUpUs.setWidth 32).toNat = 40000 := by decide
  have hshort : 1000 * (n + 1) - 1000 * (n + 1 - n % 32) ≤ 31000 := by omega
  calc (.ofNat 32 (1000 * (n + 1)) - (saveTime (.ofNat 32 (1000 * (n + 1))) s.kb).scanTime (s.kb.scanEdgeIndex 0 0) :
          BitVec 32).toNat
      = (1000 * (n + 1) - 1000 * (n + 1 - n % 32)) % 2 ^ 32 := helapsed
    _ ≤ 31000 := (Nat.mod_le _ _).trans hshort
    _ < (slow.debounceUpUs.setWidth 32).toNat := by omega

theorem Waiting.next {n : Nat} (h : Waiting n s a) (hpos : 1 ≤ n) : ∃ s', step slow (idleScan (n + 1)) s = some s' ∧
    Waiting (n + 1) s' (a.after slow (s, idleScan (n + 1))) := by
  have hnow : s.now ≤ 1000 * (n + 1) := by
    rw [h.now]
    omega
  have hheld := h.held hpos
  have hstep : step slow (idleScan (n + 1)) s =
      some ⟨(checkKeysChanged slow (1000 * (n + 1)) (keysDown 0) s.kb).kb, 1000 * (n + 1)⟩ := if_pos hnow
  have hspec := @scan_spec _ s.kb (1000 * (n + 1)) _ _ 0 idle_ghosts Nat.one_pos (by decide)
  refine ⟨_, hstep, history_step h.history hstep, ?_, ?_, rfl, ?_, hspec.debouncing.mpr (.inl hheld), ?_⟩
  · exact congrArg (· + 1) h.scans
  · intro m hm hle
    unfold Seen.after Seen.count idleScan
    dsimp only
    rw [h.scans]
    split
    · rename_i hlast
      rw [hlast]
    · exact h.times m hm (by omega)
  · have hquiet : ∀ p, .edge (0, 0) p ∉ (checkKeysChanged slow (1000 * (n + 1)) (keysDown 0) s.kb).events :=
      fun p hp => ((hspec.edges p).mp hp).1.2 hheld
    exact (edge_same hquiet).trans h.edge
  · -- no key is down, and none was
    refine BitVec.eq_of_getLsbD_eq fun i hi => ?_
    obtain ⟨hstate, -⟩ := @scan_state _ s.kb (1000 * (n + 1)) _ _ _ rfl idle_ghosts Nat.one_pos hi
    refine hstate.trans ?_
    rw [h.state, idle_matrix, ite_self]

/-- The key is released in the first scan. -/
def released : St := ⟨(checkKeysChanged slow 1000 (keysDown 0) (.initial fun _ => 1)).kb, 1000⟩

theorem waiting_first : step slow (idleScan 1) ⟨.initial fun _ => 1, 0⟩ = some released ∧
    Waiting 1 released (Seen.after slow .initial (⟨.initial fun _ => 1, 0⟩, idleScan 1)) := by
  have hstep : step slow (idleScan 1) ⟨.initial fun _ => 1, 0⟩ = some released := rfl
  refine ⟨hstep, history_step history_initial hstep, rfl, fun m hpos hm => ?_, rfl, by decide +kernel, by decide +kernel,
    by decide +kernel⟩
  obtain rfl : m = 1 := by omega
  rfl

theorem waiting_run (n : Nat) : ∃ l s, Run (step slow) ⟨.initial fun _ => 1, 0⟩ l s ∧
    Waiting (n + 1) s (l.foldl (Seen.after slow) .initial) := by
  induction n with
  | zero =>
    obtain ⟨hstep, hwaiting⟩ := waiting_first
    exact ⟨_, _, .step .start hstep, hwaiting⟩
  | succ n ih =>
    obtain ⟨l, s, run, hwaiting⟩ := ih
    obtain ⟨s', hstep, hnext⟩ := hwaiting.next (Nat.succ_pos n)
    refine ⟨_, s', run.step hstep, ?_⟩
    rw [List.foldl_append]
    exact hnext

/-- The key waits after any number of scans, and after 42 of them its time has elapsed. -/
theorem never_ends :
    (∀ n, ∃ l s, Run (step slow) ⟨.initial fun _ => 1, 0⟩ l s ∧
      s.now = 1000 * (n + 1) ∧ Masked s.kb (0, 0)) ∧
    ∃ l s, Run (step slow) ⟨.initial fun _ => 1, 0⟩ l s ∧ ¬Always (Seen.after slow) (Expired slow) .initial l := by
  constructor
  · intro n
    obtain ⟨l, s, run, hwaiting⟩ := waiting_run n
    exact ⟨l, s, run, hwaiting.now, hwaiting.masked⟩
  · obtain ⟨l, s, run, hwaiting⟩ := waiting_run 40
    obtain ⟨s', hstep, -⟩ := hwaiting.next (by decide)
    refine ⟨_, s', run.step hstep, fun hall => ?_⟩
    obtain ⟨-, hlast, -⟩ := always_append.mp hall
    have hdue : Due slow (l.foldl (Seen.after slow) .initial) (s, idleScan 42) (0, 0) := by
      have hlong : debounceTime slow false ≤ 1000 * 42 - 1000 * 1 := by decide
      refine ⟨idle_ghosts, Nat.one_pos, hwaiting.masked, 1, false, hwaiting.edge, ?_⟩
      rw [hwaiting.times 1 (Nat.le_refl 1) (by decide)]
      exact hlong
    have hspec := @scan_spec _ s.kb (1000 * 42) _ _ 0 idle_ghosts Nat.one_pos (by decide)
    exact (hwaiting.held (by decide)).2 (hspec.cleared.mp (hlast (0, 0) hdue))

end ChromeEc.KeyboardScan
