import ChromeEc.KeyboardScan.Column
import ChromeEc.Lib.Steps

/- The scans as an observer counts them, and what the ring of scan times knows of them.

  An edge is kept as an index into the last 32 scan times. From 32 scans on the index stands
  for a later scan, the last one that is a multiple of 32 scans after the edge: what has
  elapsed is measured from there (`Seen.measuredFrom`), in 32 bits (`elapsed_eq`).

  What is proved: the times and the edges are tracked by every scan (`tracks_step`). -/
namespace ChromeEc.KeyboardScan
open Lib Steps

variable {c : Config} {kb : Kb} {t : Nat} {raw : Raw} {k i : Nat}

/-! ## One scan -/

/-- The matrix is not to be trusted, and nothing is done. -/
def Ghosts (c : Config) (raw : Raw) : Prop := c.adc = false ∧ hasGhosting c (readMatrix c raw).1 = true

instance : Decidable (Ghosts c raw) := inferInstanceAs (Decidable (_ ∧ _))

def scanLook (c : Config) (t : Nat) (raw : Raw) (kb : Kb) (k : Nat) : Look :=
  lookAt (.ofNat 32 t) (readMatrix c raw).1 (saveTime (.ofNat 32 t) kb) k

theorem scan_ghosts (h : Ghosts c raw) : (checkKeysChanged c t raw kb).events = [] ∧
    (checkKeysChanged c t raw kb).kb = saveTime (.ofNat 32 t) kb := by
  unfold Ghosts at h
  unfold checkKeysChanged
  dsimp only
  rw [if_pos h]
  exact ⟨rfl, rfl⟩

/-- What a scan leaves, apart from the count of polls. -/
structure Kb.Scanned (c : Config) (t : Nat) (raw : Raw) (kb kb' : Kb) : Prop where
  scanTime : kb'.scanTime = (saveTime (.ofNat 32 t) kb).scanTime
  scanTimeIndex : kb'.scanTimeIndex = (saveTime (.ofNat 32 t) kb).scanTimeIndex
  column : ∀ k, ∃ events, (⟨kb'.debouncedState k, kb'.debouncing k, kb'.scanEdgeIndex k, events⟩ : Column) =
    scannedColumn c (.ofNat 32 t) (readMatrix c raw).1 (saveTime (.ofNat 32 t) kb) k

theorem scan_scanned (h : ¬Ghosts c raw) : Kb.Scanned c t raw kb (checkKeysChanged c t raw kb).kb ∧
    (checkKeysChanged c t raw kb).events = (List.range c.cols).flatMap fun k =>
      (scannedColumn c (.ofNat 32 t) (readMatrix c raw).1 (saveTime (.ofNat 32 t) kb) k).events := by
  unfold Ghosts at h
  unfold checkKeysChanged
  dsimp only
  rw [if_neg h]
  split
  · exact ⟨⟨rfl, rfl, fun k => ⟨_, rfl⟩⟩, rfl⟩
  · exact ⟨⟨rfl, rfl, fun k => ⟨_, rfl⟩⟩, rfl⟩

theorem scannedColumn_of_lt (hk : k < c.cols) :
    scannedColumn c (.ofNat 32 t) (readMatrix c raw).1 (saveTime (.ofNat 32 t) kb) k =
    scanColumn c (scanLook c t raw kb k) (columnOf kb k) := if_pos hk

theorem mem_scan (h : ¬Ghosts c raw) {e : Event} : e ∈ (checkKeysChanged c t raw kb).events ↔
    e.key.1 < c.cols ∧ e ∈ (scanColumn c (scanLook c t raw kb e.key.1) (columnOf kb e.key.1)).events := by
  rw [(scan_scanned h).2, List.mem_flatMap]
  constructor
  · rintro ⟨k, hk, he⟩
    rw [List.mem_range] at hk
    rw [scannedColumn_of_lt hk] at he
    have hkey : e.key.1 = k := (scanColumn_events rfl he).1
    rw [hkey]
    exact ⟨hk, he⟩
  · rintro ⟨hk, he⟩
    refine ⟨e.key.1, List.mem_range.mpr hk, ?_⟩
    rw [scannedColumn_of_lt hk]
    exact he

theorem scan_key {e : Event} (he : e ∈ (checkKeysChanged c t raw kb).events) : e.key.1 < c.cols ∧ e.key.2 < 8 := by
  by_cases hghosts : Ghosts c raw
  · rw [(scan_ghosts hghosts).1] at he
    exact absurd he List.not_mem_nil
  · rw [mem_scan hghosts] at he
    exact ⟨he.1, (scanColumn_events rfl he.2).2⟩

def afterColumn (c : Config) (t : Nat) (raw : Raw) (kb : Kb) (k : Nat) : Column :=
  let r := checkKeysChanged c t raw kb
  ⟨r.kb.debouncedState k, r.kb.debouncing k, r.kb.scanEdgeIndex k, r.events⟩

theorem afterColumn_eq (h : ¬Ghosts c raw) (hk : k < c.cols) :
    ∃ events, { afterColumn c t raw kb k with events } = scanColumn c (scanLook c t raw kb k) (columnOf kb k) := by
  obtain ⟨events, heq⟩ := (scan_scanned (t := t) h).1.column k
  rw [scannedColumn_of_lt hk] at heq
  exact ⟨events, heq⟩

theorem scan_spec (h : ¬Ghosts c raw) (hk : k < c.cols) (hi : i < 8) :
    Key.Spec c (scanLook c t raw kb k) (columnOf kb k) (afterColumn c t raw kb k) i := by
  obtain ⟨events, heq⟩ := afterColumn_eq (t := t) h hk
  have hspec : Key.Spec c (scanLook c t raw kb k) (columnOf kb k) _ i := scanColumn_spec hi rfl
  have hevents : ∀ e : Event, e.key = (k, i) →
      (e ∈ (afterColumn c t raw kb k).events ↔ e ∈ (scanColumn c (scanLook c t raw kb k) (columnOf kb k)).events) := by
    intro e he
    have hmem := @mem_scan c kb t raw h e
    rw [he] at hmem
    exact hmem.trans (and_iff_right hk)
  constructor
  · rw [← hspec.debouncing, ← heq]
  · intro hturn
    rw [← hspec.turned hturn, ← heq]
  · intro hheld
    rw [← hspec.held hheld, ← heq]
  · exact (hevents _ rfl).trans hspec.cleared
  · exact fun p => (hevents _ rfl).trans (hspec.edges p)

theorem scan_state (hlax : c.strict = false) (h : ¬Ghosts c raw) (hk : k < c.cols) (hi : i < 8) :
    ((afterColumn c t raw kb k).state.getLsbD i =
        if Turns c (scanLook c t raw kb k) (columnOf kb k) i then (readMatrix c raw).1 k |>.getLsbD i
        else (kb.debouncedState k).getLsbD i) ∧
      ∀ p, .changed (k, i) p ∈ (afterColumn c t raw kb k).events ↔
        Turns c (scanLook c t raw kb k) (columnOf kb k) i ∧ p = ((readMatrix c raw).1 k).getLsbD i := by
  obtain ⟨events, heq⟩ := afterColumn_eq (t := t) h hk
  obtain ⟨hstate, hchanged⟩ := scanColumn_state (x := columnOf kb k) hlax hi rfl
  rw [← heq] at hstate
  refine ⟨hstate, fun p => ?_⟩
  have hmem := @mem_scan c kb t raw h (.changed (k, i) p)
  exact (hmem.trans (and_iff_right hk)).trans (hchanged p)

theorem scan_outside (h : ¬Ghosts c raw) (hk : ¬k < c.cols) :
    (afterColumn c t raw kb k).debouncing = kb.debouncing k ∧ (afterColumn c t raw kb k).edge = kb.scanEdgeIndex k := by
  obtain ⟨events, heq⟩ := (scan_scanned (t := t) h).1.column k
  unfold scannedColumn at heq
  rw [if_neg hk] at heq
  exact ⟨congrArg Column.debouncing heq, congrArg Column.edge heq⟩

/-! ## The observer -/

/-- The scans with their times, and of each key the last edge (its scan and its direction), the last reported change
(its time and its direction), and whether its debouncing ended early since then. -/
structure Seen where
  scans : Nat
  times : Nat → Nat
  edge : Key → Option (Nat × Bool)
  report : Key → Option (Nat × Bool)
  early : Key → Bool

def Seen.initial : Seen := ⟨0, fun _ => 0, fun _ => none, fun _ => none, fun _ => false⟩

def edgeOf (key : Key) : Event → Option Bool
  | .edge key' p => if key' = key then some p else none
  | _ => none

def changeOf (key : Key) : Event → Option Bool
  | .changed key' p => if key' = key then some p else none
  | _ => none

/-- The debouncing of a released key ends by the time for key down, since the column has another key down. -/
def EndsEarly (c : Config) (t : Nat) (raw : Raw) (kb : Kb) (key : Key) : Prop :=
  ¬Ghosts c raw ∧ key.1 < c.cols ∧ (kb.debouncing key.1).getLsbD key.2 = true ∧
    (kb.debouncedState key.1).getLsbD key.2 = false ∧ kb.debouncedState key.1 ≠ 0 ∧
      c.debounceDownUs.setWidth 32 ≤
        (.ofNat 32 t - (saveTime (.ofNat 32 t) kb).scanTime (kb.scanEdgeIndex key.1 key.2) : BitVec 32) ∧
        (.ofNat 32 t - (saveTime (.ofNat 32 t) kb).scanTime (kb.scanEdgeIndex key.1 key.2) : BitVec 32) <
          c.debounceUpUs.setWidth 32

instance {key : Key} : Decidable (EndsEarly c t raw kb key) := inferInstanceAs (Decidable (¬_ ∧ _ ∧ _ ∧ _ ∧ _ ∧ _ ∧ _))

def Seen.count (a : Seen) (t : Nat) : Seen :=
  { a with scans := a.scans + 1, times := fun n => if n = a.scans + 1 then t else a.times n }

def Seen.after (c : Config) (a : Seen) (x : St × Scan) : Seen :=
  let events := (checkKeysChanged c x.2.time x.2.raw x.1.kb).events
  { a.count x.2.time with
    edge := fun key => match events.findSome? (edgeOf key) with
      | some p => some (a.scans + 1, p)
      | none => a.edge key
    report := fun key => match events.findSome? (changeOf key) with
      | some p => some (x.2.time, p)
      | none => a.report key
    early := fun key => match events.findSome? (changeOf key) with
      | some _ => false
      | none => a.early key || decide (EndsEarly c x.2.time x.2.raw x.1.kb key) }

theorem edgeOf_eq_some {key : Key} {e : Event} {p : Bool} : edgeOf key e = some p ↔ e = .edge key p := by
  cases e <;> simp [edgeOf]

theorem changeOf_eq_some {key : Key} {e : Event} {p : Bool} : changeOf key e = some p ↔ e = .changed key p := by
  cases e <;> simp [changeOf]

theorem findSome?_mem {events : List Event} {f : Event → Option Bool} {g : Bool → Event} {p : Bool}
    (hf : ∀ e p, f e = some p ↔ e = g p) (h : events.findSome? f = some p) : g p ∈ events := by
  obtain ⟨e, he, hp⟩ := List.exists_of_findSome?_eq_some h
  rwa [← (hf e p).mp hp]

theorem findSome?_not_mem {events : List Event} {f : Event → Option Bool} {g : Bool → Event}
    (hf : ∀ e p, f e = some p ↔ e = g p) (h : events.findSome? f = none) (p : Bool) : g p ∉ events := by
  intro hmem
  have hsome := (hf _ p).mpr rfl
  rw [List.findSome?_eq_none_iff.mp h _ hmem] at hsome
  cases hsome

/-! ## The ring of scan times -/

/-- The last scan times are where their scans are modulo 32. -/
structure Ring (kb : Kb) (a : Seen) (now : Nat) : Prop where
  index : kb.scanTimeIndex = a.scans % scanTimeCount
  slots : ∀ m, 1 ≤ m → m ≤ a.scans → a.scans < m + scanTimeCount → kb.scanTime (m % scanTimeCount) = .ofNat 32 (a.times m)
  mono : ∀ m n, m ≤ n → n ≤ a.scans → a.times m ≤ a.times n
  past : ∀ m, m ≤ a.scans → a.times m ≤ now

theorem Ring.save {a : Seen} {now : Nat} (h : Ring kb a now) (hnow : now ≤ t) :
    Ring (saveTime (.ofNat 32 t) kb) (a.count t) t := by
  have hindex : (saveTime (.ofNat 32 t) kb).scanTimeIndex = (a.scans + 1) % scanTimeCount := by
    unfold saveTime
    dsimp only
    rw [h.index]
    simp only [scanTimeCount]
    split <;> omega
  have hpast : ∀ m, m ≤ a.scans + 1 → (a.count t).times m ≤ t := by
    intro m hm
    unfold Seen.count
    dsimp only
    split
    · exact Nat.le_refl t
    · exact (h.past m (by omega)).trans hnow
  refine ⟨hindex, fun m hpos hm hrecent => ?_, fun m n hmn hn => ?_, hpast⟩
  · have hsaved : (saveTime (.ofNat 32 t) kb).scanTime (m % scanTimeCount) =
        if m % scanTimeCount = (a.scans + 1) % scanTimeCount then .ofNat 32 t else kb.scanTime (m % scanTimeCount) := by
      rw [← hindex]
      rfl
    rw [hsaved]
    unfold Seen.count at hm hrecent ⊢
    dsimp only [scanTimeCount] at hm hrecent ⊢
    by_cases hlast : m = a.scans + 1
    · rw [if_pos hlast, if_pos (by rw [hlast])]
    · rw [if_neg hlast, if_neg (by omega)]
      exact h.slots m hpos (by omega) (by simp only [scanTimeCount]; omega)
  · by_cases hlast : n = a.scans + 1
    · rw [hlast]
      have hnew : (a.count t).times (a.scans + 1) = t := if_pos rfl
      rw [hnew]
      exact hpast m (by omega)
    · have hn' : n ≤ a.scans := Nat.le_of_lt_succ (Nat.lt_of_le_of_ne hn hlast)
      have hm' : m ≠ a.scans + 1 := by omega
      unfold Seen.count
      dsimp only
      rw [if_neg hlast, if_neg hm']
      exact h.mono m n hmn hn'

/-- The scan that an edge of scan `j` is taken for. -/
def Seen.measuredFrom (a : Seen) (j : Nat) : Nat := a.scans - (a.scans - j) % scanTimeCount

theorem Ring.measured {a : Seen} {now j : Nat} (h : Ring kb a now) (hpos : 1 ≤ j) (hj : j ≤ a.scans) :
    kb.scanTime (j % scanTimeCount) = .ofNat 32 (a.times (a.measuredFrom j)) ∧ a.times j ≤ a.times (a.measuredFrom j) ∧
      a.times (a.measuredFrom j) ≤ now := by
  unfold Seen.measuredFrom
  have hmod : (a.scans - (a.scans - j) % scanTimeCount) % scanTimeCount = j % scanTimeCount := by
    simp only [scanTimeCount]
    omega
  have hle : j ≤ a.scans - (a.scans - j) % scanTimeCount := by
    simp only [scanTimeCount]
    omega
  have hrecent : a.scans < a.scans - (a.scans - j) % scanTimeCount + scanTimeCount := by
    simp only [scanTimeCount]
    omega
  rw [← hmod]
  exact ⟨h.slots _ (by omega) (Nat.sub_le _ _) hrecent, h.mono _ _ hle (Nat.sub_le _ _), h.past _ (Nat.sub_le _ _)⟩

theorem sub_toNat {u : Nat} (h : u ≤ t) : (.ofNat 32 t - .ofNat 32 u : BitVec 32).toNat = (t - u) % 2 ^ 32 := by
  rw [BitVec.toNat_sub, BitVec.toNat_ofNat, BitVec.toNat_ofNat]
  omega

theorem Ring.elapsed {a : Seen} {j : Nat} (h : Ring kb a t) (hpos : 1 ≤ j) (hj : j ≤ a.scans) :
    (.ofNat 32 t - kb.scanTime (j % scanTimeCount) : BitVec 32).toNat = (t - a.times (a.measuredFrom j)) % 2 ^ 32 ∧
      (.ofNat 32 t - kb.scanTime (j % scanTimeCount) : BitVec 32).toNat ≤ t - a.times j := by
  obtain ⟨hslot, hle, hpast⟩ := h.measured hpos hj
  rw [hslot, sub_toNat hpast]
  refine ⟨rfl, (Nat.mod_le _ _).trans ?_⟩
  omega

/-! ## What is tracked -/

/-- The edges of the keys that are debounced. -/
structure Tracks (kb : Kb) (a : Seen) : Prop where
  edges : ∀ key j p, a.edge key = some (j, p) → 1 ≤ j ∧ j ≤ a.scans
  masked : ∀ k i, (kb.debouncing k).getLsbD i = true →
    ∃ j p, a.edge (k, i) = some (j, p) ∧ kb.scanEdgeIndex k i = j % scanTimeCount

theorem Ring.congr {kb' : Kb} {a a' : Seen} {now : Nat} (h : Ring kb a now) (hindex : kb'.scanTimeIndex = kb.scanTimeIndex)
    (htimes : kb'.scanTime = kb.scanTime) (hscans : a'.scans = a.scans) (hseen : a'.times = a.times) :
    Ring kb' a' now := by
  constructor
  · rw [hindex, hscans]
    exact h.index
  · rw [htimes, hscans, hseen]
    exact h.slots
  · rw [hscans, hseen]
    exact h.mono
  · rw [hscans, hseen]
    exact h.past

/-- A scan saves its time, whatever it does after that. -/
theorem scan_times : (checkKeysChanged c t raw kb).kb.scanTime = (saveTime (.ofNat 32 t) kb).scanTime ∧
    (checkKeysChanged c t raw kb).kb.scanTimeIndex = (saveTime (.ofNat 32 t) kb).scanTimeIndex := by
  by_cases hghosts : Ghosts c raw
  · rw [(scan_ghosts hghosts).2]
    exact ⟨rfl, rfl⟩
  · obtain ⟨hscanned, -⟩ := scan_scanned (t := t) hghosts
    exact ⟨hscanned.scanTime, hscanned.scanTimeIndex⟩

theorem ring_step {a : Seen} {now : Nat} (h : Ring kb a now) (hnow : now ≤ t) :
    Ring (checkKeysChanged c t raw kb).kb (a.after c (⟨kb, now⟩, ⟨t, raw⟩)) t :=
  (h.save hnow).congr scan_times.2 scan_times.1 rfl rfl

theorem edge_same {a : Seen} {now : Nat} {key : Key} (h : ∀ p, .edge key p ∉ (checkKeysChanged c t raw kb).events) :
    (a.after c (⟨kb, now⟩, ⟨t, raw⟩)).edge key = a.edge key := by
  unfold Seen.after
  dsimp only
  split
  · rename_i p hp
    exact absurd (findSome?_mem (fun _ _ => edgeOf_eq_some) hp) (h p)
  · rfl

theorem edge_new {a : Seen} {now : Nat} {key : Key} {p : Bool} (h : .edge key p ∈ (checkKeysChanged c t raw kb).events) :
    ∃ q, .edge key q ∈ (checkKeysChanged c t raw kb).events ∧
      (a.after c (⟨kb, now⟩, ⟨t, raw⟩)).edge key = some (a.scans + 1, q) := by
  unfold Seen.after
  dsimp only
  split
  · rename_i q hq
    exact ⟨q, findSome?_mem (fun _ _ => edgeOf_eq_some) hq, rfl⟩
  · rename_i hnone
    exact absurd h (findSome?_not_mem (fun _ _ => edgeOf_eq_some) hnone p)

theorem tracks_step {a : Seen} {now : Nat} (hring : Ring kb a now) (h : Tracks kb a) (hnow : now ≤ t) :
    Tracks (checkKeysChanged c t raw kb).kb (a.after c (⟨kb, now⟩, ⟨t, raw⟩)) := by
  constructor
  · intro key j p hedge
    have hscans : (a.after c (⟨kb, now⟩, ⟨t, raw⟩)).scans = a.scans + 1 := rfl
    by_cases hevent : ∃ q, .edge key q ∈ (checkKeysChanged c t raw kb).events
    · obtain ⟨q, hq⟩ := hevent
      obtain ⟨r, -, hnew⟩ := edge_new (a := a) hq
      rw [hnew] at hedge
      cases hedge
      omega
    · rw [edge_same fun q hq => hevent ⟨q, hq⟩] at hedge
      obtain ⟨hpos, hle⟩ := h.edges key j p hedge
      omega
  · intro k i hmasked
    have hi : i < 8 := BitVec.lt_of_getLsbD hmasked
    by_cases hghosts : Ghosts c raw
    · -- nothing but the time is saved
      obtain ⟨hevents, hkb⟩ := scan_ghosts (t := t) hghosts
      rw [edge_same fun p => by rw [hevents]; exact List.not_mem_nil]
      rw [hkb] at hmasked ⊢
      exact h.masked k i hmasked
    · by_cases hk : k < c.cols
      · have hspec := @scan_spec c kb t raw k i hghosts hk hi
        obtain hheld | hturn := hspec.debouncing.mp hmasked
        · obtain ⟨j, p, hedge, hindex⟩ := h.masked k i hheld.1
          have hquiet : ∀ q, .edge (k, i) q ∉ (checkKeysChanged c t raw kb).events :=
            fun q hq => ((hspec.edges q).mp hq).1.2 hheld
          rw [edge_same hquiet]
          exact ⟨j, p, hedge, (hspec.held hheld).trans hindex⟩
        · have hevent : .edge (k, i) _ ∈ (checkKeysChanged c t raw kb).events := (hspec.edges _).mpr ⟨hturn, rfl⟩
          obtain ⟨q, -, hnew⟩ := edge_new (a := a) hevent
          have hindex := (hring.save hnow).index
          exact ⟨_, q, hnew, (hspec.turned hturn).trans hindex⟩
      · obtain ⟨hdebouncing, hedges⟩ := scan_outside (t := t) hghosts hk
        have hquiet : ∀ q, .edge (k, i) q ∉ (checkKeysChanged c t raw kb).events := fun q hq => hk (scan_key hq).1
        have hbefore : (kb.debouncing k).getLsbD i = true := hdebouncing ▸ hmasked
        obtain ⟨j, p, hedge, hindex⟩ := h.masked k i hbefore
        rw [edge_same hquiet]
        exact ⟨j, p, hedge, (congrFun hedges i).trans hindex⟩

end ChromeEc.KeyboardScan
