import ChromeEc.MotionSense.View

/- What committing and reading do to the lists.

  The loop of `motion_sense_fifo_commit_data` replaces timestamps of staged entries where
  they lie, four bytes of a unit each time. One round of it is `Round`, the whole of a
  commit is `Commits`, and a read is `Reads`. -/
namespace ChromeEc.MotionSense
open Lib

variable {w : Nat}

/-! ## Entries that are staged -/

section

variable {c : Config w} {s : St w}

theorem toNat_ofNat_lt (c : Config w) {i : Nat} (h : i < c.fifo.cap) : (BitVec.ofNat w i).toNat = i := by
  have hcap := c.fifo.cap_lt
  rw [BitVec.toNat_ofNat, Nat.mod_eq_of_lt (by omega)]

theorem peek_staged (h : Valid c s) {i : Nat} (hi : i < s.fifoStaged.count.toNat) :
    ∃ p, peekFifoStaged c s (BitVec.ofNat w i) = some p ∧ (staged c s)[i]? = some (entryAt c s p) := by
  obtain ⟨f, r, hfree⟩ := h.view
  have hlen := r.length_free
  have hoffset := toNat_ofNat_lt c (i := i) (by omega)
  obtain ⟨tail, hbuf, htail, -⟩ :=
    @Queue.queueGetWriteChunk_spec _ _ _ _ r (BitVec.ofNat w i) (by omega)
  refine ⟨_, hbuf, ?_⟩
  have hle : tail.toNat ≤ c.fifo.cap := by
    rw [htail]
    exact Nat.le_of_lt (Nat.mod_lt _ c.fifo.cap_pos)
  rw [staged, getElem?_window, if_pos hi, entryAt, entries,
    Queue.unitAt_eq_ring (u := tail) (k := 0) (i := (Queue.queueCount s.fifo).toNat + i)]
  · rw [c.fifo.toNat_mul hle, Nat.add_zero]
  · rw [htail, hoffset, Nat.add_zero]

theorem peek_before (h : Valid c s) : peekFifoStaged c s (BitVec.ofNat w 0 - 1) = none := by
  obtain ⟨f, r, -⟩ := h.view
  have hlen := r.length_free
  have hcap := c.fifo.cap_lt
  have hone := toNat_one c
  have hlast : (BitVec.ofNat w 0 - 1).toNat = 2 ^ w - 1 := by
    rw [BitVec.toNat_sub, hone, BitVec.toNat_ofNat, Nat.zero_mod, Nat.add_zero]
    exact Nat.mod_eq_of_lt (by omega)
  rw [peekFifoStaged, Queue.queueGetWriteChunk_full r (by omega)]

theorem ofNat_succ_sub_one (i : Nat) : BitVec.ofNat w (i + 1) - 1 = BitVec.ofNat w i := by
  rw [← BitVec.ofNat_add_ofNat, BitVec.ofNat_eq_ofNat]
  exact BitVec.add_sub_cancel ..

theorem stagedEntries_eq (h : Valid c s) : stagedEntries c s = staged c s := by
  unfold Valid at h
  apply List.map_congr_left
  intro i hi
  have hi := List.mem_range.mp hi
  have hslot := Queue.tail_slot c.fifo s.fifo (BitVec.ofNat w i)
  have hle : ((s.fifo.tail + BitVec.ofNat w i) &&& c.fifo.bufferUnitsMask).toNat ≤ c.fifo.cap := by
    rw [hslot]
    exact Nat.le_of_lt (Nat.mod_lt _ c.fifo.cap_pos)
  rw [entryAt, entries, Queue.unitAt_eq_ring
    (u := (s.fifo.tail + BitVec.ofNat w i) &&& c.fifo.bufferUnitsMask) (k := 0)
    (i := (Queue.queueCount s.fifo).toNat + i)]
  · rw [c.fifo.toNat_mul hle, Nat.add_zero]
  · rw [hslot, toNat_ofNat_lt c (by omega), Nat.add_zero]

theorem blit_last_bytes (mem src : Queue.Mem) (p : Nat) :
    blit mem (p + 4) src 4 = blit mem p (fun j => if j < 4 then mem (p + j) else src (j - 4)) 8 := by
  funext u
  simp only [blit]
  by_cases hlast : p + 4 ≤ u ∧ u < p + 4 + 4
  · rw [if_pos hlast, if_pos (by omega), if_neg (by omega), Nat.sub_sub]
  · rw [if_neg hlast]
    split
    · rw [if_pos (by omega)]
      congr 1
      omega
    · rfl

theorem store_timestamp {f : Queue.Fifo (List UInt8) c.fifo.cap} (r : Queue.Repr c.fifo s.fifo f)
    {offset : BitVec w} (h : offset.toNat < f.free.length) {p : BitVec w}
    (hp : peekFifoStaged c s offset = some p) (t : BitVec 32) :
    ∃ u, Queue.Repr c.fifo (Queue.store s.fifo (p + 4) (timestampBytes t) 4) (f.fill offset.toNat [u]) ∧
      ofBytes u = { entryAt c s p with timestamp := t } := by
  obtain ⟨tail, hbuf, htail, -, -, hend⟩ := Queue.queueGetWriteChunk_spec r h
  obtain rfl : tail * c.fifo.unitBytes = p := Option.some.inj (hbuf.symm.trans hp)
  have hfree := r.length_free
  have hlt : tail.toNat < c.fifo.cap := by
    rw [htail]
    exact Nat.mod_lt _ c.fifo.cap_pos
  have hbytes := c.fifo.sizeof_lt
  have hub : c.fifo.unitBytes.toNat = 8 := c.unitBytes_eq
  have hpos : (tail * c.fifo.unitBytes).toNat = tail.toNat * 8 := by
    rw [c.fifo.toNat_mul (Nat.le_of_lt hlt), ub_eq]
  have hfour : (4 : BitVec w).toNat = 4 := by
    have hwidth := Nat.pow_le_pow_right (show 0 < 2 by decide) c.width_le
    show 4 % 2 ^ w = 4
    exact Nat.mod_eq_of_lt (by omega)
  have hlast : (tail * c.fifo.unitBytes + 4).toNat = (tail * c.fifo.unitBytes).toNat + 4 := by
    rw [hub] at hbytes
    change c.fifo.cap * 8 < 2 ^ w at hbytes
    rw [BitVec.toNat_add, hpos, hfour, Nat.mod_eq_of_lt (by omega)]
  -- The same bytes are written by a copy of the whole unit.
  obtain ⟨src, hsrc⟩ : ∃ src : Queue.Mem, src = fun j => if j < 4 then
      s.fifo.buffer ((tail * c.fifo.unitBytes).toNat + j) else timestampBytes t (j - 4) := ⟨_, rfl⟩
  have hstored := @Queue.store_stored _ c.fifo s.fifo (tail * c.fifo.unitBytes) c.fifo.unitBytes tail.toNat
    ((Queue.queueCount s.fifo).toNat + offset.toNat) 1 src (by omega) (by omega) (by omega) (fun _ => htail)
    (c.fifo.toNat_mul (Nat.le_of_lt hlt)) (by rw [Nat.one_mul]; rfl)
  have hbuffer : (Queue.store s.fifo (tail * c.fifo.unitBytes + 4) (timestampBytes t) 4).buffer =
      (Queue.store s.fifo (tail * c.fifo.unitBytes) src c.fifo.unitBytes).buffer := by
    show blit s.fifo.buffer _ _ (4 : BitVec w).toNat = blit s.fifo.buffer _ _ c.fifo.unitBytes.toNat
    rw [hlast, hfour, hub, blit_last_bytes, hsrc]
  have hring : Queue.ring c.fifo (Queue.store s.fifo (tail * c.fifo.unitBytes + 4) (timestampBytes t) 4) =
      Queue.ring c.fifo (Queue.store s.fifo (tail * c.fifo.unitBytes) src c.fifo.unitBytes) := by
    unfold Queue.ring
    rw [hbuffer]
    rfl
  refine ⟨Queue.units c.fifo src 0, ?_, ?_⟩
  · have hrepr := @Queue.Repr.fill _ _ _ (Queue.store s.fifo (tail * c.fifo.unitBytes + 4) (timestampBytes t) 4) _ r
      ((Queue.queueCount s.fifo).toNat + offset.toNat) 1 (Queue.units c.fifo src) rfl rfl (Nat.le_add_right _ _)
      (by rw [hring]; exact hstored.ring)
    rwa [Nat.add_sub_cancel_left] at hrepr
  · have hunit : ∀ i, i < 8 → (Queue.units c.fifo src 0).getD i 0 = src i := by
      intro i hi
      rw [Queue.units, getD_block _ _ _ (by omega), Nat.zero_mul, Nat.zero_add]
    have hold : ∀ i, i < 4 → src i =
        (Queue.unitAt c.fifo s.fifo (tail * c.fifo.unitBytes)).getD i 0 := by
      intro i hi
      rw [hsrc]
      simp only [if_pos hi]
      rw [List.getD_eq_getElem?_getD, Queue.unitAt, List.getElem?_map,
        List.getElem?_range (by omega)]
      rfl
    have hnew : ∀ i, src (i + 4) = byteOf t i := by
      intro i
      rw [hsrc]
      simp only [if_neg (show ¬i + 4 < 4 by omega), Nat.add_sub_cancel]
      rfl
    simp only [ofBytes, entryAt, hunit 0 (by decide), hunit 1 (by decide), hunit 2 (by decide),
      hunit 3 (by decide), hunit 4 (by decide), hunit 5 (by decide), hunit 6 (by decide),
      hunit 7 (by decide), hold 0 (by decide), hold 1 (by decide), hold 2 (by decide),
      hold 3 (by decide), SensorData.mk.injEq, true_and]
    rw [show src 4 = _ from hnew 0, show src 5 = _ from hnew 1, show src 6 = _ from hnew 2,
      show src 7 = _ from hnew 3]
    exact timestamp_eq t

end

/-! ## Committing -/

def stampOf (c : Config w) (s : St w) (sensorNum : Nat) (raw : BitVec 32) : BitVec 32 :=
  if isNewTimestamp c s sensorNum || timeAfter raw (s.nextTimestamp sensorNum).next then raw
  else (s.nextTimestamp sensorNum).next

/-- One round of the loop: nothing but flags and prints, or the timestamp before the data
at `i` is spread. -/
inductive Round (c : Config w) (i : Nat) (s s' : St w) : Prop
  | quiet
    (unpaired : ∀ j x t, i = j + 1 → (staged c s)[i]? = some x → (staged c s)[j]? = some t →
      isData x = true → isTimestamp t = false)
    (prints : .failedToGetWriteChunk ∈ s'.prints → .failedToGetWriteChunk ∈ s.prints)
    (rest : s' = { s with
      bypassNeeded := s'.bypassNeeded, wakeUpNeeded := s'.wakeUpNeeded, prints := s'.prints })
  | spread (j : Nat) (x t : SensorData) (index : i = j + 1) (data : (staged c s)[i]? = some x)
    (timestamp : (staged c s)[j]? = some t) (isData : isData x = true)
    (isTimestamp : isTimestamp t = true) (valid : Valid c s')
    (committed : committed c s' = committed c s)
    (staged : staged c s' =
      (staged c s).set j { t with timestamp := stampOf c s x.sensor t.timestamp })
    (rest : s' = { s with
      fifo := s'.fifo
      bypassNeeded := s'.bypassNeeded
      wakeUpNeeded := s'.wakeUpNeeded
      nextTimestamp := update s.nextTimestamp x.sensor
        ⟨stampOf c s x.sensor t.timestamp,
          stampOf c s x.sensor t.timestamp + s.expectedDataPeriods x.sensor⟩
      nextTimestampInitialized := s'.nextTimestampInitialized
      marks := s.marks ++ [.stamped x.sensor t.timestamp (stampOf c s x.sensor t.timestamp)] })
    (initialized : s'.nextTimestampInitialized =
      if isNewTimestamp c s x.sensor || timeAfter t.timestamp (s.nextTimestamp x.sensor).next then
        update s.nextTimestampInitialized x.sensor true
      else s.nextTimestampInitialized)

section

variable {c : Config w} {s : St w}

theorem update_update {α : Type} (f : Nat → α) (n : Nat) (x y : α) :
    update (update f n x) n y = update f n y := by
  funext i
  unfold update
  split
  · rfl
  · rfl

theorem spreadTimestamp_eq (n : Nat) (p : BitVec w) :
    spreadTimestamp c n p s =
      { s with
        fifo := Queue.store s.fifo (p + 4) (timestampBytes (stampOf c s n (entryAt c s p).timestamp)) 4
        nextTimestamp := update s.nextTimestamp n
          ⟨stampOf c s n (entryAt c s p).timestamp,
            stampOf c s n (entryAt c s p).timestamp + s.expectedDataPeriods n⟩
        nextTimestampInitialized :=
          if isNewTimestamp c s n || timeAfter (entryAt c s p).timestamp (s.nextTimestamp n).next then
            update s.nextTimestampInitialized n true
          else s.nextTimestampInitialized
        marks := s.marks ++
          [.stamped n (entryAt c s p).timestamp (stampOf c s n (entryAt c s p).timestamp)] } := by
  by_cases hnew : (isNewTimestamp c s n ||
      timeAfter (entryAt c s p).timestamp (s.nextTimestamp n).next) = true
  · simp only [spreadTimestamp, stampOf, hnew, if_true, update_same, update_update]
  · simp only [spreadTimestamp, stampOf, hnew, if_false, Bool.false_eq_true]

theorem spreadEntry_round (h : Valid c s) {i : Nat} (hi : i < s.fifoStaged.count.toNat) :
    Round c i s (spreadEntry c s i) := by
  obtain ⟨p, hp, hx⟩ := peek_staged h hi
  unfold spreadEntry
  rw [hp]
  dsimp only
  by_cases hdata : isData (entryAt c s p) = true
  · rw [if_neg (by simp [hdata])]
    cases i with
    | zero =>
      have hbefore : peekFifoStaged c (noteFlags (entryAt c s p) s) (BitVec.ofNat w 0 - 1) = none :=
        peek_before h
      rw [hbefore]
      exact .quiet (fun j x t hj => by omega) id rfl
    | succ j =>
      have hj : j < s.fifoStaged.count.toNat := by omega
      obtain ⟨p', hp', ht⟩ := peek_staged h hj
      have hbefore : peekFifoStaged c (noteFlags (entryAt c s p) s) (BitVec.ofNat w (j + 1) - 1) =
          some p' := by
        rw [ofNat_succ_sub_one]
        exact hp'
      rw [hbefore]
      dsimp only
      have hentry : entryAt c (noteFlags (entryAt c s p) s) p' = entryAt c s p' := rfl
      rw [hentry]
      cases hts : isTimestamp (entryAt c s p') with
      | false =>
        refine .quiet ?_ (by simp [noteFlags]) rfl
        intro k x t hk _ ht' _
        obtain rfl : j = k := by omega
        rw [ht] at ht'
        rw [← Option.some.inj ht']
        exact hts
      | true =>
        obtain ⟨f, r, hfree⟩ := h.view
        obtain ⟨-, hcommitted, hstaged⟩ := of_repr r hfree
        have hlen := r.length_free
        have hoffset := toNat_ofNat_lt c (i := j) (by omega)
        obtain ⟨u, r', hu⟩ := @store_timestamp _ _ _ _ r (BitVec.ofNat w j) (by omega) _ hp'
          (stampOf c s (entryAt c s p).sensor (entryAt c s p').timestamp)
        rw [hoffset] at r'
        rw [if_neg (by simp), spreadTimestamp_eq]
        have hfill := fill_free_eq_set f j u
        obtain ⟨hvalid, hcommitted', hstaged'⟩ := of_repr (c := c)
          (s := spreadTimestamp c (entryAt c s p).sensor p' (noteFlags (entryAt c s p) s))
          (by rw [spreadTimestamp_eq]; exact r')
          (by
            rw [hfill, List.length_set, spreadTimestamp_eq]
            exact hfree)
        rw [spreadTimestamp_eq] at hvalid hcommitted' hstaged'
        refine .spread j (entryAt c s p) (entryAt c s p') rfl hx ht hdata hts hvalid ?_ ?_ rfl rfl
        · rw [hcommitted', Queue.Fifo.fill_queued, hcommitted]
        · rw [hstaged', hfill, hstaged]
          rw [List.take_set, List.map_set, hu]
          rfl
  · rw [if_pos (by simpa using hdata)]
    refine .quiet ?_ id rfl
    intro j x t _ hx' _ hdata'
    rw [hx] at hx'
    rw [← Option.some.inj hx'] at hdata'
    exact absurd hdata' hdata

end

section

variable {c : Config w} {s s' : St w}

theorem Round.valid {i : Nat} (h : Round c i s s') (hs : Valid c s) : Valid c s' := by
  cases h with
  | quiet _ _ rest =>
    rw [rest]
    exact hs
  | spread _ _ _ _ _ _ _ _ valid => exact valid

theorem Round.fifoStaged {i : Nat} (h : Round c i s s') : s'.fifoStaged = s.fifoStaged := by
  cases h with
  | quiet _ _ rest => rw [rest]
  | spread _ _ _ _ _ _ _ _ _ _ _ rest => rw [rest]

theorem Round.committed {i : Nat} (h : Round c i s s') : committed c s' = committed c s := by
  cases h with
  | quiet _ _ rest =>
    rw [rest]
    rfl
  | spread _ _ _ _ _ _ _ _ _ hcommitted => exact hcommitted

inductive Rounds (c : Config w) (s : St w) : Nat → St w → Prop
  | zero : Rounds c s 0 s
  | succ {n : Nat} {s₁ s₂ : St w} : Rounds c s n s₁ → Round c n s₁ s₂ → Rounds c s (n + 1) s₂

theorem Rounds.valid {n : Nat} (h : Rounds c s n s') (hs : Valid c s) : Valid c s' := by
  induction h with
  | zero => exact hs
  | succ _ hround ih => exact hround.valid ih

theorem Rounds.fifoStaged {n : Nat} (h : Rounds c s n s') : s'.fifoStaged = s.fifoStaged := by
  induction h with
  | zero => rfl
  | succ _ hround ih => exact hround.fifoStaged.trans ih

theorem Rounds.committed {n : Nat} (h : Rounds c s n s') : committed c s' = committed c s := by
  induction h with
  | zero => rfl
  | succ _ hround ih => exact hround.committed.trans ih

theorem foldl_spreadEntry (h : Valid c s) {n : Nat} (hn : n ≤ s.fifoStaged.count.toNat) :
    Rounds c s n ((List.range n).foldl (spreadEntry c) s) := by
  induction n with
  | zero => exact .zero
  | succ n ih =>
    have hrounds := ih (by omega)
    rw [List.range_succ, List.foldl_append]
    refine .succ hrounds (spreadEntry_round (hrounds.valid h) ?_)
    rw [hrounds.fifoStaged]
    omega

/-- The staged entries are committed, after the rounds of the loop from `s₀` to `s₁`. -/
structure Commits (c : Config w) (s s₀ s₁ s' : St w) : Prop where
  check : s₀ = { s with
    prints := s₀.prints, fifoStaged := { s.fifoStaged with requiresSpreading := s₀.fifoStaged.requiresSpreading } }
  prints : .failedToGetWriteChunk ∈ s₀.prints → .failedToGetWriteChunk ∈ s.prints
  rounds : Rounds c s₀ s.fifoStaged.count.toNat s₁
  valid : Valid c s'
  committed : committed c s' = committed c s ++ staged c s₁
  staged : staged c s' = []
  rest : s' = { s₁ with
    fifo := s'.fifo
    fifoStaged := ⟨0, fun _ => 0, false⟩
    batches := s₁.batches ++ [(MotionSense.staged c s, MotionSense.staged c s₁)] }

theorem checkSpreading_eq : checkSpreading c s = { s with
      prints := (checkSpreading c s).prints
      fifoStaged := { s.fifoStaged with
        requiresSpreading := (checkSpreading c s).fifoStaged.requiresSpreading } } ∧
    (.failedToGetWriteChunk ∈ (checkSpreading c s).prints → .failedToGetWriteChunk ∈ s.prints) := by
  unfold checkSpreading
  split
  · split
    · exact ⟨rfl, id⟩
    · split
      · exact ⟨rfl, id⟩
      · exact ⟨rfl, by simp⟩
  · exact ⟨rfl, id⟩

theorem commitData_commits (h : Valid c s) (hcount : s.fifoStaged.count ≠ 0) :
    ∃ s₀ s₁, Commits c s s₀ s₁ (motionSenseFifoCommitData c s) := by
  obtain ⟨hcheck, hprints⟩ := checkSpreading_eq (c := c) (s := s)
  have hkept : (checkSpreading c s).fifoStaged.count = s.fifoStaged.count := by rw [hcheck]
  have hvalid₀ : Valid c (checkSpreading c s) := by
    rw [hcheck]
    exact h
  have hrounds := foldl_spreadEntry hvalid₀ (Nat.le_of_eq (congrArg BitVec.toNat hkept.symm))
  obtain ⟨s₁, hs₁⟩ : ∃ s₁, s₁ =
      (List.range s.fifoStaged.count.toNat).foldl (spreadEntry c) (checkSpreading c s) := ⟨_, rfl⟩
  rw [← hs₁] at hrounds
  have hvalid₁ := hrounds.valid hvalid₀
  obtain ⟨f, r, hfree⟩ := hvalid₁.view
  obtain ⟨-, hcommitted, hstaged⟩ := of_repr r hfree
  have r' := (Queue.queueAdvanceTail_spec r (stagedCount s₁)).2.1
  rw [toNat_stagedCount c s₁] at r'
  have heq : motionSenseFifoCommitData c s = { s₁ with
      fifo := (Queue.queueAdvanceTail c.fifo s₁.fifo (stagedCount s₁)).2
      fifoStaged := ⟨0, fun _ => 0, false⟩
      batches := s₁.batches ++ [(staged c s, staged c s₁)] } := by
    rw [motionSenseFifoCommitData, if_neg (by simpa using hcount), ← hs₁, ← stagedEntries_eq hvalid₁,
      ← stagedEntries_eq h]
  rw [heq]
  obtain ⟨hvalid', hcommitted', hstaged'⟩ := of_repr (c := c) (s := { s₁ with
      fifo := (Queue.queueAdvanceTail c.fifo s₁.fifo (stagedCount s₁)).2
      fifoStaged := ⟨0, fun _ => 0, false⟩
      batches := s₁.batches ++ [(staged c s, staged c s₁)] }) r' (Nat.zero_le _)
  refine ⟨checkSpreading c s, s₁, hcheck, hprints, hrounds, hvalid', ?_, ?_, rfl⟩
  · have hsame : committed c s₁ = committed c s := by
      rw [hrounds.committed, hcheck]
      rfl
    rw [hcommitted', Queue.Fifo.commit_queued, List.map_append, ← hcommitted, ← hstaged, hsame]
  · rw [hstaged']
    rfl

/-! ## Reading -/

/-- The `n` oldest committed entries are read. -/
structure Reads (c : Config w) (n : Nat) (s s' : St w) : Prop where
  valid : Valid c s'
  committed : committed c s' = (committed c s).drop n
  staged : staged c s' = staged c s
  rest : s' = { s with
    fifo := s'.fifo, returned := s.returned ++ (MotionSense.committed c s).take n }

theorem read_reads (h : Valid c s) (capacityBytes maxCount : BitVec w) (out : Queue.Mem) :
    Reads c (Queue.MIN (capacityBytes / c.fifo.unitBytes)
        (Queue.MIN (Queue.queueCount s.fifo) maxCount)).toNat s
      (motionSenseFifoRead c capacityBytes maxCount out s).2 := by
  obtain ⟨f, r, hfree⟩ := h.view
  obtain ⟨-, hcommitted, hstaged⟩ := of_repr r hfree
  obtain ⟨count, hcount⟩ : ∃ count, count = Queue.MIN (capacityBytes / c.fifo.unitBytes)
      (Queue.MIN (Queue.queueCount s.fifo) maxCount) := ⟨_, rfl⟩
  obtain ⟨hn, hout, r', -⟩ := Queue.queueRemoveUnits_spec r out count
  have hreturned : window (fun u => ofBytes (Queue.units c.fifo
      (Queue.queueRemoveUnits c.fifo s.fifo out count).2.1 u)) 0
        (Queue.queueRemoveUnits c.fifo s.fifo out count).1.toNat = (committed c s).take count.toNat := by
    rw [hout, hn, hcommitted, ← List.map_take, ← map_window]
    congr 1
    apply List.ext_getElem?
    intro i
    rw [getElem?_window, Nat.zero_add, Queue.overwrite, List.getElem?_take]
    by_cases hi : i < min count.toNat f.queued.length
    · rw [if_pos hi, if_pos (by omega), List.getD_eq_getElem?_getD, List.getElem?_take,
        if_pos (by omega), List.getElem?_eq_getElem (by omega), Option.getD_some]
    · rw [if_neg hi]
      split
      · rw [List.getElem?_eq_none (by omega)]
      · rfl
  have heq : (motionSenseFifoRead c capacityBytes maxCount out s).2 = { s with
      fifo := (Queue.queueRemoveUnits c.fifo s.fifo out count).2.2
      returned := s.returned ++ (committed c s).take count.toNat } := by
    rw [← hreturned, hcount]
    rfl
  rw [heq]
  obtain ⟨hvalid', hcommitted', hstaged'⟩ := of_repr (c := c) (s := { s with
      fifo := (Queue.queueRemoveUnits c.fifo s.fifo out count).2.2
      returned := s.returned ++ (committed c s).take count.toNat }) r' (by
        rw [Queue.Fifo.pop_free, List.length_append]
        exact Nat.le_add_right_of_le hfree)
  rw [← hcount]
  refine ⟨hvalid', ?_, ?_, rfl⟩
  · rw [hcommitted', Queue.Fifo.pop_queued, List.map_drop, ← hcommitted]
  · rw [hstaged', Queue.Fifo.pop_free, List.take_append_of_le_length hfree, hstaged]

theorem empty_queueInit (fifo : Queue.State w) (hfifo : s.fifo = Queue.queueInit fifo)
    (hcount : s.fifoStaged.count = 0) : Valid c s ∧ committed c s = [] ∧ staged c s = [] := by
  have r := Queue.repr_initial c.fifo fifo
  rw [← hfifo] at r
  obtain ⟨hvalid, hcommitted, hstaged⟩ := of_repr r (by rw [hcount]; exact Nat.zero_le _)
  rw [hcount] at hstaged
  exact ⟨hvalid, hcommitted, hstaged⟩

end

/-! ## Timestamps that were replaced -/

/-- The same entry, but for the time if it is a timestamp. -/
def Restamped (x y : SensorData) : Prop :=
  y = x ∨ (isTimestamp x = true ∧ ∃ t, y = { x with timestamp := t })

theorem Restamped.trans {x y z : SensorData} (h₁ : Restamped x y) (h₂ : Restamped y z) :
    Restamped x z := by
  obtain rfl | ⟨hts, t, rfl⟩ := h₁
  · exact h₂
  · obtain rfl | ⟨-, t', rfl⟩ := h₂
    · exact .inr ⟨hts, t, rfl⟩
    · exact .inr ⟨hts, t', rfl⟩

theorem Restamped.isTimestamp {x y : SensorData} (h : Restamped x y) : isTimestamp y = isTimestamp x := by
  obtain rfl | ⟨-, t, rfl⟩ := h
  · rfl
  · rfl

theorem Restamped.sensor {x y : SensorData} (h : Restamped x y) : y.sensor = x.sensor := by
  obtain rfl | ⟨-, t, rfl⟩ := h
  · rfl
  · rfl

theorem forall₂_getElem? {α β : Type} {R : α → β → Prop} {xs : List α} {ys : List β}
    (h : List.Forall₂ R xs ys) {j : Nat} {x : α} (hx : xs[j]? = some x) :
    ∃ y, ys[j]? = some y ∧ R x y := by
  induction h generalizing j with
  | nil => cases hx
  | @cons _ y _ _ hxy _ ih =>
    cases j with
    | zero =>
      obtain rfl := Option.some.inj hx
      exact ⟨y, rfl, hxy⟩
    | succ j => exact ih hx

theorem forall₂_set {α β : Type} {R : α → β → Prop} {xs : List α} {ys : List β}
    (h : List.Forall₂ R xs ys) {j : Nat} {y : β} (hy : ∀ x, xs[j]? = some x → R x y) :
    List.Forall₂ R xs (ys.set j y) := by
  induction h generalizing j with
  | nil => exact .nil
  | cons hxy hrest ih =>
    cases j with
    | zero => exact .cons (hy _ rfl) hrest
    | succ j => exact .cons hxy (ih fun x hx => hy x hx)

theorem Rounds.restamped {c : Config w} {s s' : St w} {n : Nat} (h : Rounds c s n s') :
    List.Forall₂ Restamped (staged c s) (staged c s') := by
  induction h with
  | zero => exact List.forall₂_same.mpr fun x _ => .inl rfl
  | @succ n s₁ s₂ _ hround ih =>
    cases hround with
    | quiet _ _ rest =>
      rw [rest]
      exact ih
    | spread j x t _ _ ht _ hts _ _ hstaged =>
      rw [hstaged]
      apply forall₂_set ih
      intro y hy
      obtain ⟨z, hz, hyz⟩ := forall₂_getElem? ih hy
      rw [ht] at hz
      obtain rfl := Option.some.inj hz
      exact hyz.trans (.inr ⟨hts, _, rfl⟩)

end ChromeEc.MotionSense
