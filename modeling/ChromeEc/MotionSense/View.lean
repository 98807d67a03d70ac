import ChromeEc.Queue.Runs
import ChromeEc.MotionSense.Model

/- What is committed and what is staged.

  Counted from the head, the buffer holds the committed entries and behind them the
  staged ones. Both are lists here, and each function of the FIFO has one specification
  against them. The queue enters only by its own specifications, through `view` and
  `of_repr`. -/
namespace ChromeEc.MotionSense
open Lib

variable {w : Nat}

/-! ## Entries in memory -/

theorem timestamp_eq (t : BitVec 32) :
    (byteOf t 3).toBitVec ++ (byteOf t 2).toBitVec ++ (byteOf t 1).toBitVec ++ (byteOf t 0).toBitVec = t := by
  calc t.extractLsb' 24 8 ++ t.extractLsb' 16 8 ++ t.extractLsb' 8 8 ++ t.extractLsb' 0 8
      = t.extractLsb' 16 16 ++ t.extractLsb' 8 8 ++ t.extractLsb' 0 8 := by
        rw [BitVec.extractLsb'_append_extractLsb'_eq_extractLsb' (show 24 = 16 + 8 from rfl)]
    _ = t.extractLsb' 8 24 ++ t.extractLsb' 0 8 := by
        rw [BitVec.extractLsb'_append_extractLsb'_eq_extractLsb' (show 16 = 8 + 8 from rfl)]
    _ = t.extractLsb' 0 32 := BitVec.extractLsb'_append_extractLsb'_eq_extractLsb' rfl
    _ = t := BitVec.extractLsb'_eq_self

theorem reserved_eq (r : BitVec 16) : (byteOf r 1).toBitVec ++ (byteOf r 0).toBitVec = r := by
  calc r.extractLsb' 8 8 ++ r.extractLsb' 0 8
      = r.extractLsb' 0 16 := BitVec.extractLsb'_append_extractLsb'_eq_extractLsb' rfl
    _ = r := BitVec.extractLsb'_eq_self

theorem byteOf_byte (x : BitVec 8) : (byteOf x 0).toBitVec = x := BitVec.extractLsb'_eq_self

theorem ofBytes_eq (d : SensorData) {us : List UInt8} (h : ∀ i, i < 8 → us.getD i 0 = d.bytes i) :
    ofBytes us = d := by
  obtain ⟨flags, sensorNum, reserved, timestamp⟩ := d
  simp only [ofBytes, h 0 (by decide), h 1 (by decide), h 2 (by decide), h 3 (by decide),
    h 4 (by decide), h 5 (by decide), h 6 (by decide), h 7 (by decide), SensorData.mk.injEq]
  exact ⟨byteOf_byte flags, byteOf_byte sensorNum, reserved_eq reserved, timestamp_eq timestamp⟩

theorem getD_block (b : Nat) (mem : Queue.Mem) (u : Nat) {i : Nat} (hi : i < b) :
    (block b mem u).getD i 0 = mem (u * b + i) := by
  rw [List.getD_eq_getElem?_getD, block, List.getElem?_map, List.getElem?_range hi]
  rfl

/-! ## The lists -/

section

variable (c : Config w) (s : St w)

def entries (i : Nat) : SensorData := ofBytes (Queue.ring c.fifo s.fifo i)

def committed : List SensorData := window (entries c s) 0 (Queue.queueCount s.fifo).toNat

def staged : List SensorData :=
  window (entries c s) (Queue.queueCount s.fifo).toNat s.fifoStaged.count.toNat

/-- What is committed and what is staged fits into the buffer. -/
def Valid : Prop := (Queue.queueCount s.fifo).toNat + s.fifoStaged.count.toNat ≤ c.fifo.cap

variable {c s}

theorem ub_eq : c.fifo.ub = 8 := c.unitBytes_eq

@[simp] theorem length_committed : (committed c s).length = (Queue.queueCount s.fifo).toNat :=
  length_window ..

@[simp] theorem length_staged : (staged c s).length = s.fifoStaged.count.toNat := length_window ..

theorem map_window {α β : Type} (g : α → β) (f : Nat → α) (d n : Nat) :
    (window f d n).map g = window (fun i => g (f i)) d n := by
  simp [window]

theorem of_repr {f : Queue.Fifo (List UInt8) c.fifo.cap} (r : Queue.Repr c.fifo s.fifo f)
    (h : s.fifoStaged.count.toNat ≤ f.free.length) :
    Valid c s ∧ committed c s = f.queued.map ofBytes ∧
      staged c s = (f.free.take s.fifoStaged.count.toNat).map ofBytes := by
  have hle := r.count_le
  have hlen := r.length_free
  refine ⟨?_, ?_, ?_⟩
  · unfold Valid
    omega
  · rw [r.queued, map_window]
    rfl
  · rw [r.free, take_window, map_window, Nat.min_eq_left (by omega)]
    rfl

theorem Valid.view (h : Valid c s) :
    ∃ f : Queue.Fifo (List UInt8) c.fifo.cap, Queue.Repr c.fifo s.fifo f ∧
      s.fifoStaged.count.toNat ≤ f.free.length := by
  have hle : (Queue.queueCount s.fifo).toNat ≤ c.fifo.cap := Nat.le_of_add_right_le h
  refine ⟨⟨window (Queue.ring c.fifo s.fifo) 0 (Queue.queueCount s.fifo).toNat,
    window (Queue.ring c.fifo s.fifo) (Queue.queueCount s.fifo).toNat
      (c.fifo.cap - (Queue.queueCount s.fifo).toNat), ?_⟩, ⟨rfl, rfl⟩, ?_⟩
  · rw [length_window, length_window]
    omega
  · rw [length_window]
    unfold Valid at h
    omega

theorem toNat_stagedCount (c : Config w) (s : St w) : (stagedCount s).toNat = s.fifoStaged.count.toNat := by
  have hlt : s.fifoStaged.count.toNat < 2 ^ w := by
    have hcount := s.fifoStaged.count.isLt
    have hwidth := Nat.pow_le_pow_right (show 0 < 2 by decide) c.width_le
    omega
  rw [stagedCount, BitVec.toNat_setWidth, Nat.mod_eq_of_lt hlt]

theorem Valid.space_iff (h : Valid c s) :
    Queue.queueSpace c.fifo s.fifo > stagedCount s ↔
      (committed c s).length + (staged c s).length < c.fifo.cap := by
  have hle : (Queue.queueCount s.fifo).toNat ≤ c.fifo.cap := Nat.le_of_add_right_le h
  rw [gt_iff_lt, BitVec.lt_def, toNat_stagedCount c s, Queue.toNat_space hle, length_committed,
    length_staged]
  omega

end

/-! ## Dropping the oldest entry -/

def addLost (lost : Nat → BitVec 16) (x : SensorData) : Nat → BitVec 16 :=
  if isTimestamp x then lost else update lost x.sensor (lost x.sensor + 1)

section

variable {c : Config w} {s : St w}

theorem getFifoHead_eq : getFifoHead c s = entries c s 0 := by
  unfold getFifoHead entryAt entries
  rw [Queue.unitAt_eq_ring (u := s.fifo.head &&& c.fifo.bufferUnitsMask) (k := 0)]
  · have hslot := c.fifo.toNat_and_mask s.fifo.head
    rw [c.fifo.toNat_mul, Nat.add_zero]
    rw [hslot]
    exact Nat.le_of_lt (Nat.mod_lt _ c.fifo.cap_pos)
  · rw [c.fifo.toNat_and_mask, Nat.add_zero, Nat.add_zero]

theorem getFifoHead_cons {x : SensorData} {xs : List SensorData}
    (h : committed c s ++ staged c s = x :: xs) : getFifoHead c s = x := by
  rw [getFifoHead_eq]
  have hwindow : window (entries c s) 0
      ((Queue.queueCount s.fifo).toNat + s.fifoStaged.count.toNat) = x :: xs := by
    rw [← h, ← window_append, Nat.zero_add]
    rfl
  have hlen := congrArg List.length hwindow
  rw [length_window, List.length_cons] at hlen
  rw [hlen, window_succ] at hwindow
  exact (List.cons.inj hwindow).1

/-- `x` is dropped, and is counted as lost. -/
structure Popped (c : Config w) (x : SensorData) (s s' : St w) : Prop where
  valid : Valid c s'
  lists :
    (committed c s = x :: committed c s' ∧ staged c s' = staged c s ∧ s'.fifoStaged = s.fifoStaged) ∨
      (committed c s = [] ∧ committed c s' = [] ∧ staged c s = x :: staged c s' ∧
        s'.fifoStaged = s.fifoStaged.pop c x)
  rest : s' = { s with
    fifo := s'.fifo
    fifoStaged := s'.fifoStaged
    wakeUpNeeded := s'.wakeUpNeeded
    fifoLost := s.fifoLost + 1
    fifoSensorLost := addLost s.fifoSensorLost x }

theorem fifoPop_committed (h : Queue.queueCount s.fifo ≠ 0) :
    fifoPop c s = { s with
      fifo := (Queue.queueAdvanceHead s.fifo 1).2
      wakeUpNeeded := (getFifoHead c s).flags &&& flagWakeup != 0 || s.wakeUpNeeded
      fifoLost := s.fifoLost + 1
      fifoSensorLost := addLost s.fifoSensorLost (getFifoHead c s) } := by
  have hcount : (Queue.queueCount s.fifo == 0) = false := beq_false_of_ne h
  have hne : (Queue.queueCount s.fifo != 0) = true := bne_iff_ne.mpr h
  cases hwake : (getFifoHead c s).flags &&& flagWakeup != 0 with
  | true =>
    cases hts : isTimestamp (getFifoHead c s) with
    | true => simp only [fifoPop, hcount, hne, hwake, hts, addLost, Bool.false_and, Bool.false_eq_true,
        Bool.true_or, ↓reduceIte]
    | false => simp only [fifoPop, hcount, hne, hwake, hts, addLost, Bool.false_and, Bool.false_eq_true,
        Bool.true_or, ↓reduceIte]
  | false =>
    cases hts : isTimestamp (getFifoHead c s) with
    | true => simp only [fifoPop, hcount, hne, hwake, hts, addLost, Bool.false_and, Bool.false_eq_true,
        Bool.false_or, ↓reduceIte]
    | false => simp only [fifoPop, hcount, hne, hwake, hts, addLost, Bool.false_and, Bool.false_eq_true,
        Bool.false_or, ↓reduceIte]

theorem fifoPop_staged (h : Queue.queueCount s.fifo = 0) (hstaged : s.fifoStaged.count ≠ 0) :
    fifoPop c s = { s with
      fifo := (Queue.queueAdvanceHead (Queue.queueAdvanceTail c.fifo s.fifo 1).2 1).2
      fifoStaged := s.fifoStaged.pop c (getFifoHead c s)
      wakeUpNeeded := (getFifoHead c s).flags &&& flagWakeup != 0 || s.wakeUpNeeded
      fifoLost := s.fifoLost + 1
      fifoSensorLost := addLost s.fifoSensorLost (getFifoHead c s) } := by
  have hcount : (Queue.queueCount s.fifo == 0) = true := beq_iff_eq.mpr h
  have hne : (Queue.queueCount s.fifo != 0) = false := by rw [bne, hcount]; rfl
  have hcount' : (s.fifoStaged.count == 0) = false := beq_false_of_ne hstaged
  cases hwake : (getFifoHead c s).flags &&& flagWakeup != 0 with
  | true =>
    cases hts : isTimestamp (getFifoHead c s) with
    | true => simp only [fifoPop, hcount, hne, hcount', hwake, hts, addLost, Bool.true_and,
        Bool.false_eq_true, Bool.true_or, ↓reduceIte]
    | false => simp only [fifoPop, hcount, hne, hcount', hwake, hts, addLost, Bool.true_and,
        Bool.false_eq_true, Bool.true_or, ↓reduceIte]
  | false =>
    cases hts : isTimestamp (getFifoHead c s) with
    | true => simp only [fifoPop, hcount, hne, hcount', hwake, hts, addLost, Bool.true_and,
        Bool.false_eq_true, Bool.false_or, ↓reduceIte]
    | false => simp only [fifoPop, hcount, hne, hcount', hwake, hts, addLost, Bool.true_and,
        Bool.false_eq_true, Bool.false_or, ↓reduceIte]

end

section

variable {c : Config w} {s : St w}

theorem toNat_one (c : Config w) : (1 : BitVec w).toNat = 1 := c.fifo.toNat_one

theorem fifoPop_popped (h : Valid c s) {x : SensorData} {xs : List SensorData}
    (hx : committed c s ++ staged c s = x :: xs) : Popped c x s (fifoPop c s) := by
  have hhead := getFifoHead_cons hx
  obtain ⟨f, r, hfree⟩ := h.view
  obtain ⟨-, hcommitted, hstaged⟩ := of_repr r hfree
  by_cases hcount : Queue.queueCount s.fifo = 0
  · have hempty : committed c s = [] := by
      rw [← List.length_eq_zero_iff, length_committed, hcount, Queue.toNat_zero]
    rw [hempty, List.nil_append] at hx
    have hpos : 0 < s.fifoStaged.count.toNat := by
      rw [← length_staged (c := c), hx]
      exact Nat.succ_pos _
    have hne : s.fifoStaged.count ≠ 0 := by
      rintro h0
      rw [h0] at hpos
      exact Nat.lt_irrefl 0 hpos
    have hpop : (s.fifoStaged.pop c x).count = s.fifoStaged.count - 1 := by
      simp only [FifoStaged.pop]
      split
      · rfl
      · split
        · rfl
        · rfl
    have hless : (s.fifoStaged.count - 1).toNat = s.fifoStaged.count.toNat - 1 := by bv_omega
    have r₂ := (Queue.queueAdvanceHead_spec (Queue.queueAdvanceTail_spec r 1).2.1 1).2.1
    rw [toNat_one c] at r₂
    have hqueued : f.queued = [] := by
      rw [hcommitted] at hempty
      exact List.map_eq_nil_iff.mp hempty
    have hfree' : ((f.commit 1).pop 1).free = f.free.drop 1 ++ f.free.take 1 := by
      rw [Queue.Fifo.pop_free, Queue.Fifo.commit_free, Queue.Fifo.commit_queued, hqueued,
        List.nil_append, List.take_take, Nat.min_self]
    rw [fifoPop_staged hcount hne, hhead]
    obtain ⟨hvalid, hcommitted', hstaged'⟩ := of_repr (c := c) (s := { s with
      fifo := (Queue.queueAdvanceHead (Queue.queueAdvanceTail c.fifo s.fifo 1).2 1).2
      fifoStaged := s.fifoStaged.pop c x
      wakeUpNeeded := x.flags &&& flagWakeup != 0 || s.wakeUpNeeded
      fifoLost := s.fifoLost + 1
      fifoSensorLost := addLost s.fifoSensorLost x }) r₂ (by
        rw [hfree', hpop, hless, List.length_append, List.length_drop, List.length_take]
        omega)
    refine ⟨hvalid, .inr ⟨hempty, ?_, ?_, rfl⟩, rfl⟩
    · rw [hcommitted', Queue.Fifo.pop_queued, Queue.Fifo.commit_queued, hqueued, List.nil_append,
        List.drop_take, Nat.sub_self, List.take_zero, List.map_nil]
    · have hrest : (f.free.drop 1 ++ f.free.take 1).take (s.fifoStaged.count.toNat - 1) =
          (f.free.take s.fifoStaged.count.toNat).drop 1 := by
        rw [List.take_append_of_le_length (by rw [List.length_drop]; omega), List.drop_take]
      rw [hstaged', hfree', hpop, hless, hrest, List.map_drop, ← hstaged, hx]
      rfl
  · have r₁ := (Queue.queueAdvanceHead_spec r 1).2.1
    rw [toNat_one c] at r₁
    rw [fifoPop_committed hcount, hhead]
    obtain ⟨hvalid, hcommitted', hstaged'⟩ := of_repr (c := c) (s := { s with
      fifo := (Queue.queueAdvanceHead s.fifo 1).2
      wakeUpNeeded := x.flags &&& flagWakeup != 0 || s.wakeUpNeeded
      fifoLost := s.fifoLost + 1
      fifoSensorLost := addLost s.fifoSensorLost x }) r₁ (by
        rw [Queue.Fifo.pop_free, List.length_append]
        exact Nat.le_add_right_of_le hfree)
    refine ⟨hvalid, .inl ⟨?_, ?_, rfl⟩, rfl⟩
    · rw [hcommitted', Queue.Fifo.pop_queued, List.map_drop, ← hcommitted]
      cases hc : committed c s with
      | nil =>
        have hlen := length_committed (c := c) (s := s)
        rw [hc, List.length_nil] at hlen
        exact absurd (BitVec.eq_of_toNat_eq (by rw [← hlen, Queue.toNat_zero])) hcount
      | cons y ys =>
        rw [hc, List.cons_append] at hx
        rw [(List.cons.inj hx).1]
        rfl
    · rw [hstaged', Queue.Fifo.pop_free, List.take_append_of_le_length hfree]
      exact hstaged.symm

theorem Popped.pending {s' : St w} {x : SensorData} (h : Popped c x s s') :
    committed c s ++ staged c s = x :: (committed c s' ++ staged c s') := by
  obtain ⟨hc, hs, -⟩ | ⟨hc, hc', hs, -⟩ := h.lists
  · rw [hc, hs, List.cons_append]
  · rw [hc, hc', hs, List.nil_append, List.nil_append]

inductive Pops (c : Config w) : List SensorData → St w → St w → Prop
  | nil {s : St w} : Valid c s → Pops c [] s s
  | cons {s s₁ s' : St w} {x : SensorData} {xs : List SensorData} : Popped c x s s₁ →
      Pops c xs s₁ s' → Pops c (x :: xs) s s'

theorem Pops.pending {s' : St w} {xs : List SensorData} (h : Pops c xs s s') :
    committed c s ++ staged c s = xs ++ (committed c s' ++ staged c s') := by
  induction h with
  | nil => rfl
  | cons hx _ ih => rw [hx.pending, ih, List.cons_append]

theorem Pops.valid {s' : St w} {xs : List SensorData} (h : Pops c xs s s') : Valid c s' := by
  induction h with
  | nil hvalid => exact hvalid
  | cons _ _ ih => exact ih

end

/-! ## Making space -/

section

variable {c : Config w} {s : St w}

theorem Valid.entries_left_iff (h : Valid c s) :
    (Queue.queueCount s.fifo + stagedCount s != 0) = true ↔ committed c s ++ staged c s ≠ [] := by
  have hcap := c.fifo.cap_lt
  have hsum : (Queue.queueCount s.fifo + stagedCount s).toNat =
      (committed c s ++ staged c s).length := by
    unfold Valid at h
    rw [BitVec.toNat_add, toNat_stagedCount c s, Nat.mod_eq_of_lt (by omega), List.length_append,
      length_committed, length_staged]
  rw [bne_iff_ne, ne_eq, ne_eq, ← List.length_eq_zero_iff, ← hsum]
  constructor
  · intro hne h0
    exact hne (BitVec.eq_of_toNat_eq (by rw [h0, Queue.toNat_zero]))
  · intro hne h0
    exact hne (by rw [h0, Queue.toNat_zero])

/-- What the loop drops: with tight timestamps, data after the first entry is dropped
until there is a timestamp. -/
structure Enough (c : Config w) (xs : List SensorData) (s s' : St w) : Prop where
  pops : Pops c xs s s'
  more : ∀ x ∈ xs.tail, c.tightTimestamps = true ∧ isTimestamp x = false
  stops : c.tightTimestamps = true → ∀ x rest, committed c s' ++ staged c s' = x :: rest →
    isTimestamp x = true

theorem popEnough_spec (n : Nat) (h : Valid c s) (hne : committed c s ++ staged c s ≠ [])
    (hn : (committed c s ++ staged c s).length ≤ n) :
    ∃ xs, xs ≠ [] ∧ Enough c xs s (popEnough c n s) := by
  induction n generalizing s with
  | zero => exact absurd (List.length_eq_zero_iff.mp (Nat.le_zero.mp hn)) hne
  | succ n ih =>
    obtain ⟨x, xs, hx⟩ := List.exists_cons_of_ne_nil hne
    have hpop := fifoPop_popped h hx
    have hpending := hpop.pending
    rw [popEnough]
    by_cases hgo : (c.tightTimestamps && !isTimestamp (getFifoHead c (fifoPop c s)) &&
        Queue.queueCount (fifoPop c s).fifo + stagedCount (fifoPop c s) != 0) = true
    · rw [if_pos hgo]
      rw [Bool.and_eq_true, Bool.and_eq_true, hpop.valid.entries_left_iff] at hgo
      obtain ⟨⟨htight, hts⟩, hleft⟩ := hgo
      obtain ⟨ys, hys, hrest⟩ := ih hpop.valid hleft (by
        rw [hpending, List.length_cons] at hn
        omega)
      refine ⟨x :: ys, List.cons_ne_nil x ys, .cons hpop hrest.pops, ?_, hrest.stops⟩
      -- The next entry to be dropped is the one at the head.
      obtain ⟨y, zs, rfl⟩ := List.exists_cons_of_ne_nil hys
      have hy : getFifoHead c (fifoPop c s) = y :=
        getFifoHead_cons (hrest.pops.pending.trans (List.cons_append ..))
      intro z hz
      obtain rfl | hz := List.mem_cons.mp hz
      · exact ⟨htight, by simpa [hy] using hts⟩
      · exact hrest.more z hz
    · rw [if_neg hgo]
      refine ⟨[x], List.cons_ne_nil x [], .cons hpop (.nil hpop.valid), by simp, ?_⟩
      intro htight y rest hy
      have hleft := hpop.valid.entries_left_iff.mpr (by rw [hy]; exact List.cons_ne_nil y rest)
      rw [htight, hleft, getFifoHead_cons hy] at hgo
      simpa using hgo

/-- After that there is space. Entries are dropped only if there was none. -/
theorem fifoEnsureSpace_spec (h : Valid c s) :
    (committed c (fifoEnsureSpace c s) ++ staged c (fifoEnsureSpace c s)).length < c.fifo.cap ∧
      ((fifoEnsureSpace c s = s) ∨
        ((committed c s ++ staged c s).length = c.fifo.cap ∧
          ∃ xs, xs ≠ [] ∧ Enough c xs s (fifoEnsureSpace c s))) := by
  have hlen : (committed c s ++ staged c s).length ≤ c.fifo.cap := by
    rw [List.length_append, length_committed, length_staged]
    exact h
  unfold fifoEnsureSpace
  by_cases hspace : Queue.queueSpace c.fifo s.fifo > stagedCount s
  · rw [if_pos hspace]
    rw [h.space_iff, ← List.length_append] at hspace
    exact ⟨hspace, .inl rfl⟩
  · rw [if_neg hspace]
    rw [h.space_iff, ← List.length_append] at hspace
    have hcap := c.fifo.cap_pos
    obtain ⟨xs, hxs, henough⟩ := popEnough_spec c.fifo.bufferUnits.toNat h
      (List.ne_nil_of_length_pos (by omega)) hlen
    have hpending : (committed c s ++ staged c s).length = xs.length +
        (committed c (popEnough c c.fifo.bufferUnits.toNat s) ++
          staged c (popEnough c c.fifo.bufferUnits.toNat s)).length := by
      rw [henough.pops.pending, List.length_append]
    have hpos := List.length_pos_of_ne_nil hxs
    exact ⟨by omega, .inr ⟨by omega, xs, hxs, henough⟩⟩

end

/-! ## Staging an entry -/

section

variable {c : Config w} {s : St w}

theorem store_entry {f : Queue.Fifo (List UInt8) c.fifo.cap} (r : Queue.Repr c.fifo s.fifo f)
    {offset : BitVec w} (h : offset.toNat < f.free.length) (d : SensorData) :
    ∃ p u, peekFifoStaged c s offset = some p ∧
      Queue.Repr c.fifo (Queue.store s.fifo p d.bytes c.fifo.unitBytes) (f.fill offset.toNat [u]) ∧
      ofBytes u = d := by
  obtain ⟨tail, hbuf, htail, -, -, hend⟩ := Queue.queueGetWriteChunk_spec r h
  have hfree := r.length_free
  have hlt : tail.toNat < c.fifo.cap := by
    rw [htail]
    exact Nat.mod_lt _ c.fifo.cap_pos
  have hstored := @Queue.store_stored _ c.fifo s.fifo (tail * c.fifo.unitBytes) c.fifo.unitBytes tail.toNat
    ((Queue.queueCount s.fifo).toNat + offset.toNat) 1 d.bytes (by omega) (by omega) (by omega) (fun _ => htail)
    (c.fifo.toNat_mul (Nat.le_of_lt hlt)) (by rw [Nat.one_mul]; rfl)
  refine ⟨_, Queue.units c.fifo d.bytes 0, hbuf, ?_, ?_⟩
  · have hrepr := hstored.repr r (Nat.le_add_right _ _)
    rwa [Nat.add_sub_cancel_left] at hrepr
  · apply ofBytes_eq
    intro i hi
    rw [Queue.units, getD_block _ _ _ (by rw [c.unitBytes_eq]; exact hi), Nat.zero_mul, Nat.zero_add]

end

section

variable {c : Config w} {s : St w}

theorem fill_free_eq_set {α : Type} {cap : Nat} (f : Queue.Fifo α cap) (i : Nat) (u : α) :
    (f.fill i [u]).free = f.free.set i u := by
  rw [Queue.Fifo.fill_free]
  apply List.ext_getElem?
  intro j
  rw [List.getElem?_mapIdx, List.getElem?_set]
  by_cases hij : i = j
  · subst hij
    by_cases hlt : i < f.free.length
    · simp [hlt]
    · simp [hlt]
  · by_cases hle : i ≤ j
    · obtain ⟨k, hk⟩ : ∃ k, j - i = k + 1 := ⟨j - i - 1, by omega⟩
      simp [hij, hle, hk]
    · simp [hij, hle]

theorem take_succ_set {α : Type} (l : List α) {n : Nat} (u : α) (h : n < l.length) :
    (l.set n u).take (n + 1) = l.take n ++ [u] := by
  rw [List.take_add_one, List.take_set, List.getElem?_set_self h, Option.toList_some]
  rw [List.set_eq_of_length_le (by rw [List.length_take]; omega)]

/-- The entry as it is written. -/
def flagged (c : Config w) (e : Env) (data : SensorData) : SensorData :=
  if c.tabletMode && e.tabletGetMode then { data with flags := data.flags ||| flagTabletMode } else data

theorem flagged_sensor (e : Env) (data : SensorData) : (flagged c e data).sensor = data.sensor := by
  unfold flagged
  split
  · rfl
  · rfl

theorem and_tabletMode (x mask : BitVec 8) (h : flagTabletMode &&& mask = 0) :
    (x ||| flagTabletMode) &&& mask = x &&& mask := by
  rw [BitVec.and_or_distrib_right, h]
  exact BitVec.or_zero

theorem isTimestamp_flagged (e : Env) (data : SensorData) :
    isTimestamp (flagged c e data) = isTimestamp data := by
  unfold flagged
  split
  · unfold isTimestamp
    rw [and_tabletMode _ _ (by decide)]
  · rfl

theorem isTimestamp_stamp (e : Env) (time : BitVec 32) (sensorNum : BitVec 8) :
    isTimestamp ⟨flagTimestamp, sensorNum, e.reserved, time⟩ = true := by
  show (flagTimestamp &&& flagTimestamp != 0) = true
  decide

theorem isTimestamp_async (e : Env) (sensor : BitVec 8) (event : AsyncEvent) :
    isTimestamp ⟨event.flags, sensor, e.reserved, e.hwClockSourceRead⟩ = true := by
  cases event with
  | flush =>
    show (AsyncEvent.flush.flags &&& flagTimestamp != 0) = true
    decide
  | odr =>
    show (AsyncEvent.odr.flags &&& flagTimestamp != 0) = true
    decide

/-- `x` is written behind the staged entries. The count of these has 16 bits. -/
structure Wrote (c : Config w) (x : SensorData) (s s' : St w) : Prop where
  valid : Valid c s'
  committed : committed c s' = committed c s
  staged : staged c s' = if s.fifoStaged.count = 0xffff then [] else staged c s ++ [x]
  rest : s' = { s with
    fifo := s'.fifo
    fifoStaged := s.fifoStaged.push c x
    written := s.written ++ [(x, s.calls)] }

theorem push_count (staged : FifoStaged) (x : SensorData) : (staged.push c x).count = staged.count + 1 := by
  simp only [FifoStaged.push]
  split
  · split
    · rfl
    · rfl
  · rfl

theorem wrote_of_space (h : Valid c s) (hspace : (committed c s ++ staged c s).length < c.fifo.cap)
    (x : SensorData) :
    ∃ p, peekFifoStaged c s (stagedCount s) = some p ∧
      Wrote c x s { s with
        fifo := Queue.store s.fifo p x.bytes c.fifo.unitBytes
        fifoStaged := s.fifoStaged.push c x
        written := s.written ++ [(x, s.calls)] } := by
  obtain ⟨f, r, hfree⟩ := h.view
  obtain ⟨-, hcommitted, hstaged⟩ := of_repr r hfree
  have hlen := r.length_free
  have hcount := toNat_stagedCount c s
  have hroom : s.fifoStaged.count.toNat < f.free.length := by
    rw [List.length_append, length_committed, length_staged] at hspace
    omega
  obtain ⟨p, u, hp, r', hu⟩ := @store_entry _ _ _ _ r (stagedCount s) (by omega) x
  rw [hcount] at r'
  refine ⟨p, hp, ?_⟩
  have hfill := fill_free_eq_set f s.fifoStaged.count.toNat u
  by_cases hwrap : s.fifoStaged.count = 0xffff
  · have hzero : (s.fifoStaged.push c x).count = 0 := by
      rw [push_count, hwrap]
      rfl
    obtain ⟨hvalid, hcommitted', hstaged'⟩ := of_repr (c := c) (s := { s with
      fifo := Queue.store s.fifo p x.bytes c.fifo.unitBytes
      fifoStaged := s.fifoStaged.push c x
      written := s.written ++ [(x, s.calls)] }) r' (by rw [hzero]; exact Nat.zero_le _)
    refine ⟨hvalid, ?_, ?_, rfl⟩
    · rw [hcommitted', Queue.Fifo.fill_queued, hcommitted]
    · rw [if_pos hwrap, hstaged', hzero]
      rfl
  · have hsucc : (s.fifoStaged.push c x).count.toNat = s.fifoStaged.count.toNat + 1 := by
      rw [push_count]
      bv_omega
    obtain ⟨hvalid, hcommitted', hstaged'⟩ := of_repr (c := c) (s := { s with
      fifo := Queue.store s.fifo p x.bytes c.fifo.unitBytes
      fifoStaged := s.fifoStaged.push c x
      written := s.written ++ [(x, s.calls)] }) r' (by
        rw [hsucc, hfill, List.length_set]
        omega)
    refine ⟨hvalid, ?_, ?_, rfl⟩
    · rw [hcommitted', Queue.Fifo.fill_queued, hcommitted]
    · rw [if_neg hwrap, hstaged', hsucc, hfill, take_succ_set _ _ hroom, List.map_append, ← hstaged,
        List.map_singleton, hu]

theorem writeUnit_wrote (h : Valid c s) (e : Env) (data : SensorData) :
    Wrote c (flagged c e data) (fifoEnsureSpace c s) (writeUnit c e data s) := by
  obtain ⟨hspace, hcases⟩ := fifoEnsureSpace_spec h
  have hvalid : Valid c (fifoEnsureSpace c s) := by
    obtain hsame | ⟨-, xs, -, henough⟩ := hcases
    · rw [hsame]
      exact h
    · exact henough.pops.valid
  obtain ⟨p, hp, hwrote⟩ := wrote_of_space hvalid hspace (flagged c e data)
  unfold peekFifoStaged at hp
  simp only [writeUnit, hp]
  exact hwrote

end

end ChromeEc.MotionSense
