import ChromeEc.Queue.Refinement

/- Runs of the queue.

  Each function of `queue.c` gets one specification against the bounded list,
  `step_refines` collects them, and `queue_refines_fifo` follows by induction on
  the client's steps: whatever the client does, what it sees is what the bounded
  list shows, and no write lands on a queued unit. -/
namespace ChromeEc.Queue
open Lib

variable {w : Nat} {q : Config w} {s : State w} {f : Fifo (List UInt8) q.cap}

/-! ## Moving the counters -/

theorem queueAdvanceTail_spec (r : Repr q s f) (count : BitVec w) :
    (queueAdvanceTail q s count).1.toNat = min count.toNat f.free.length ∧
      Repr q (queueAdvanceTail q s count).2 (f.commit count.toNat) ∧
      (queueAdvanceTail q s count).2.writes = s.writes := by
  have hle := r.count_le
  have hlt := q.cap_lt
  have htr : (MIN count (queueSpace q s)).toNat = min count.toNat f.free.length := by
    rw [toNat_MIN, r.space_eq]
  refine ⟨htr, ?_, ?_⟩
  · rw [← Fifo.commit_min, ← htr]
    unfold queueAdvanceTail
    dsimp only
    by_cases hpos : 0 < MIN count (queueSpace q s)
    · rw [if_pos hpos]
      refine r.commit (by omega) rfl rfl ?_
      have hadd : queueCount (notify { s with tail := s.tail + MIN count (queueSpace q s) }
          (.add (MIN count (queueSpace q s)))) = queueCount s + MIN count (queueSpace q s) := by
        show s.tail + _ - s.head = s.tail - s.head + _
        rw [BitVec.sub_eq_add_neg, BitVec.sub_eq_add_neg, BitVec.add_assoc, BitVec.add_assoc,
          BitVec.add_comm (MIN _ _)]
      have hfree := r.length_free
      rw [hadd, BitVec.toNat_add, Nat.mod_eq_of_lt (by omega)]
    · rw [if_neg hpos]
      refine r.commit (by omega) rfl rfl ?_
      rw [BitVec.lt_def, toNat_zero] at hpos
      omega
  · unfold queueAdvanceTail
    dsimp only
    by_cases hpos : 0 < MIN count (queueSpace q s)
    · rw [if_pos hpos]
      rfl
    · rw [if_neg hpos]

theorem queueAdvanceHead_spec (r : Repr q s f) (count : BitVec w) :
    (queueAdvanceHead s count).1.toNat = min count.toNat f.queued.length ∧
      Repr q (queueAdvanceHead s count).2 (f.pop count.toNat) ∧
      (queueAdvanceHead s count).2.writes = s.writes := by
  have htr : (MIN count (queueCount s)).toNat = min count.toNat f.queued.length := by
    rw [toNat_MIN, r.length_queued]
  refine ⟨htr, ?_, rfl⟩
  rw [← Fifo.pop_min, ← htr]
  apply r.pop (by omega)
  · intro i
    show ringAt q.cap (block q.ub s.buffer) (s.head + MIN count (queueCount s)).toNat i = _
    rw [BitVec.toNat_add, ringAt_mod q.cap_dvd, ringAt_add]
    rfl
  · have hsub : queueCount (queueAdvanceHead s count).2 =
        queueCount s - MIN count (queueCount s) := by
      show s.tail - (s.head + _) = s.tail - s.head - _
      rw [BitVec.sub_eq_add_neg, BitVec.neg_add, BitVec.sub_eq_add_neg, BitVec.sub_eq_add_neg,
        BitVec.sub_eq_add_neg, BitVec.add_assoc]
    have hle : MIN count (queueCount s) ≤ queueCount s := by
      rw [BitVec.le_def, toNat_MIN]
      omega
    rw [hsub, BitVec.toNat_sub_of_le hle]

/-! ## Adding -/

theorem tail_slot_zero (q : Config w) (s : State w) :
    (s.tail &&& q.bufferUnitsMask).toNat =
      (s.head.toNat + (queueCount s).toNat) % q.cap := by
  have h := tail_slot q s 0
  rwa [toNat_zero, Nat.add_zero, BitVec.ofNat_eq_ofNat, BitVec.add_zero] at h

theorem queueAddUnit_spec (r : Repr q s f) (src : Mem) :
    (queueAddUnit q s src).1.toNat = min 1 f.free.length ∧
      Repr q (queueAddUnit q s src).2 (f.push (window (units q src) 0 1)) ∧
      ∀ wr ∈ (queueAddUnit q s src).2.writes, wr ∈ s.writes ∨ wr.Clear q := by
  have hslot := tail_slot_zero q s
  have hlt := Nat.mod_lt (s.head.toNat + (queueCount s).toNat) q.cap_pos
  by_cases hspace : queueSpace q s = 0
  · have hfree : f.free.length = 0 := by
      rw [← r.space_eq, hspace, toNat_zero]
    unfold queueAddUnit
    rw [if_pos hspace]
    refine ⟨?_, ?_, fun wr h => .inl h⟩
    · rw [hfree, toNat_zero]
      rfl
    · have hfull : f.push (window (units q src) 0 1) = f := by
        have hnil := List.eq_nil_of_length_eq_zero hfree
        apply Fifo.ext <;> simp [hnil]
      rw [hfull]
      exact r
  · have hpos : 0 < f.free.length := by
      rw [← r.space_eq]
      exact toNat_pos hspace
    have hfree := r.length_free
    -- Both branches copy one unit to the slot of the tail.
    obtain ⟨s₁, hst, heq⟩ : ∃ s₁, Stored q s s₁ (queueCount s).toNat 1 (units q src) ∧
        queueAddUnit q s src = queueAdvanceTail q s₁ 1 := by
      unfold queueAddUnit
      rw [if_neg hspace]
      by_cases hone : q.unitBytes = 1
      · rw [if_pos hone]
        have hub : q.ub = 1 := by
          unfold Config.ub
          rw [hone, q.toNat_one]
        refine ⟨_, store_stored src (Nat.le_refl _) (by omega) ?_ (fun _ => hslot) ?_ ?_, rfl⟩
        · omega
        · rw [hub, Nat.mul_one]
        · rw [hub, q.toNat_one]
      · rw [if_neg hone]
        refine ⟨_, store_stored src (Nat.le_refl _) (by omega) ?_ (fun _ => hslot) ?_ ?_, rfl⟩
        · omega
        · exact q.toNat_mul (by omega)
        · rw [Nat.one_mul]
          rfl
    have r₁ := hst.repr r (Nat.le_refl _)
    rw [Nat.sub_self] at r₁
    obtain ⟨h₁, h₂, h₃⟩ := queueAdvanceTail_spec r₁ 1
    rw [heq, h₁, h₃, q.toNat_one]
    rw [q.toNat_one] at h₂
    refine ⟨?_, ?_, hst.writes⟩
    · rw [Fifo.fill_free, List.length_mapIdx]
    · rw [Fifo.push_eq_commit_fill, length_window, take_window, Nat.min_eq_right (by omega),
        Nat.min_eq_left (by omega)]
      exact h₂

theorem queueAddUnits_spec (r : Repr q s f) (src : Mem) (count : BitVec w) :
    (queueAddUnits q s src count).1.toNat = min count.toNat f.free.length ∧
      Repr q (queueAddUnits q s src count).2 (f.push (window (units q src) 0 count.toNat)) ∧
      ∀ wr ∈ (queueAddUnits q s src count).2.writes, wr ∈ s.writes ∨ wr.Clear q := by
  have hslot := tail_slot_zero q s
  have hlt := Nat.mod_lt (s.head.toNat + (queueCount s).toNat) q.cap_pos
  have hle := r.count_le
  have hfree := r.length_free
  obtain ⟨transfer, htrdef⟩ : ∃ t, t = MIN count (queueSpace q s) := ⟨_, rfl⟩
  obtain ⟨first, hfirdef⟩ : ∃ x, x = MIN transfer (q.bufferUnits - (s.tail &&& q.bufferUnitsMask)) :=
    ⟨_, rfl⟩
  have htr : transfer.toNat = min count.toNat f.free.length := by
    rw [htrdef, toNat_MIN, r.space_eq]
  have hroom : (q.bufferUnits - (s.tail &&& q.bufferUnitsMask)).toNat =
      q.cap - (s.head.toNat + (queueCount s).toNat) % q.cap := by
    rw [← hslot]
    apply BitVec.toNat_sub_of_le
    rw [BitVec.le_def, hslot]
    exact Nat.le_of_lt hlt
  have hfir : first.toNat =
      min transfer.toNat (q.cap - (s.head.toNat + (queueCount s).toNat) % q.cap) := by
    rw [hfirdef, toNat_MIN, hroom]
  have h₁ : Stored q s (store s ((s.tail &&& q.bufferUnitsMask) * q.unitBytes) src
      (first * q.unitBytes)) (queueCount s).toNat first.toNat (units q src) := by
    apply store_stored src (Nat.le_refl _) (by omega) (t := (s.tail &&& q.bufferUnitsMask).toNat)
      (by omega) (fun _ => hslot) (q.toNat_mul (by omega)) (q.toNat_mul (by omega))
  obtain ⟨s₂, hst, heq⟩ : ∃ s₂, Stored q s s₂ (queueCount s).toNat transfer.toNat (units q src) ∧
      queueAddUnits q s src count = queueAdvanceTail q s₂ transfer := by
    unfold queueAddUnits
    dsimp only
    rw [← htrdef, ← hfirdef]
    by_cases hsplit : first < transfer
    · rw [if_pos hsplit]
      rw [BitVec.lt_def] at hsplit
      refine ⟨_, ?_, rfl⟩
      rw [show transfer.toNat = first.toNat + (transfer.toNat - first.toNat) by omega]
      apply h₁.append
      have hsrc : (fun a => units q src (first.toNat + a)) =
          units q fun a => src ((first * q.unitBytes).toNat + a) := by
        rw [q.toNat_mul (by omega)]
        exact (block_shift q.ub src first.toNat).symm
      rw [hsrc]
      -- The first copy ended at the end of the buffer, so the next slot is 0.
      have hz := ring_index_after_end (N := q.cap) (h := s.head.toNat)
        (d := (queueCount s).toNat) (by omega)
      have hrest : (transfer - first).toNat = transfer.toNat - first.toNat :=
        BitVec.toNat_sub_of_le (Nat.le_of_lt hsplit)
      refine store_stored _ (Nat.le_add_right _ _) (by omega) (t := 0) (by omega) ?_ ?_ ?_
      · intro _
        rw [hfir, Nat.min_eq_right (by omega)]
        exact hz.symm
      · rw [toNat_zero, Nat.zero_mul]
      · rw [q.toNat_mul (by omega), hrest]
    · rw [if_neg hsplit]
      rw [BitVec.lt_def] at hsplit
      refine ⟨_, ?_, rfl⟩
      rw [show transfer.toNat = first.toNat by omega]
      exact h₁
  have r₂ := hst.repr r (Nat.le_refl _)
  rw [Nat.sub_self] at r₂
  obtain ⟨h₁, h₂, h₃⟩ := queueAdvanceTail_spec r₂ transfer
  rw [heq, h₁, h₃]
  refine ⟨?_, ?_, hst.writes⟩
  · rw [Fifo.fill_free, List.length_mapIdx]
    omega
  · rw [Fifo.push_eq_commit_fill, length_window, take_window, Nat.min_comm f.free.length, ← htr]
    exact h₂

/-! ## Reading -/

theorem head_slot (q : Config w) (s : State w) (i : BitVec w) :
    ((s.head + i) &&& q.bufferUnitsMask).toNat = (s.head.toNat + i.toNat) % q.cap := by
  rw [q.toNat_and_mask, q.toNat_add_mod]

theorem units_queueReadSafe (dest : Mem) {head transfer : BitVec w} {i : Nat}
    (hhead : head.toNat = (s.head.toNat + i) % q.cap) (hle : transfer.toNat ≤ q.cap) :
    units q (queueReadSafe q s dest head transfer) =
      blit (units q dest) 0 (fun a => ring q s (i + a)) transfer.toNat := by
  have hlt := Nat.mod_lt (s.head.toNat + i) q.cap_pos
  have hroom : (q.bufferUnits - head).toNat = q.cap - (s.head.toNat + i) % q.cap := by
    rw [← hhead]
    apply BitVec.toNat_sub_of_le
    rw [BitVec.le_def, hhead]
    exact Nat.le_of_lt hlt
  obtain ⟨first, hdef⟩ : ∃ x, x = MIN transfer (q.bufferUnits - head) := ⟨_, rfl⟩
  have hfir : first.toNat = min transfer.toNat (q.cap - (s.head.toNat + i) % q.cap) := by
    rw [hdef, toNat_MIN, hroom]
  have h₁ : units q (blit dest 0 (fun a => s.buffer ((head * q.unitBytes).toNat + a))
      (first * q.unitBytes).toNat) = blit (units q dest) 0
        (fun u => block q.ub s.buffer ((s.head.toNat + i) % q.cap + u)) first.toNat := by
    rw [q.toNat_mul (by omega), q.toNat_mul (by omega), hhead]
    have h := block_blit q.ub dest (fun a => s.buffer ((s.head.toNat + i) % q.cap * q.ub + a)) 0
      first.toNat
    rw [Nat.zero_mul, block_shift] at h
    exact h
  have hsplit := blit_ring_wrap (N := q.cap) (h := s.head.toNat + i) (n := transfer.toNat)
    (units q dest) (block q.ub s.buffer) q.cap_pos hle
  rw [← hfir] at hsplit
  have hring : (fun a => ring q s (i + a)) =
      ringAt q.cap (block q.ub s.buffer) (s.head.toNat + i) := by
    funext a
    rw [ringAt_add]
    rfl
  rw [hring, ← hsplit, ← h₁]
  unfold queueReadSafe
  dsimp only
  rw [← hdef]
  by_cases hlt' : first < transfer
  · rw [if_pos hlt']
    rw [BitVec.lt_def] at hlt'
    have hrest : (transfer - first).toNat = transfer.toNat - first.toNat :=
      BitVec.toNat_sub_of_le (Nat.le_of_lt hlt')
    have hbytes : (first * q.unitBytes).toNat = first.toNat * q.ub := q.toNat_mul (by omega)
    rw [q.toNat_mul (x := transfer - first) (by omega), hrest, hbytes]
    exact block_blit q.ub _ s.buffer first.toNat (transfer.toNat - first.toNat)
  · rw [if_neg hlt']
    rw [BitVec.lt_def] at hlt'
    rw [show transfer.toNat - first.toNat = 0 by omega, blit_zero]

theorem queueRemoveUnits_spec (r : Repr q s f) (dest : Mem) (count : BitVec w) :
    (queueRemoveUnits q s dest count).1.toNat = min count.toNat f.queued.length ∧
      units q (queueRemoveUnits q s dest count).2.1 =
        overwrite (units q dest) (f.queued.take count.toNat) ∧
      Repr q (queueRemoveUnits q s dest count).2.2 (f.pop count.toNat) ∧
      (queueRemoveUnits q s dest count).2.2.writes = s.writes := by
  have hle := r.count_le
  have hlen := r.length_queued
  have htr : (MIN count (queueCount s)).toNat = min count.toNat f.queued.length := by
    rw [toNat_MIN, r.length_queued]
  obtain ⟨h₁, h₂, h₃⟩ := queueAdvanceHead_spec r (MIN count (queueCount s))
  rw [htr, Fifo.pop_min] at h₂
  refine ⟨?_, ?_, h₂, h₃⟩
  · show (queueAdvanceHead s (MIN count (queueCount s))).1.toNat = _
    omega
  · show units q (queueReadSafe q s dest (s.head &&& q.bufferUnitsMask) _) = _
    rw [units_queueReadSafe (i := 0) dest (by rw [q.toNat_and_mask, Nat.add_zero]) (by omega), htr,
      r.queued, take_window, overwrite_window, length_window]

theorem queueRemoveUnit_spec (r : Repr q s f) (dest : Mem) :
    (queueRemoveUnit q s dest).1.toNat = min 1 f.queued.length ∧
      units q (queueRemoveUnit q s dest).2.1 = overwrite (units q dest) (f.queued.take 1) ∧
      Repr q (queueRemoveUnit q s dest).2.2 (f.pop 1) ∧
      (queueRemoveUnit q s dest).2.2.writes = s.writes := by
  have hlen := r.length_queued
  unfold queueRemoveUnit
  dsimp only
  by_cases hempty : queueCount s = 0
  · rw [if_pos hempty]
    rw [hempty, toNat_zero] at hlen
    have hnil := List.eq_nil_of_length_eq_zero hlen
    refine ⟨?_, ?_, ?_, rfl⟩
    · rw [hlen, toNat_zero]
      rfl
    · rw [hnil]
      rfl
    · have hpop : f.pop 1 = f := by
        apply Fifo.ext <;> simp [hnil]
      rw [hpop]
      exact r
  · rw [if_neg hempty]
    have hpos := toNat_pos hempty
    obtain ⟨h₁, h₂, h₃⟩ := queueAdvanceHead_spec r 1
    rw [q.toNat_one] at h₁ h₂
    refine ⟨h₁, ?_, h₂, h₃⟩
    have hslot : (s.head &&& q.bufferUnitsMask).toNat = s.head.toNat % q.cap := q.toNat_and_mask _
    have hlt := Nat.mod_lt s.head.toNat q.cap_pos
    -- The single byte is the general copy with units of one byte.
    have hcopy : (if q.unitBytes = 1 then
          blit dest 0 (fun _ => s.buffer (s.head &&& q.bufferUnitsMask).toNat) 1
        else blit dest 0 (fun a => s.buffer (((s.head &&& q.bufferUnitsMask) * q.unitBytes).toNat +
          a)) q.unitBytes.toNat) =
        blit dest 0 (fun a => s.buffer (s.head.toNat % q.cap * q.ub + a)) q.ub := by
      rw [q.toNat_mul (by omega), hslot]
      by_cases hone : q.unitBytes = 1
      · have hub : q.ub = 1 := by
          unfold Config.ub
          rw [hone, q.toNat_one]
        rw [if_pos hone, hub]
        apply blit_congr
        intro i hi
        congr 1
        omega
      · rw [if_neg hone]
        rfl
    have hblock := block_blit q.ub dest
      (fun a => s.buffer (s.head.toNat % q.cap * q.ub + a)) 0 1
    rw [Nat.zero_mul, Nat.one_mul, block_shift] at hblock
    rw [hcopy]
    show block q.ub _ = _
    rw [hblock, r.queued, take_window, overwrite_window, Nat.min_eq_left (by omega)]
    apply blit_congr
    intro i hi
    unfold ring ringAt
    rw [show i = 0 by omega]
    rfl

theorem queuePeekUnits_spec (r : Repr q s f) (dest : Mem) {i : BitVec w} (count : BitVec w)
    (hi : i ≤ queueCount s) :
    (queuePeekUnits q s dest i count).1.toNat = min count.toNat (f.queued.length - i.toNat) ∧
      units q (queuePeekUnits q s dest i count).2 =
        overwrite (units q dest) ((f.queued.drop i.toNat).take count.toNat) := by
  have hle := r.count_le
  have htr : (MIN count (queueCount s - i)).toNat =
      min count.toNat (f.queued.length - i.toNat) := by
    rw [toNat_MIN, BitVec.toNat_sub_of_le hi, r.length_queued]
  have hlen := r.length_queued
  rw [BitVec.le_def] at hi
  unfold queuePeekUnits
  dsimp only
  by_cases hlt : i < queueCount s
  · rw [if_pos hlt]
    refine ⟨htr, ?_⟩
    show units q (queueReadSafe q s dest _ _) = _
    rw [units_queueReadSafe (i := i.toNat) dest (head_slot q s i) (by omega), htr, r.queued,
      drop_window, take_window, overwrite_window, Nat.zero_add, length_window]
  · rw [if_neg hlt]
    rw [BitVec.lt_def] at hlt
    refine ⟨htr, ?_⟩
    rw [List.drop_eq_nil_of_le (by omega), List.take_nil]
    rfl

/-! ## Chunks -/

/-- The chunk at `offset` is a nonempty stretch of the free slots from there on,
and lies in one piece in the buffer. -/
theorem queueGetWriteChunk_spec (r : Repr q s f) {offset : BitVec w}
    (h : offset.toNat < f.free.length) :
    ∃ tail, (queueGetWriteChunk q s offset).buffer = some (tail * q.unitBytes) ∧
      tail.toNat = (s.head.toNat + ((queueCount s).toNat + offset.toNat)) % q.cap ∧
      0 < (queueGetWriteChunk q s offset).count.toNat ∧
      (queueGetWriteChunk q s offset).count.toNat ≤ f.free.length - offset.toNat ∧
      tail.toNat + (queueGetWriteChunk q s offset).count.toNat ≤ q.cap := by
  have hfree := r.length_free
  have hspace : ¬queueSpace q s ≤ offset := by
    rw [BitVec.le_def, r.space_eq]
    omega
  have htail := tail_slot q s offset
  have hhead : (s.head &&& q.bufferUnitsMask).toNat = s.head.toNat % q.cap := q.toNat_and_mask _
  have hmod := mod_add_of_lt (x := s.head.toNat) (k := (queueCount s).toNat + offset.toNat)
    q.cap_pos (by omega)
  have hlt := Nat.mod_lt s.head.toNat q.cap_pos
  refine ⟨(s.tail + offset) &&& q.bufferUnitsMask, ?_, htail, ?_⟩
  · unfold queueGetWriteChunk
    dsimp only
    rw [if_neg hspace]
  · have hcount : (queueGetWriteChunk q s offset).count =
        (if (s.tail + offset) &&& q.bufferUnitsMask < s.head &&& q.bufferUnitsMask then
          s.head &&& q.bufferUnitsMask else q.bufferUnits) -
          ((s.tail + offset) &&& q.bufferUnitsMask) := by
      unfold queueGetWriteChunk
      dsimp only
      rw [if_neg hspace]
    rw [hcount]
    by_cases hwrap : (s.tail + offset) &&& q.bufferUnitsMask < s.head &&& q.bufferUnitsMask
    · rw [if_pos hwrap, BitVec.toNat_sub_of_le (BitVec.le_of_lt hwrap), htail, hhead]
      rw [BitVec.lt_def, htail, hhead] at hwrap
      split at hmod <;> omega
    · have hunits : q.bufferUnits.toNat = q.cap := rfl
      have hle : (s.tail + offset) &&& q.bufferUnitsMask ≤ q.bufferUnits := by
        rw [BitVec.le_def, htail]
        exact Nat.le_of_lt (Nat.mod_lt _ q.cap_pos)
      rw [if_neg hwrap, BitVec.toNat_sub_of_le hle, htail, hunits]
      rw [BitVec.lt_def, htail, hhead] at hwrap
      split at hmod <;> omega

theorem queueGetWriteChunk_full (r : Repr q s f) {offset : BitVec w}
    (h : f.free.length ≤ offset.toNat) : queueGetWriteChunk q s offset = ⟨0, none⟩ := by
  have hspace : queueSpace q s ≤ offset := by
    rw [BitVec.le_def, r.space_eq]
    exact h
  unfold queueGetWriteChunk
  dsimp only
  rw [if_pos hspace]

theorem toNat_unit_offset (q : Config w) {u : BitVec w} {k : Nat} (h : u.toNat + k ≤ q.cap) :
    (u * q.unitBytes + BitVec.ofNat w k * q.unitBytes).toNat = (u.toNat + k) * q.ub := by
  have hk : (BitVec.ofNat w k).toNat = k := by
    rw [BitVec.toNat_ofNat]
    have := q.cap_lt
    exact Nat.mod_eq_of_lt (by omega)
  have hsum : (u + BitVec.ofNat w k).toNat = u.toNat + k := by
    have := q.cap_lt
    rw [BitVec.toNat_add, hk, Nat.mod_eq_of_lt (by omega)]
  rw [← BitVec.add_mul, q.toNat_mul (by omega), hsum]

theorem writeChunk_refines (r : Repr q s f) {offset : BitVec w} {pos n : Nat} (src : Mem)
    (h : pos + n ≤ (queueGetWriteChunk q s offset).count.toNat) :
    Step q f (.writeChunk offset pos n src) (step q s (.writeChunk offset pos n src)).1
        (f.fill (offset.toNat + pos) (window (units q src) 0 n)) ∧
      Repr q (step q s (.writeChunk offset pos n src)).2
        (f.fill (offset.toNat + pos) (window (units q src) 0 n)) ∧
      ∀ wr ∈ (step q s (.writeChunk offset pos n src)).2.writes, wr ∈ s.writes ∨ wr.Clear q := by
  by_cases hlt : offset.toNat < f.free.length
  · obtain ⟨tail, hbuf, htail, hpos, hle, hend⟩ := queueGetWriteChunk_spec r hlt
    have hfree := r.length_free
    have hstep : (step q s (.writeChunk offset pos n src)).2 =
        store s (tail * q.unitBytes + BitVec.ofNat w pos * q.unitBytes) src
          (BitVec.ofNat w n * q.unitBytes) := by
      unfold step
      dsimp only
      rw [hbuf]
    have hst := store_stored (q := q) (s := s) (t := tail.toNat + pos)
      (d := (queueCount s).toNat + (offset.toNat + pos)) (n := n)
      (l := BitVec.ofNat w n * q.unitBytes) src (by omega) (by omega) (by omega)
      (by
        intro hn
        rw [htail] at hend ⊢
        rw [show s.head.toNat + ((queueCount s).toNat + (offset.toNat + pos)) =
            s.head.toNat + ((queueCount s).toNat + offset.toNat) + pos by omega,
          mod_add_of_lt (k := pos) q.cap_pos (by omega), if_pos (by omega)])
      (toNat_unit_offset q (by omega))
      (by
        have hn : (BitVec.ofNat w n).toNat = n := by
          rw [BitVec.toNat_ofNat, Nat.mod_eq_of_lt (by omega)]
        rw [q.toNat_mul (by omega), hn])
    refine ⟨.writeChunk f offset pos n _ src hle (fun _ => hpos) h, ?_, ?_⟩
    · rw [hstep]
      have r' := hst.repr r (by omega)
      rwa [Nat.add_sub_cancel_left] at r'
    · rw [hstep]
      exact hst.writes
  · have hfull := queueGetWriteChunk_full r (by omega : f.free.length ≤ offset.toNat)
    have hstep : step q s (.writeChunk offset pos n src) = (.chunk 0, s) := by
      unfold step
      dsimp only
      rw [hfull, toNat_zero]
    rw [hfull, toNat_zero] at h
    have hn : n = 0 := by omega
    subst hn
    rw [hstep]
    refine ⟨.writeChunk f offset pos 0 0 src (by omega) (by omega) h, ?_, fun wr h => .inl h⟩
    rw [window_zero, Fifo.fill_nil]
    exact r

theorem unitAt_eq_ring {p u : BitVec w} {i k : Nat} (hp : p.toNat = (u.toNat + k) * q.ub)
    (hu : u.toNat + k = (s.head.toNat + i) % q.cap) : unitAt q s p = ring q s i := by
  unfold unitAt ring ringAt block
  rw [hp, hu]
  rfl

theorem queueGetReadChunk_spec (r : Repr q s f) :
    (queueGetReadChunk q s).buffer = some ((s.head &&& q.bufferUnitsMask) * q.unitBytes) ∧
      (0 < f.queued.length → 0 < (queueGetReadChunk q s).count.toNat) ∧
      (queueGetReadChunk q s).count.toNat ≤ f.queued.length ∧
      s.head.toNat % q.cap + (queueGetReadChunk q s).count.toNat ≤ q.cap := by
  have hhead : (s.head &&& q.bufferUnitsMask).toNat = s.head.toNat % q.cap := q.toNat_and_mask _
  have htail := tail_slot_zero q s
  have hlen := r.length_queued
  have hle := r.count_le
  have hlt := Nat.mod_lt s.head.toNat q.cap_pos
  refine ⟨rfl, ?_⟩
  unfold queueGetReadChunk
  dsimp only
  by_cases hempty : queueIsEmpty s
  · have hz := (queueIsEmpty_iff s).mp hempty
    rw [if_pos hempty, BitVec.sub_self, BitVec.toNat_zero]
    omega
  · rw [if_neg hempty]
    have hpos : 0 < (queueCount s).toNat :=
      Nat.pos_of_ne_zero ((queueIsEmpty_iff s).not.mp hempty)
    -- A full queue has head and tail in one slot.
    have hmod : (s.head.toNat + (queueCount s).toNat) % q.cap =
        if s.head.toNat % q.cap + (queueCount s).toNat < q.cap then
          s.head.toNat % q.cap + (queueCount s).toNat
        else s.head.toNat % q.cap + (queueCount s).toNat - q.cap := by
      obtain hc | hc : (queueCount s).toNat < q.cap ∨ (queueCount s).toNat = q.cap := by omega
      · exact mod_add_of_lt q.cap_pos hc
      · rw [hc, if_neg (by omega), Nat.add_mod_right, Nat.add_sub_cancel]
    by_cases hnormal : s.head &&& q.bufferUnitsMask < s.tail &&& q.bufferUnitsMask
    · rw [if_pos hnormal, BitVec.toNat_sub_of_le (BitVec.le_of_lt hnormal), htail, hhead]
      rw [BitVec.lt_def, htail, hhead] at hnormal
      split at hmod <;> omega
    · have hunits : q.bufferUnits.toNat = q.cap := rfl
      have hle' : s.head &&& q.bufferUnitsMask ≤ q.bufferUnits := by
        rw [BitVec.le_def, hhead]
        exact Nat.le_of_lt hlt
      rw [if_neg hnormal, BitVec.toNat_sub_of_le hle', hhead, hunits]
      rw [BitVec.lt_def, htail, hhead] at hnormal
      split at hmod <;> omega

theorem readChunk_refines (r : Repr q s f) :
    Step q f .readChunk (step q s .readChunk).1 f := by
  obtain ⟨hbuf, hpos, hle, hend⟩ := queueGetReadChunk_spec r
  have hhead : (s.head &&& q.bufferUnitsMask).toNat = s.head.toNat % q.cap := q.toNat_and_mask _
  have hobs : (step q s .readChunk).1 =
      .units (f.queued.take (queueGetReadChunk q s).count.toNat) := by
    unfold step
    dsimp only
    rw [hbuf, r.queued, take_window, Nat.min_eq_left (by rw [← r.length_queued]; exact hle)]
    dsimp only
    congr 1
    apply List.map_congr_left
    intro i hi
    have hi := List.mem_range.mp hi
    rw [Nat.zero_add]
    apply unitAt_eq_ring (toNat_unit_offset q (by omega))
    rw [hhead, mod_add_of_lt q.cap_pos (by omega), if_pos (by omega)]
  rw [hobs]
  exact .readChunk f _ hle hpos

/-! ## Iterating -/

/-- The iterator at the `k`-th queued unit. -/
def iteratorAt (q : Config w) (s : State w) (k : Nat) : Iterator w where
  ptr := some (((s.head + BitVec.ofNat w k) &&& q.bufferUnitsMask) * q.unitBytes)
  offset := BitVec.ofNat w k
  head := s.head
  tail := s.tail

theorem head_add_eq_tail_iff {k : Nat} (hk : k < 2 ^ w) :
    s.head + BitVec.ofNat w k = s.tail ↔ k = (queueCount s).toNat := by
  have ht := tail_eq s
  constructor
  · intro h
    have hc : queueCount s = BitVec.ofNat w k := by
      unfold queueCount
      rw [← h, BitVec.add_comm, BitVec.add_sub_cancel]
    rw [hc, BitVec.toNat_ofNat, Nat.mod_eq_of_lt hk]
  · intro h
    rw [ht, h, BitVec.ofNat_toNat, BitVec.setWidth_eq]

theorem queueNext_iteratorAt {k : Nat} (hk : k < (queueCount s).toNat) :
    queueNext q s (iteratorAt q s k) =
      if k + 1 = (queueCount s).toNat then
        { iteratorAt q s k with offset := BitVec.ofNat w (k + 1), ptr := none }
      else
        iteratorAt q s (k + 1) := by
  have hsucc : BitVec.ofNat w k + 1 = BitVec.ofNat w (k + 1) := by
    rw [BitVec.ofNat_add]
    rfl
  have hnow := (head_add_eq_tail_iff (s := s) (by omega : k < 2 ^ w)).not.mpr (by omega)
  have hnext := head_add_eq_tail_iff (s := s) (by omega : k + 1 < 2 ^ w)
  unfold queueNext iteratorAt
  dsimp only
  rw [if_neg (by simp), if_neg (by simpa using hnow), hsucc]
  by_cases h : k + 1 = (queueCount s).toNat
  · rw [if_pos (hnext.mpr h), if_pos h]
  · rw [if_neg (hnext.not.mpr h), if_neg h]

/-- From the `k`-th unit on, the iteration visits the rest of the queue. -/
theorem iterate_iteratorAt :
    ∀ (fuel k : Nat), k < (queueCount s).toNat → (queueCount s).toNat ≤ k + fuel →
      iterate q s fuel (iteratorAt q s k) =
        some (window (ring q s) k ((queueCount s).toNat - k)) := by
  intro fuel
  induction fuel with
  | zero =>
    intro k hk hf
    omega
  | succ fuel ih =>
    intro k hk hf
    have hunit : unitAt q s (((s.head + BitVec.ofNat w k) &&& q.bufferUnitsMask) * q.unitBytes) =
        ring q s k := by
      have hslot := head_slot q s (BitVec.ofNat w k)
      rw [BitVec.toNat_ofNat, Nat.mod_eq_of_lt (by omega : k < 2 ^ w)] at hslot
      have hlt' := Nat.mod_lt (s.head.toNat + k) q.cap_pos
      apply unitAt_eq_ring (k := 0) (u := (s.head + BitVec.ofNat w k) &&& q.bufferUnitsMask)
      · rw [Nat.add_zero, q.toNat_mul (by omega)]
      · rw [Nat.add_zero, hslot]
    have hsplit : window (ring q s) k ((queueCount s).toNat - k) =
        ring q s k :: window (ring q s) (k + 1) ((queueCount s).toNat - (k + 1)) := by
      rw [← window_succ]
      congr 1
      omega
    have hround : iterate q s (fuel + 1) (iteratorAt q s k) =
        (iterate q s fuel (queueNext q s (iteratorAt q s k))).map (ring q s k :: ·) := by
      rw [← hunit]
      rfl
    rw [hround, queueNext_iteratorAt hk, hsplit]
    by_cases hlast : k + 1 = (queueCount s).toNat
    · rw [if_pos hlast, ← hlast, Nat.sub_self, window_zero]
      cases fuel <;> rfl
    · rw [if_neg hlast, ih (k + 1) (by omega) (by omega)]
      rfl

theorem iterate_queueBegin (r : Repr q s f) :
    iterate q s q.bufferUnits.toNat (queueBegin q s) = some f.queued := by
  have hle := r.count_le
  rw [r.queued]
  by_cases hempty : queueIsEmpty s
  · have hz := (queueIsEmpty_iff s).mp hempty
    have hptr : (queueBegin q s).ptr = none := by
      unfold queueBegin
      dsimp only
      rw [if_pos hempty]
    rw [hz, window_zero]
    obtain ⟨n, hn⟩ : ∃ n, q.bufferUnits.toNat = n + 1 :=
      ⟨q.cap - 1, (Nat.sub_add_cancel q.cap_pos).symm⟩
    rw [hn]
    unfold iterate
    rw [hptr]
  · have hbegin : queueBegin q s = iteratorAt q s 0 := by
      unfold queueBegin iteratorAt
      rw [if_neg hempty, BitVec.add_zero]
      rfl
    have hpos : 0 < (queueCount s).toNat :=
      Nat.pos_of_ne_zero ((queueIsEmpty_iff s).not.mp hempty)
    rw [hbegin, iterate_iteratorAt _ 0 hpos (by rw [Nat.zero_add]; exact hle), Nat.sub_zero]

/-! ## Runs -/

/-- One step of a client is a step of the bounded queue, and what it writes is
clear of the queued units. -/
theorem step_refines (r : Repr q s f) {op : Op w} (h : Allowed q s op) :
    ∃ g, Step q f op (step q s op).1 g ∧ Repr q (step q s op).2 g ∧
      ∀ wr ∈ (step q s op).2.writes, wr ∈ s.writes ∨ wr.Clear q := by
  cases op with
  | addUnit src =>
    obtain ⟨h₁, h₂, h₃⟩ := queueAddUnit_spec r src
    refine ⟨_, ?_, h₂, h₃⟩
    show Step q f _ (.returned (queueAddUnit q s src).1.toNat) _
    rw [h₁]
    exact .addUnit f src
  | addUnits src count =>
    obtain ⟨h₁, h₂, h₃⟩ := queueAddUnits_spec r src count
    refine ⟨_, ?_, h₂, h₃⟩
    show Step q f _ (.returned (queueAddUnits q s src count).1.toNat) _
    rw [h₁]
    exact .addUnits f src count
  | removeUnit dest =>
    obtain ⟨h₁, h₂, h₃, h₄⟩ := queueRemoveUnit_spec r dest
    refine ⟨_, ?_, h₃, fun wr hwr => .inl (h₄ ▸ hwr)⟩
    show Step q f _ (.copied (queueRemoveUnit q s dest).1.toNat _) _
    rw [h₁, h₂]
    exact .removeUnit f dest
  | removeUnits dest count =>
    obtain ⟨h₁, h₂, h₃, h₄⟩ := queueRemoveUnits_spec r dest count
    refine ⟨_, ?_, h₃, fun wr hwr => .inl (h₄ ▸ hwr)⟩
    show Step q f _ (.copied (queueRemoveUnits q s dest count).1.toNat _) _
    rw [h₁, h₂]
    exact .removeUnits f dest count
  | peekUnits dest i count =>
    obtain ⟨h₁, h₂⟩ := queuePeekUnits_spec r dest count h
    refine ⟨f, ?_, r, fun wr hwr => .inl hwr⟩
    show Step q f _ (.copied (queuePeekUnits q s dest i count).1.toNat _) _
    rw [h₁, h₂]
    apply Step.peekUnits
    rw [r.length_queued]
    exact h
  | writeChunk offset pos n src => exact ⟨_, writeChunk_refines r src h⟩
  | advanceTail count =>
    obtain ⟨h₁, h₂, h₃⟩ := queueAdvanceTail_spec r count
    refine ⟨_, ?_, h₂, fun wr hwr => .inl (h₃ ▸ hwr)⟩
    show Step q f _ (.returned (queueAdvanceTail q s count).1.toNat) _
    rw [h₁]
    exact .advanceTail f count
  | readChunk => exact ⟨f, readChunk_refines r, r, fun wr hwr => .inl hwr⟩
  | advanceHead count =>
    obtain ⟨h₁, h₂, h₃⟩ := queueAdvanceHead_spec r count
    refine ⟨_, ?_, h₂, fun wr hwr => .inl (h₃ ▸ hwr)⟩
    show Step q f _ (.returned (queueAdvanceHead s count).1.toNat) _
    rw [h₁]
    exact .advanceHead f count
  | iterate =>
    refine ⟨f, ?_, r, fun wr hwr => .inl hwr⟩
    unfold step
    dsimp only
    rw [iterate_queueBegin r]
    exact .iterate f
  | enableBufferedMode =>
    exact ⟨f, .enableBufferedMode f, ⟨r.queued, r.free⟩, fun wr hwr => .inl hwr⟩
  | flush =>
    have hflush : queueFlush s = s ∨ queueFlush s = notify s (.add 0) := by
      unfold queueFlush
      split
      · exact .inr rfl
      · exact .inl rfl
    refine ⟨f, .flush f, ?_, ?_⟩
    · show Repr q (queueFlush s) f
      obtain h | h := hflush
      · rw [h]
        exact r
      · rw [h]
        exact ⟨r.queued, r.free⟩
    · intro wr hwr
      change wr ∈ (queueFlush s).writes at hwr
      obtain h | h := hflush
      · rw [h] at hwr
        exact .inl hwr
      · rw [h] at hwr
        exact .inl hwr

theorem run_refines (r : Repr q s f) {ops : List (Op w)} (h : AllAllowed q s ops) :
    ∃ g, Run q f ops (run q s ops).1 g ∧ Repr q (run q s ops).2 g ∧
      ∀ wr ∈ (run q s ops).2.writes, wr ∈ s.writes ∨ wr.Clear q := by
  induction ops generalizing s f with
  | nil => exact ⟨f, .nil f, r, fun wr hwr => .inl hwr⟩
  | cons op ops ih =>
    obtain ⟨g, hstep, rg, hg⟩ := step_refines r h.1
    obtain ⟨g', hrun, rg', hg'⟩ := ih rg h.2
    refine ⟨g', .cons hstep hrun, rg', ?_⟩
    intro wr hwr
    obtain hold | hclear := hg' wr hwr
    · exact hg wr hold
    · exact .inr hclear

/-- The queue that `queue_init` leaves: nothing queued, and the slots hold what
the memory held. -/
def initial (q : Config w) (s : State w) : Fifo (List UInt8) q.cap where
  queued := []
  free := window (block q.ub s.buffer) 0 q.cap
  bounded := by rw [length_window, List.length_nil, Nat.zero_add]

theorem repr_initial (q : Config w) (s : State w) : Repr q (queueInit s) (initial q s) := by
  have hz : (queueCount (queueInit s)).toNat = 0 := by
    show ((0 : BitVec w) - 0).toNat = 0
    rw [BitVec.sub_self, BitVec.toNat_zero]
  constructor
  · rw [hz]
    rfl
  · rw [hz, Nat.sub_zero]
    apply window_congr
    intro i hi
    show _ = ringAt q.cap (block q.ub s.buffer) (0 : BitVec w).toNat (0 + i)
    unfold ringAt
    rw [toNat_zero, Nat.zero_add, Nat.zero_add, Nat.mod_eq_of_lt hi]

/-- **The queue refines a bounded FIFO.** In every run of a client after
`queue_init`, what the client sees is a run of the bounded list; no write to the
buffer, neither by the queue nor through a chunk, leaves the buffer or touches a
unit that is queued at the time; and the count never exceeds the capacity. -/
theorem queue_refines_fifo (q : Config w) (s : State w) (hlog : s.writes = [])
    (ops : List (Op w)) (h : AllAllowed q (queueInit s) ops) :
    (∃ g, Run q (initial q s) ops (run q (queueInit s) ops).1 g ∧
      Repr q (run q (queueInit s) ops).2 g) ∧
    (∀ wr ∈ (run q (queueInit s) ops).2.writes, wr.Clear q) ∧
    queueCount (run q (queueInit s) ops).2 ≤ q.bufferUnits := by
  obtain ⟨g, hrun, rg, hw⟩ := run_refines (repr_initial q s) h
  refine ⟨⟨g, hrun, rg⟩, ?_, rg.count_le⟩
  intro wr hwr
  obtain hold | hclear := hw wr hwr
  · change wr ∈ s.writes at hold
    rw [hlog] at hold
    exact absurd hold List.not_mem_nil
  · exact hclear

/-- A queue of two units of two bytes on a machine with a 32-bit `size_t`. -/
def exampleQueue : Config 32 where
  bufferUnits := 2
  bufferUnitsMask := 1
  unitBytes := 2
  powerOfTwo := ⟨1, rfl⟩
  mask_eq := rfl
  unitBytes_pos := by decide
  sizeof_lt := by decide

/-- Three units are added to two slots, one is removed, and its slot is filled
through the chunk at the start of the buffer. -/
def exampleOps : List (Op 32) :=
  [.addUnits (fun a => UInt8.ofNat a) 3, .removeUnit (fun _ => 0),
    .writeChunk 0 0 1 (fun _ => 7), .advanceTail 5, .peekUnits (fun _ => 0) 2 1, .iterate]

def exampleState : State 32 := ⟨9, 4, true, fun _ => 0, [], []⟩

theorem queue_refines_fifo_example :
    AllAllowed exampleQueue (queueInit exampleState) exampleOps ∧
      queueCount (run exampleQueue (queueInit exampleState) exampleOps).2 ≤
        exampleQueue.bufferUnits := by
  have h : AllAllowed exampleQueue (queueInit exampleState) exampleOps := by decide
  exact ⟨h, (queue_refines_fifo exampleQueue exampleState rfl exampleOps h).2.2⟩

end ChromeEc.Queue
