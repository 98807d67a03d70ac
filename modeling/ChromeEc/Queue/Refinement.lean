import ChromeEc.Queue.Fifo
import Mathlib.Data.BitVec

/- The queue refines the bounded list.

  `Repr q s f`: counted from the head, the ring of units in the buffer is the
  queued units of `f` followed by its free slots. Each primitive effect of the
  code has one lemma: a copy into free slots fills them (`Repr.fill`), moving the
  tail commits them (`Repr.commit`), moving the head drops the oldest units
  (`Repr.pop`). The steps of a client are put together from these, and a run
  from its steps (`queue_refines_fifo`). -/
namespace ChromeEc.Queue
open Lib

variable {w : Nat}

/-! ## Arithmetic on `size_t` -/

def Config.cap (q : Config w) : Nat := q.bufferUnits.toNat

/-- The number of bytes of a unit. -/
def Config.ub (q : Config w) : Nat := q.unitBytes.toNat

namespace Config

theorem cap_pos (q : Config w) : 0 < q.cap := Nat.pos_of_isPowerOfTwo q.powerOfTwo

theorem cap_lt (q : Config w) : q.cap < 2 ^ w := q.bufferUnits.isLt

theorem width_pos (q : Config w) : 1 < 2 ^ w := by
  have h₁ := q.cap_pos
  have h₂ := q.cap_lt
  omega

theorem toNat_one (q : Config w) : (1 : BitVec w).toNat = 1 := by
  rw [BitVec.ofNat_eq_ofNat, BitVec.toNat_ofNat]
  exact Nat.mod_eq_of_lt q.width_pos

theorem cap_dvd (q : Config w) : q.cap ∣ 2 ^ w := by
  obtain ⟨k, hk⟩ := q.powerOfTwo
  have hlt := q.cap_lt
  unfold cap at hlt ⊢
  rw [hk] at hlt ⊢
  exact Nat.pow_dvd_pow 2 (Nat.le_of_lt ((Nat.pow_lt_pow_iff_right (by decide)).mp hlt))

theorem toNat_mask (q : Config w) : q.bufferUnitsMask.toNat = q.cap - 1 := by
  have hle : (1 : BitVec w) ≤ q.bufferUnits := by
    rw [BitVec.le_def, q.toNat_one]
    exact q.cap_pos
  rw [q.mask_eq, BitVec.toNat_sub_of_le hle, q.toNat_one]
  rfl

theorem toNat_and_mask (q : Config w) (x : BitVec w) :
    (x &&& q.bufferUnitsMask).toNat = x.toNat % q.cap := by
  rw [BitVec.toNat_and, q.toNat_mask]
  obtain ⟨k, hk⟩ := q.powerOfTwo
  rw [show q.cap = 2 ^ k from hk]
  exact Nat.and_two_pow_sub_one_eq_mod _ _

theorem toNat_add_mod (q : Config w) (x y : BitVec w) :
    (x + y).toNat % q.cap = (x.toNat + y.toNat) % q.cap := by
  rw [BitVec.toNat_add, Nat.mod_mod_of_dvd _ q.cap_dvd]

theorem toNat_mul (q : Config w) {x : BitVec w} (h : x.toNat ≤ q.cap) :
    (x * q.unitBytes).toNat = x.toNat * q.ub := by
  rw [BitVec.toNat_mul]
  apply Nat.mod_eq_of_lt
  calc x.toNat * q.ub ≤ q.cap * q.ub := Nat.mul_le_mul_right _ h
    _ < 2 ^ w := q.sizeof_lt

end Config

theorem toNat_zero : (0 : BitVec w).toNat = 0 := by
  rw [BitVec.ofNat_eq_ofNat, BitVec.toNat_ofNat, Nat.zero_mod]

theorem toNat_pos {x : BitVec w} (h : x ≠ 0) : 0 < x.toNat := by
  rw [Nat.pos_iff_ne_zero]
  intro hz
  exact h (BitVec.eq_of_toNat_eq (by rw [hz, toNat_zero]))

theorem toNat_MIN (a b : BitVec w) : (MIN a b).toNat = min a.toNat b.toNat := by
  unfold MIN
  split
  · rename_i h
    rw [BitVec.lt_def] at h
    omega
  · rename_i h
    rw [BitVec.lt_def] at h
    omega

theorem tail_eq (s : State w) : s.tail = s.head + queueCount s := by
  unfold queueCount
  rw [BitVec.add_comm, BitVec.sub_add_cancel]

theorem queueIsEmpty_iff (s : State w) : queueIsEmpty s = true ↔ (queueCount s).toNat = 0 := by
  unfold queueIsEmpty
  rw [beq_iff_eq]
  constructor
  · intro h
    unfold queueCount
    rw [h, BitVec.sub_self]
    exact toNat_zero
  · intro h
    have hz : queueCount s = 0 := BitVec.eq_of_toNat_eq (by rw [h, toNat_zero])
    rw [tail_eq s, hz, BitVec.ofNat_eq_ofNat, BitVec.add_zero]

theorem tail_slot (q : Config w) (s : State w) (x : BitVec w) :
    ((s.tail + x) &&& q.bufferUnitsMask).toNat =
      (s.head.toNat + ((queueCount s).toNat + x.toNat)) % q.cap := by
  rw [q.toNat_and_mask, tail_eq s, BitVec.add_assoc, q.toNat_add_mod, Nat.add_mod,
    q.toNat_add_mod, ← Nat.add_mod]

theorem toNat_space {q : Config w} {s : State w} (h : (queueCount s).toNat ≤ q.cap) :
    (queueSpace q s).toNat = q.cap - (queueCount s).toNat := by
  unfold queueSpace
  rw [BitVec.toNat_sub_of_le h]
  rfl

/-! ## The representation -/

def ring (q : Config w) (s : State w) : Nat → List UInt8 :=
  ringAt q.cap (block q.ub s.buffer) s.head.toNat

structure Repr (q : Config w) (s : State w) (f : Fifo (List UInt8) q.cap) : Prop where
  queued : f.queued = window (ring q s) 0 (queueCount s).toNat
  free : f.free = window (ring q s) (queueCount s).toNat (q.cap - (queueCount s).toNat)

namespace Repr

variable {q : Config w} {s s' : State w} {f : Fifo (List UInt8) q.cap}

theorem length_queued (r : Repr q s f) : f.queued.length = (queueCount s).toNat := by
  rw [r.queued, length_window]

theorem length_free (r : Repr q s f) : f.free.length = q.cap - (queueCount s).toNat := by
  rw [r.free, length_window]

theorem count_le (r : Repr q s f) : (queueCount s).toNat ≤ q.cap := by
  have h := f.bounded
  rw [r.length_queued, r.length_free] at h
  omega

theorem space_eq (r : Repr q s f) : (queueSpace q s).toNat = f.free.length := by
  rw [toNat_space r.count_le, r.length_free]

theorem fill (r : Repr q s f) {d n : Nat} {src : Nat → List UInt8}
    (hhead : s'.head = s.head) (htail : s'.tail = s.tail) (hd : (queueCount s).toNat ≤ d)
    (hring : ∀ i, i < q.cap → ring q s' i = blit (ring q s) d src n i) :
    Repr q s' (f.fill (d - (queueCount s).toNat) (window src 0 n)) := by
  have hcount : queueCount s' = queueCount s := by
    unfold queueCount
    rw [hhead, htail]
  have hle := r.count_le
  constructor
  · rw [hcount]
    rw [Fifo.fill_queued, r.queued]
    apply window_congr
    intro i hi
    rw [hring _ (by omega), blit_apply_of_notMem (by omega)]
  · rw [hcount]
    apply List.ext_getElem?
    intro j
    rw [getElem?_window]
    rw [Fifo.fill_free, List.getElem?_mapIdx, r.free, getElem?_window]
    by_cases hj : j < q.cap - (queueCount s).toNat
    · rw [if_pos hj, if_pos hj, Option.map_some, hring _ (by omega)]
      congr 1
      by_cases hlo : d - (queueCount s).toNat ≤ j
      · rw [if_pos hlo, List.getD_eq_getElem?_getD, getElem?_window]
        by_cases hhi : j - (d - (queueCount s).toNat) < n
        · rw [if_pos hhi, blit_apply_of_mem (by omega), Option.getD_some]
          congr 1
          omega
        · rw [if_neg hhi, blit_apply_of_notMem (by omega), Option.getD_none]
      · rw [if_neg hlo, blit_apply_of_notMem (by omega)]
    · rw [if_neg hj, if_neg hj, Option.map_none]

theorem commit (r : Repr q s f) {n : Nat} (hn : n ≤ f.free.length)
    (hhead : s'.head = s.head) (hbuf : s'.buffer = s.buffer)
    (hcount : (queueCount s').toNat = (queueCount s).toNat + n) : Repr q s' (f.commit n) := by
  have hring : ring q s' = ring q s := by
    unfold ring
    rw [hhead, hbuf]
  rw [r.length_free] at hn
  constructor
  · rw [hring, hcount, ← window_append, Nat.zero_add]
    rw [Fifo.commit_queued, r.queued, r.free, take_window, Nat.min_eq_left hn]
  · rw [hring, hcount]
    rw [Fifo.commit_free, r.free, drop_window]
    congr 1
    omega

theorem pop (r : Repr q s f) {n : Nat} (hn : n ≤ f.queued.length)
    (hring : ∀ i, ring q s' i = ring q s (n + i))
    (hcount : (queueCount s').toNat = (queueCount s).toNat - n) : Repr q s' (f.pop n) := by
  have hle := r.count_le
  rw [r.length_queued] at hn
  constructor
  · rw [hcount]
    rw [Fifo.pop_queued, r.queued, drop_window]
    apply window_congr
    intro i _
    rw [hring]
    congr 1
    omega
  · rw [hcount, show q.cap - ((queueCount s).toNat - n) = q.cap - (queueCount s).toNat + n by omega,
      ← window_append]
    rw [Fifo.pop_free, r.free, r.queued, take_window, Nat.min_eq_left hn]
    congr 1
    · apply window_congr
      intro i _
      rw [hring]
      congr 1
      omega
    · -- The slots of the units that are dropped come round again behind the free ones.
      apply window_congr
      intro i _
      rw [hring]
      unfold ring
      rw [← ringAt_wrap]
      congr 1
      omega

end Repr

/-! ## Copies into free slots -/

def InSlot (q : Config w) (u b : Nat) : Prop := u * q.ub ≤ b ∧ b < u * q.ub + q.ub

/-- The write stays in the buffer and touches no byte of a unit that is queued
when it happens. -/
structure Write.Clear (q : Config w) (wr : Write w) : Prop where
  inside : wr.offset + wr.len ≤ q.cap * q.ub
  queued : ∀ i, i < (wr.tail - wr.head).toNat → ∀ b, wr.offset ≤ b → b < wr.offset + wr.len →
    ¬InSlot q ((wr.head.toNat + i) % q.cap) b

/-- `s'` is `s` after copies that fill `n` ring slots from position `d` on. -/
structure Stored (q : Config w) (s s' : State w) (d n : Nat) (src : Nat → List UInt8) : Prop where
  head : s'.head = s.head
  tail : s'.tail = s.tail
  ring : ∀ i, i < q.cap → ring q s' i = blit (ring q s) d src n i
  writes : ∀ wr ∈ s'.writes, wr ∈ s.writes ∨ wr.Clear q

/-- A copy of `n` units to the slots from `t` on, where `t` is the slot of ring
position `d` and the copy ends before the buffer does. -/
theorem store_stored {q : Config w} {s : State w} {offset l : BitVec w} {t d n : Nat} (src : Mem)
    (hd : (queueCount s).toNat ≤ d) (hn : d + n ≤ q.cap) (hend : t + n ≤ q.cap)
    (ht : 0 < n → t = (s.head.toNat + d) % q.cap)
    (hoff : offset.toNat = t * q.ub) (hlen : l.toNat = n * q.ub) :
    Stored q s (store s offset src l) d n (units q src) := by
  refine ⟨rfl, rfl, ?_, ?_⟩
  · intro i hi
    have hbuf : block q.ub (store s offset src l).buffer =
        blit (block q.ub s.buffer) t (units q src) n := by
      show block q.ub (blit s.buffer offset.toNat src l.toNat) = _
      rw [hoff, hlen, block_blit]
      rfl
    unfold Queue.ring
    rw [hbuf]
    obtain rfl | hpos := Nat.eq_zero_or_pos n
    · rw [blit_zero, blit_zero]
      rfl
    · have ht := ht hpos
      rw [ht] at hend ⊢
      exact ringAt_blit _ _ hi hend hn
  · intro wr hwr
    obtain hold | hnew := List.mem_append.mp hwr
    · exact .inl hold
    right
    obtain rfl := List.mem_singleton.mp hnew
    refine ⟨?_, ?_⟩
    · show offset.toNat + l.toNat ≤ _
      rw [hoff, hlen, ← Nat.add_mul]
      exact Nat.mul_le_mul_right _ hend
    · intro i hi b hlo hhi hslot
      change i < (queueCount s).toNat at hi
      change offset.toNat ≤ b at hlo
      change b < offset.toNat + l.toNat at hhi
      rw [hoff] at hlo hhi
      rw [hlen, ← Nat.add_mul] at hhi
      obtain ⟨hslo, hshi⟩ := hslot
      change (s.head.toNat + i) % q.cap * q.ub ≤ b at hslo
      change b < (s.head.toNat + i) % q.cap * q.ub + q.ub at hshi
      -- A byte in both would put the slot of position `i` among those written.
      have h₁ : t < (s.head.toNat + i) % q.cap + 1 :=
        Nat.lt_of_mul_lt_mul_right (a := q.ub) (by rw [Nat.add_mul, Nat.one_mul]; omega)
      have h₂ : (s.head.toNat + i) % q.cap < t + n :=
        Nat.lt_of_mul_lt_mul_right (a := q.ub) (by omega)
      have ht := ht (by omega)
      rw [ht] at h₁ h₂ hend
      have := (ring_index_mem (by omega : i < q.cap) hend hn).1.mp ⟨by omega, h₂⟩
      omega

theorem Stored.append {q : Config w} {s s₁ s₂ : State w} {d n k : Nat} {src : Nat → List UInt8}
    (h₁ : Stored q s s₁ d n src) (h₂ : Stored q s₁ s₂ (d + n) k fun a => src (n + a)) :
    Stored q s s₂ d (n + k) src where
  head := h₂.head.trans h₁.head
  tail := h₂.tail.trans h₁.tail
  ring i hi := by
    rw [h₂.ring i hi, ← blit_append]
    unfold blit
    rw [h₁.ring i hi]
    rfl
  writes wr hwr := by
    obtain h | h := h₂.writes wr hwr
    · exact h₁.writes wr h
    · exact .inr h

theorem Stored.repr {q : Config w} {s s' : State w} {d n : Nat} {src : Nat → List UInt8}
    {f : Fifo (List UInt8) q.cap} (h : Stored q s s' d n src) (r : Repr q s f)
    (hd : (queueCount s).toNat ≤ d) :
    Repr q s' (f.fill (d - (queueCount s).toNat) (window src 0 n)) :=
  r.fill h.head h.tail hd h.ring

end ChromeEc.Queue
