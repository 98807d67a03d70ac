import ChromeEc.Queue.Runs

/- What `queue_peek_units` tells its caller.

  The units that are left behind index `i` are counted before the index is compared with the
  count, and the difference is unsigned: behind the end of the queue it is huge, nothing is
  copied, and the caller is told that all the units it asked for were
  (`peek_reports_iff`, `peek_behind_end`). -/
namespace ChromeEc.Queue
open Lib

variable {w : Nat} {q : Config w} {s : State w} {i count : BitVec w}

/-- The number of units that wait from index `i` on, at most `count` of them. -/
def waiting (s : State w) (i count : BitVec w) : Nat := min count.toNat ((queueCount s).toNat - i.toNat)

/-- The caller is told the number of units that `dest` got, which are those that wait from
index `i` on. -/
def Reports (q : Config w) (s : State w) (dest : Mem) (i count : BitVec w) : Prop :=
  (queuePeekUnits q s dest i count).1.toNat = waiting s i count ∧
    units q (queuePeekUnits q s dest i count).2 =
      blit (units q dest) 0 (fun a => ring q s (i.toNat + a)) (waiting s i count)

theorem waiting_of_le (h : queueCount s ≤ i) : waiting s i count = 0 := by
  rw [BitVec.le_def] at h
  rw [waiting, Nat.sub_eq_zero_of_le h, Nat.min_zero]

theorem peek_inside (dest : Mem) (hcount : (queueCount s).toNat ≤ q.cap) (hi : i < queueCount s) :
    Reports q s dest i count := by
  have htransfer : (MIN count (queueCount s - i)).toNat = waiting s i count := by
    rw [toNat_MIN, BitVec.toNat_sub_of_le (BitVec.le_of_lt hi), waiting]
  have hfits : (MIN count (queueCount s - i)).toNat ≤ q.cap := by
    rw [htransfer, waiting]
    omega
  rw [Reports, queuePeekUnits, if_pos hi, ← htransfer]
  exact ⟨rfl, units_queueReadSafe dest (head_slot q s i) hfits⟩

theorem peek_behind (dest : Mem) (hi : ¬i < queueCount s) :
    queuePeekUnits q s dest i count = (MIN count (queueCount s - i), dest) := by
  rw [queuePeekUnits, if_neg hi]

theorem difference_eq_zero (hi : ¬i < queueCount s) : (queueCount s - i).toNat = 0 ↔ i ≤ queueCount s := by
  rw [BitVec.lt_def] at hi
  rw [BitVec.le_def, BitVec.toNat_sub]
  have hi' := i.isLt
  constructor
  · intro hzero
    by_contra hbehind
    rw [Nat.mod_eq_of_lt (by omega)] at hzero
    omega
  · intro hle
    rw [show 2 ^ w - i.toNat + (queueCount s).toNat = 2 ^ w by omega, Nat.mod_self]

/-- The caller is told what was copied exactly when the index is not behind the end of the queue, or nothing was asked
for. -/
theorem peek_reports_iff (dest : Mem) (hcount : (queueCount s).toNat ≤ q.cap) :
    Reports q s dest i count ↔ i ≤ queueCount s ∨ count = 0 := by
  by_cases hi : i < queueCount s
  · exact iff_of_true (peek_inside dest hcount hi) (.inl (BitVec.le_of_lt hi))
  · rw [Reports, peek_behind dest hi, waiting_of_le (BitVec.not_lt.mp hi), blit_zero, and_iff_left rfl, toNat_MIN,
      Nat.min_eq_zero_iff, difference_eq_zero hi, or_comm]
    exact or_congr_right ⟨fun hzero => BitVec.eq_of_toNat_eq (hzero.trans toNat_zero.symm),
      fun hzero => hzero ▸ toNat_zero⟩

theorem peek_reports_iff_example :
    Reports exampleQueue (run exampleQueue (queueInit exampleState) exampleOps).2 (fun _ => 0) 1 4 := by
  have hcount : (queueCount (run exampleQueue (queueInit exampleState) exampleOps).2).toNat ≤ exampleQueue.cap := by decide
  exact (peek_reports_iff (fun _ => 0) hcount).mpr (.inl (by decide))

/-- One unit is reported that an empty queue does not have. -/
theorem peek_behind_end :
    (queuePeekUnits exampleQueue (queueInit exampleState) (fun _ => 0) 1 1).1 = 1 ∧
      (queueCount (queueInit exampleState)).toNat = 0 ∧
        ¬Reports exampleQueue (queueInit exampleState) (fun _ => 0) 1 1 := by
  refine ⟨by decide, by decide, ?_⟩
  intro h
  have htold : (queuePeekUnits exampleQueue (queueInit exampleState) (fun _ => 0) 1 1).1.toNat =
      waiting (queueInit exampleState) 1 1 := h.1
  revert htold
  decide

end ChromeEc.Queue
