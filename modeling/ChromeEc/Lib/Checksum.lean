import ChromeEc.Lib.Memory
import Mathlib.Algebra.BigOperators.Group.List.Basic
import Mathlib.Algebra.GroupWithZero.Nat

/- Sums of the bytes of a memory, and packets that carry the byte which brings their sum to
  zero.

  What is proved: a sum is that of two parts (`byteSum_add`) and only depends on the bytes
  summed (`byteSum_congr`), and a packet whose checksum byte was zero sums to zero modulo 256
  once that byte is the negated sum (`byteSum_sealed`). -/
namespace ChromeEc.Lib.Checksum
open ChromeEc.Lib.Memory

variable {m m' : Nat → UInt8} {p q n k : Nat} {b : UInt8}

def byteSum (m : Nat → UInt8) (p n : Nat) : Nat := ((read m p n).map UInt8.toNat).sum

def store (m : Nat → UInt8) (q : Nat) (b : UInt8) : Nat → UInt8 := fun a => if a = q then b else m a

@[simp] theorem store_self : store m q b q = b := if_pos rfl

theorem store_of_ne (h : p ≠ q) : store m q b p = m p := if_neg h

@[simp] theorem byteSum_zero : byteSum m p 0 = 0 := rfl

theorem byteSum_one : byteSum m p 1 = (m p).toNat := by simp [byteSum, Memory.read]

theorem byteSum_add : byteSum m p (n + k) = byteSum m p n + byteSum m (p + n) k := by
  simp only [byteSum, read_add, List.map_append, List.sum_append]

theorem byteSum_succ : byteSum m p (n + 1) = (m p).toNat + byteSum m (p + 1) n := by
  rw [Nat.add_comm n 1, byteSum_add, byteSum_one]

theorem byteSum_congr (h : ∀ a, p ≤ a → a < p + n → m' a = m a) : byteSum m' p n = byteSum m p n := by
  rw [byteSum, byteSum, read_congr h]

theorem byteSum_store (hlo : p ≤ q) (hhi : q < p + n) (hzero : m q = 0) :
    byteSum (store m q b) p n = byteSum m p n + b.toNat := by
  obtain ⟨i, rfl⟩ := Nat.exists_eq_add_of_le hlo
  obtain ⟨k, rfl⟩ : ∃ k, n = i + (1 + k) := ⟨n - i - 1, by omega⟩
  have hbefore : byteSum (store m (p + i) b) p i = byteSum m p i :=
    byteSum_congr fun a _ ha => store_of_ne (by omega)
  have hafter : byteSum (store m (p + i) b) (p + i + 1) k = byteSum m (p + i + 1) k :=
    byteSum_congr fun a ha _ => store_of_ne (by omega)
  have hcell : (m (p + i)).toNat = 0 := by
    rw [hzero]
    rfl
  simp only [byteSum_add, byteSum_one, hbefore, hafter, store_self, hcell]
  omega

theorem neg_ofNat_toNat (c : Nat) : (c + (-UInt8.ofNat c).toNat) % 256 = 0 := by
  have hneg : (-UInt8.ofNat c).toNat = (256 - c % 256) % 256 := by
    simp [UInt8.toNat_neg]
  rw [hneg]
  omega

theorem byteSum_sealed (hlo : p ≤ q) (hhi : q < p + n) (hzero : m q = 0) :
    byteSum (store m q (-UInt8.ofNat (byteSum m p n))) p n % 256 = 0 := by
  rw [byteSum_store hlo hhi hzero, neg_ofNat_toNat]

end ChromeEc.Lib.Checksum
