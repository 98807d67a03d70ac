import Mathlib.Algebra.Group.Nat.Defs
import ChromeEc.Lib.Memory

/- The block operations of `builtin/stdlib.c`, which go word by word where that is possible.

  What is proved: on whatever path, `memmove` leaves the bytes that were at the source, also where the two blocks overlap
  (`memmove_moves`), so does `memcpy` unless it is handed a destination inside of the source (`memcpy_moves`), `memset`
  fills the block (`memset_fills`), and no word is read or written at an address that is not its own.

  Correspondence (C ↔ Lean):
    pointers ↔ natural numbers: no object reaches the end of the address space
    `while (d < head) *(d++) = *(s++)`, for chars and words ↔ `copyUp 0`, `copyUp 2`
    `while (d > head) *(--d) = *(--s)` ↔ `copyDown`
    `while (d < head) *(d++) = c` ↔ `setUp`
    `memcpy`, `memset`, `memmove` ↔ the same, without the pointer they return -/
namespace ChromeEc.Stdlib

open Lib.Memory

abbrev Mem := Nat → UInt8

/-- From `d` up to `stop`, by cells of `2 ^ k` bytes; a cell out of place is a fault. -/
def copyUp (k stop : Nat) (m : Mem) (d s : Nat) : Option (Mem × Nat × Nat) :=
  if d < stop then
    if 2 ^ k ∣ d ∧ 2 ^ k ∣ s then copyUp k stop (move m d s (2 ^ k)) (d + 2 ^ k) (s + 2 ^ k)
    else none
  else some (m, d, s)
termination_by stop - d

def copyDown (k stop : Nat) (m : Mem) (d s : Nat) : Option (Mem × Nat × Nat) :=
  if stop < d then
    if 2 ^ k ∣ d - 2 ^ k ∧ 2 ^ k ∣ s - 2 ^ k then
      copyDown k stop (move m (d - 2 ^ k) (s - 2 ^ k) (2 ^ k)) (d - 2 ^ k) (s - 2 ^ k)
    else none
  else some (m, d, s)
termination_by d
decreasing_by exact Nat.sub_lt (Nat.zero_lt_of_lt ‹stop < d›) (Nat.two_pow_pos k)

def byteOf (c : BitVec 32) (i : Nat) : UInt8 := UInt8.ofBitVec ((c >>> (8 * i)).setWidth 8)

def setUp (k stop : Nat) (c : BitVec 32) (m : Mem) (d : Nat) : Option (Mem × Nat) :=
  if d < stop then
    if 2 ^ k ∣ d then setUp k stop c (copy m d (2 ^ k) (byteOf c)) (d + 2 ^ k)
    else none
  else some (m, d)
termination_by stop - d

def memcpy (m : Mem) (dest src len : Nat) : Option Mem := do
  let tail := dest + len
  let body := tail / 4 * 4
  let first := (dest + 3) / 4 * 4
  let head := if dest % 4 ≠ src % 4 then tail else if tail < first then tail else first
  let (m, d, s) ← copyUp 0 head m dest src
  let (m, d, s) ← copyUp 2 body m d s
  let (m, _, _) ← copyUp 0 tail m d s
  some m

def memset (m : Mem) (dest : Nat) (c : BitVec 32) (len : Nat) : Option Mem := do
  let tail := dest + len
  let body := tail / 4 * 4
  let c := c &&& 0xff
  let cccc := c ||| c <<< 8 ||| c <<< 16 ||| c <<< 24
  let first := (dest + 3) / 4 * 4
  let head := if tail < first then tail else first
  let (m, d) ← setUp 0 head c m dest
  let (m, d) ← setUp 2 body cccc m d
  let (m, _) ← setUp 0 tail c m d
  some m

def memmove (m : Mem) (dest src len : Nat) : Option Mem :=
  if dest ≤ src ∨ src + len ≤ dest then memcpy m dest src len
  else do
    let d := dest + len
    let tail := dest
    let body := (tail + 3) / 4 * 4
    let last := d / 4 * 4
    let head := if dest % 4 ≠ src % 4 then tail else if last < tail then tail else last
    let (m, d, s) ← copyDown 0 head m d (src + len)
    let (m, d, s) ← copyDown 2 body m d s
    let (m, _, _) ← copyDown 0 tail m d s
    some m

/-! ## The loops -/

variable {k stop d s n dest src len : Nat} {m : Mem}

theorem copyUp_eq (hstop : stop - d = n * 2 ^ k) (hplace : 0 < n → 2 ^ k ∣ d ∧ 2 ^ k ∣ s)
    (happart : d ≤ s ∨ s + n * 2 ^ k ≤ d) :
    copyUp k stop m d s = some (move m d s (n * 2 ^ k), d + n * 2 ^ k, s + n * 2 ^ k) := by
  have hunit : 0 < 2 ^ k := Nat.two_pow_pos k
  induction n generalizing m d s with
  | zero =>
    rw [copyUp, if_neg (by omega), Nat.zero_mul, move, copy_zero]
    rfl
  | succ n ih =>
    rw [Nat.succ_mul] at hstop happart
    obtain ⟨hd, hs⟩ := hplace (Nat.succ_pos n)
    have hnext : copyUp k stop (move m d s (2 ^ k)) (d + 2 ^ k) (s + 2 ^ k) = _ :=
      ih (by omega) (fun _ => ⟨Nat.dvd_add hd (Nat.dvd_refl _), Nat.dvd_add hs (Nat.dvd_refl _)⟩) (by omega)
    rw [copyUp, if_pos (by omega), if_pos ⟨hd, hs⟩, hnext, move_move_up (by omega), Nat.succ_mul, Nat.add_comm (n * 2 ^ k),
      Nat.add_assoc, Nat.add_assoc]

theorem copyDown_eq (hstop : d - stop = n * 2 ^ k) (hroom : n * 2 ^ k ≤ s) (hplace : 0 < n → 2 ^ k ∣ d ∧ 2 ^ k ∣ s)
    (habove : s ≤ d) :
    copyDown k stop m d s =
      some (move m (d - n * 2 ^ k) (s - n * 2 ^ k) (n * 2 ^ k), d - n * 2 ^ k, s - n * 2 ^ k) := by
  have hunit : 0 < 2 ^ k := Nat.two_pow_pos k
  induction n generalizing m d s with
  | zero =>
    rw [copyDown, if_neg (by omega), Nat.zero_mul, move, copy_zero]
    rfl
  | succ n ih =>
    rw [Nat.succ_mul] at hstop hroom
    obtain ⟨hd, hs⟩ := hplace (Nat.succ_pos n)
    have hd' : 2 ^ k ∣ d - 2 ^ k := Nat.dvd_sub hd (Nat.dvd_refl _)
    have hs' : 2 ^ k ∣ s - 2 ^ k := Nat.dvd_sub hs (Nat.dvd_refl _)
    have hnext : copyDown k stop (move m (d - 2 ^ k) (s - 2 ^ k) (2 ^ k)) (d - 2 ^ k) (s - 2 ^ k) = _ :=
      ih (by omega) (by omega) (fun _ => ⟨hd', hs'⟩) (by omega)
    have hdown : d - 2 ^ k - n * 2 ^ k + n * 2 ^ k = d - 2 ^ k := by omega
    have hsdown : s - 2 ^ k - n * 2 ^ k + n * 2 ^ k = s - 2 ^ k := by omega
    have hparts := move_move_down (m := m) (d := d - 2 ^ k - n * 2 ^ k) (s := s - 2 ^ k - n * 2 ^ k) (n := 2 ^ k)
      (k := n * 2 ^ k) (by omega)
    rw [hdown, hsdown] at hparts
    rw [copyDown, if_pos (by omega), if_pos ⟨hd', hs'⟩, hnext, hparts, Nat.succ_mul, Nat.add_comm (n * 2 ^ k), Nat.sub_sub,
      Nat.sub_sub]

theorem setUp_eq {c : BitVec 32} {b : UInt8} (hstop : stop - d = n * 2 ^ k) (hplace : 0 < n → 2 ^ k ∣ d)
    (hbytes : ∀ i < 2 ^ k, byteOf c i = b) : setUp k stop c m d = some (fill m d (n * 2 ^ k) b, d + n * 2 ^ k) := by
  have hunit : 0 < 2 ^ k := Nat.two_pow_pos k
  have hcell (m : Mem) (d : Nat) : copy m d (2 ^ k) (byteOf c) = fill m d (2 ^ k) b := by
    funext a
    rw [fill, copy, copy]
    exact ite_congr rfl (fun hin => hbytes _ (by omega)) fun _ => rfl
  induction n generalizing m d with
  | zero =>
    rw [setUp, if_neg (by omega), Nat.zero_mul, fill, copy_zero]
    rfl
  | succ n ih =>
    rw [Nat.succ_mul] at hstop
    have hd : 2 ^ k ∣ d := hplace (Nat.succ_pos n)
    have hnext : setUp k stop c (fill m d (2 ^ k) b) (d + 2 ^ k) = _ :=
      ih (by omega) fun _ => Nat.dvd_add hd (Nat.dvd_refl _)
    rw [setUp, if_pos (by omega), if_pos hd, hcell, hnext, fill_fill, Nat.succ_mul,
      Nat.add_comm (n * 2 ^ k), Nat.add_assoc]

/-! ## The three parts -/

/-- The words from `head` on, and the bytes behind them. -/
theorem cut_up {head tail : Nat} (hroom : head ≤ tail) (hplace : head = tail ∨ 2 ^ 2 ∣ head) :
    ∃ w b, tail / 4 * 4 - head = w * 2 ^ 2 ∧ tail = head + w * 2 ^ 2 + b ∧ (0 < w → 2 ^ 2 ∣ head) :=
  ⟨(tail / 4 * 4 - head) / 4, tail - head - (tail / 4 * 4 - head) / 4 * 4, by omega⟩

/-- The words below `head`, and the bytes before them. -/
theorem cut_down {head tail : Nat} (hroom : tail ≤ head) (hplace : head = tail ∨ 2 ^ 2 ∣ head) :
    ∃ w b, head - (tail + 3) / 4 * 4 = w * 2 ^ 2 ∧ head = tail + b + w * 2 ^ 2 ∧ (0 < w → 2 ^ 2 ∣ head) :=
  ⟨(head - (tail + 3) / 4 * 4) / 4, head - tail - (head - (tail + 3) / 4 * 4) / 4 * 4, by omega⟩

theorem copyUp_bytes (hstop : stop - d = n) (happart : d ≤ s ∨ s + n ≤ d) :
    copyUp 0 stop m d s = some (move m d s n, d + n, s + n) := by
  have h := @copyUp_eq 0 stop d s n m
  rw [Nat.pow_zero, Nat.mul_one] at h
  exact h hstop (fun _ => ⟨Nat.one_dvd _, Nat.one_dvd _⟩) happart

theorem memcpy_moves (happart : dest ≤ src ∨ src + len ≤ dest) : memcpy m dest src len = some (move m dest src len) := by
  unfold memcpy
  extract_lets tail body first head
  obtain ⟨a, hhead, hroom, hplace⟩ : ∃ a, head = dest + a ∧ a ≤ len ∧
      (head = tail ∨ 2 ^ 2 ∣ head ∧ 2 ^ 2 ∣ src + a) := by
    refine ⟨head - dest, ?_⟩
    simp only [head, first, tail]
    split <;> [skip; split] <;> omega
  clear_value head
  subst hhead
  -- the bytes before the words, the words, and the bytes behind them
  obtain ⟨w, b, hbody, hsum, hwords⟩ := cut_up (Nat.add_le_add_left hroom dest) (hplace.imp_right And.left)
  have hlen : len = a + w * 2 ^ 2 + b := by omega
  have hsrc (hw : 0 < w) : 2 ^ 2 ∣ src + a := hplace.elim (fun hend => by omega) And.right
  subst hlen
  rw [copyUp_bytes (Nat.add_sub_cancel_left dest a) (by omega), Option.bind_eq_bind, Option.bind_some]
  dsimp only
  rw [copyUp_eq hbody (fun hw => ⟨hwords hw, hsrc hw⟩) (by omega), Option.bind_some, move_move_up (by omega)]
  dsimp only
  rw [copyUp_bytes (n := b) (by omega) (by omega), Option.bind_some, Nat.add_assoc, Nat.add_assoc, move_move_up (by omega)]

theorem copyDown_bytes (hstop : d - stop = n) (hroom : n ≤ s) (habove : s ≤ d) :
    copyDown 0 stop m d s = some (move m (d - n) (s - n) n, d - n, s - n) := by
  have h := @copyDown_eq 0 stop d s n m
  rw [Nat.pow_zero, Nat.mul_one] at h
  exact h hstop hroom (fun _ => ⟨Nat.one_dvd _, Nat.one_dvd _⟩) habove

/-- Whether the blocks overlap or not, and however they lie in their words, what was at the source is at the destination,
and nothing else changes. -/
theorem memmove_moves (m : Mem) (dest src len : Nat) : memmove m dest src len = some (move m dest src len) := by
  unfold memmove
  split
  · rename_i happart
    exact memcpy_moves happart
  rename_i hoverlap
  have hsrc : src ≤ dest := by omega
  clear hoverlap
  extract_lets d tail body last head
  obtain ⟨e, hhead, hroom, hplace⟩ : ∃ e, head = dest + e ∧ e ≤ len ∧
      (head = dest ∨ 2 ^ 2 ∣ head ∧ 2 ^ 2 ∣ src + e) := by
    refine ⟨head - dest, ?_⟩
    simp only [head, last, tail, d]
    split <;> [skip; split] <;> omega
  clear_value head
  subst hhead
  obtain ⟨w, b, hbody, hsum, hwords⟩ := cut_down (Nat.le_add_right dest e) (hplace.imp_right And.left)
  have he : e = b + w * 2 ^ 2 := by omega
  have hsrcWords (hw : 0 < w) : 2 ^ 2 ∣ src + e := hplace.elim (fun hend => by omega) And.right
  obtain ⟨a, rfl⟩ := Nat.exists_eq_add_of_le hroom
  rw [copyDown_bytes (n := a) (by omega) (by omega) (by omega), Option.bind_eq_bind, Option.bind_some]
  dsimp only
  have hd : d - a = dest + e := by omega
  have hs : src + (e + a) - a = src + e := by omega
  rw [hd, hs, copyDown_eq hbody (by omega) (fun hw => ⟨hwords hw, hsrcWords hw⟩) (by omega), Option.bind_some]
  dsimp only
  have hdBytes : dest + e - w * 2 ^ 2 = dest + b := by omega
  have hsBytes : src + e - w * 2 ^ 2 = src + b := by omega
  rw [hdBytes, hsBytes, copyDown_bytes (Nat.add_sub_cancel_left dest b) (by omega) (by omega),
    Option.bind_some, Nat.add_sub_cancel, Nat.add_sub_cancel]
  subst he
  dsimp only
  rw [← Nat.add_assoc dest, ← Nat.add_assoc src, move_move_down (by omega), Nat.add_assoc dest, Nat.add_assoc src,
    move_move_down (by omega)]

theorem setUp_bytes {c : BitVec 32} {b : UInt8} (hstop : stop - d = n) (hchar : byteOf c 0 = b) :
    setUp 0 stop c m d = some (fill m d n b, d + n) := by
  have h := @setUp_eq 0 stop d n m c b
  rw [Nat.pow_zero, Nat.mul_one] at h
  exact h hstop (fun _ => Nat.one_dvd _) fun i hi => Nat.lt_one_iff.mp hi ▸ hchar

theorem byteOf_word : ∀ b : BitVec 8, ∀ i < 4,
    byteOf (b.setWidth 32 ||| b.setWidth 32 <<< 8 ||| b.setWidth 32 <<< 16 ||| b.setWidth 32 <<< 24) i = .ofBitVec b := by
  decide +kernel

/-- The block is filled with the lowest byte of `c`. -/
theorem memset_fills (m : Mem) (dest : Nat) (c : BitVec 32) (len : Nat) :
    memset m dest c len = some (fill m dest len (.ofBitVec (c.setWidth 8))) := by
  unfold memset
  extract_lets tail body c' cccc first head
  have hlow : c' = (c.setWidth 8).setWidth 32 := by
    apply BitVec.eq_of_toNat_eq
    have hmask := Nat.and_two_pow_sub_one_eq_mod c.toNat 8
    simp [c'] at hmask ⊢
    omega
  have hchar : byteOf c' 0 = .ofBitVec (c.setWidth 8) := by
    rw [hlow, byteOf]
    simp
  have hword : ∀ i < 2 ^ 2, byteOf cccc i = .ofBitVec (c.setWidth 8) := by
    simp only [cccc, hlow]
    exact byteOf_word _
  obtain ⟨a, hhead, hroom, hplace⟩ : ∃ a, head = dest + a ∧ a ≤ len ∧ (head = tail ∨ 2 ^ 2 ∣ head) := by
    refine ⟨head - dest, ?_⟩
    simp only [head, first, tail]
    split <;> omega
  clear_value head
  subst hhead
  obtain ⟨w, b, hbody, hsum, hwords⟩ := cut_up (Nat.add_le_add_left hroom dest) hplace
  have hlen : len = a + w * 2 ^ 2 + b := by omega
  subst hlen
  rw [setUp_bytes (Nat.add_sub_cancel_left dest a) hchar, Option.bind_eq_bind, Option.bind_some]
  dsimp only
  rw [setUp_eq hbody hwords hword, Option.bind_some, fill_fill]
  dsimp only
  rw [setUp_bytes (n := b) (by omega) hchar, Option.bind_some, Nat.add_assoc, fill_fill]

end ChromeEc.Stdlib
