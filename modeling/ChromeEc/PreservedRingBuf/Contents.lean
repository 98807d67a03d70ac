import ChromeEc.Lib.Laps
import Mathlib.Data.BitVec

/- The preserved ring buffer of `common/preserved_ring_buf.c`.

  A `uint32_t` is a `BitVec 32`. The buffer is a function from the index of a word to the
  word, in the width of the buffer's words, so that the three cases of each `switch` on the
  word size are one definition; what the memory holds before a reset is anything.

  Correspondence (C ↔ Lean):
    `preserved_ring_buf_const_t`, with the assertions of
      `DECLARE_PRESERVED_RING_BUF` ↔ `Constants`
    `preserved_ring_buf_properties_t` ↔ `Buf`, with the words
    `preserved_ring_buf_reset` ↔ `reset`
    `preserved_ring_buf_calc_checksum` ↔ `calcChecksum`
    `preserved_ring_buf_verify` ↔ `verify`
    `preserved_ring_buf_len` ↔ `len`
    `preserved_ring_buf_write` ↔ `write`
    `preserved_ring_buf_read` ↔ `read`

  What a preserved ring buffer holds after a reset and any number of writes.

  The capacity divides 2^32, so that write number `k` goes to cell `k` modulo the capacity
  even after the head has wrapped (`written_laps`), and the rolling checksum is the sum of
  the words whatever the head is (`written_checksum`). While the head has not wrapped it is
  the number of writes, and a read finds the word of the write its offset stands for. -/
namespace ChromeEc.PreservedRingBuf
open ChromeEc.Lib

abbrev U32 := BitVec 32

inductive WordSize where
  | one
  | two
  | four
  deriving DecidableEq

def WordSize.toNat : WordSize → Nat
  | .one => 1
  | .two => 2
  | .four => 4

abbrev WordSize.bits (w : WordSize) : Nat := 8 * w.toNat

/-- The bits of a word that the checksum takes in. -/
def WordSize.mask : WordSize → U32
  | .one => 0xff
  | .two => 0xffff
  | .four => 0xffffffff

/-- A capacity of `2 ^ shift` words, in a buffer that is one object. -/
structure Constants where
  shift : Nat
  version : U32
  wordSize : WordSize
  fits : 2 ^ shift * wordSize.toNat < 2 ^ 31

def Constants.capacity (c : Constants) : U32 := BitVec.ofNat 32 (2 ^ c.shift)

structure Buf (c : Constants) where
  checksum : U32
  head : U32
  capacity : U32
  version : U32
  wordSize : U32
  words : Nat → BitVec c.wordSize.bits

section
variable {c : Constants}

/-- `preserved_ring_buf_reset`. -/
def reset (b : Buf c) : Buf c where
  checksum := 0
  head := 0
  version := c.version
  capacity := c.capacity
  wordSize := BitVec.ofNat 32 c.wordSize.toNat
  words i := if i < c.capacity.toNat then 0 else b.words i

/-- The sum of the first `n` words, in the order of the loop. -/
def sumWords (words : Nat → BitVec c.wordSize.bits) : Nat → U32
  | 0 => 0
  | n + 1 => sumWords words n + (words n).setWidth 32

/-- `preserved_ring_buf_calc_checksum`. -/
def calcChecksum (b : Buf c) : U32 := sumWords b.words c.capacity.toNat

/-- `preserved_ring_buf_verify`. -/
def verify (b : Buf c) : Bool :=
  b.version == c.version && b.capacity == c.capacity && b.wordSize == BitVec.ofNat 32 c.wordSize.toNat &&
    b.checksum == calcChecksum b

/-- `preserved_ring_buf_len`. -/
def len (b : Buf c) : U32 := if b.head < c.capacity then b.head else c.capacity

/-- `preserved_ring_buf_write`. -/
def write (b : Buf c) (word : U32) : Buf c :=
  let index := (b.head % c.capacity).toNat
  { b with
    head := b.head + 1
    checksum := b.checksum + ((word &&& c.wordSize.mask) - (b.words index).setWidth 32)
    words := setCell b.words index (word.setWidth c.wordSize.bits) }

/-- `preserved_ring_buf_read`. -/
def read (b : Buf c) (offset : U32) : U32 :=
  let tail := if b.head > c.capacity then b.head else 0
  let index := ((tail + offset) % c.capacity).toNat
  (b.words index).setWidth 32

/-- The buffer after a reset and the writes of a list. -/
def written (b : Buf c) (ws : List U32) : Buf c := ws.foldl write (reset b)

end

variable {c : Constants} {b : Buf c} {ws : List U32} {word : U32}

/-! ## The capacity -/

theorem shift_lt : c.shift < 31 := by
  have hsize : 1 ≤ c.wordSize.toNat := by cases c.wordSize <;> decide
  have hle : 2 ^ c.shift ≤ 2 ^ c.shift * c.wordSize.toNat := Nat.le_mul_of_pos_right _ hsize
  exact (Nat.pow_lt_pow_iff_right (by omega)).mp (Nat.lt_of_le_of_lt hle c.fits)

theorem capacity_toNat : c.capacity.toNat = 2 ^ c.shift := by
  have hlt : 2 ^ c.shift < 2 ^ 32 := Nat.pow_lt_pow_right (by omega) (Nat.lt_trans shift_lt (by omega))
  rw [Constants.capacity, BitVec.toNat_ofNat, Nat.mod_eq_of_lt hlt]

theorem capacity_pos : 0 < c.capacity.toNat := by
  rw [capacity_toNat]
  exact Nat.two_pow_pos c.shift

theorem mod_capacity (n : Nat) : n % 2 ^ 32 % c.capacity.toNat = n % c.capacity.toNat := by
  rw [capacity_toNat]
  exact Nat.mod_mod_of_dvd n (Nat.pow_dvd_pow 2 (Nat.le_of_lt (Nat.lt_trans shift_lt (by omega))))

/-! ## The checksum -/

/-- The part of a word that is stored, as the checksum takes it. -/
def masked (c : Constants) (word : U32) : U32 := (word.setWidth c.wordSize.bits).setWidth 32

theorem mask_toNat (w : WordSize) : w.mask.toNat = 2 ^ w.bits - 1 := by
  cases w <;> decide

theorem bits_le (w : WordSize) : w.bits ≤ 32 := by
  cases w <;> decide

theorem and_mask : word &&& c.wordSize.mask = masked c word := by
  have hlt := Nat.mod_lt word.toNat (Nat.two_pow_pos c.wordSize.bits)
  have hle : 2 ^ c.wordSize.bits ≤ 2 ^ 32 := Nat.pow_le_pow_right (by omega) (bits_le c.wordSize)
  apply BitVec.eq_of_toNat_eq
  rw [BitVec.toNat_and, mask_toNat, Nat.and_two_pow_sub_one_eq_mod, masked, BitVec.toNat_setWidth, BitVec.toNat_setWidth]
  exact (Nat.mod_eq_of_lt (Nat.lt_of_lt_of_le hlt hle)).symm

theorem sumWords_congr {words words' : Nat → BitVec c.wordSize.bits} {n : Nat} (h : ∀ i, i < n → words' i = words i) :
    sumWords words' n = sumWords words n := by
  induction n with
  | zero => rfl
  | succ n ih => rw [sumWords, sumWords, ih fun i hi => h i (by omega), h n (by omega)]

theorem sumWords_setCell {words : Nat → BitVec c.wordSize.bits} {i n : Nat} {w : BitVec c.wordSize.bits} (hi : i < n) :
    sumWords (setCell words i w) n = sumWords words n + (w.setWidth 32 - (words i).setWidth 32) := by
  induction n with
  | zero => omega
  | succ n ih =>
    rw [sumWords, sumWords]
    rcases Nat.lt_or_ge i n with hlt | hge
    · rw [ih hlt, setCell_of_ne (by omega)]
      bv_omega
    · obtain rfl : i = n := by omega
      have hbefore : sumWords (setCell words i w) i = sumWords words i :=
        sumWords_congr fun j hj => setCell_of_ne (by omega)
      rw [hbefore, setCell_self]
      bv_omega

/-! ## Writes -/

theorem written_snoc : written b (ws ++ [word]) = write (written b ws) word := by
  rw [written, List.foldl_append]
  rfl

theorem index_toNat (s : Buf c) : (s.head % c.capacity).toNat = s.head.toNat % c.capacity.toNat := BitVec.toNat_umod

theorem written_head : (written b ws).head.toNat = ws.length % 2 ^ 32 := by
  induction ws using List.reverseRecOn with
  | nil => rfl
  | append_singleton ws word ih =>
    have hnext : (written b (ws ++ [word])).head = (written b ws).head + 1 := by
      rw [written_snoc]
      rfl
    rw [hnext, BitVec.toNat_add, ih, List.length_append, List.length_singleton]
    exact Nat.mod_add_mod ws.length (2 ^ 32) 1

/-- The cells are those of the writes, whatever the head has wrapped to. -/
theorem written_laps (b : Buf c) (ws : List U32) : Laps c.capacity.toNat (reset b).words
    (ws.map fun word => word.setWidth c.wordSize.bits) (written b ws).words := by
  induction ws using List.reverseRecOn with
  | nil => exact Laps.nil
  | append_singleton ws word ih =>
    have hindex : ((written b ws).head % c.capacity).toNat = ws.length % c.capacity.toNat := by
      rw [index_toNat, written_head, mod_capacity]
    have hlap := ih.snoc (v := word.setWidth c.wordSize.bits)
    rw [List.length_map, ← hindex] at hlap
    rw [written_snoc, List.map_append]
    exact hlap

theorem written_properties (b : Buf c) (ws : List U32) :
    (written b ws).version = c.version ∧ (written b ws).capacity = c.capacity ∧
    (written b ws).wordSize = BitVec.ofNat 32 c.wordSize.toNat := by
  induction ws using List.reverseRecOn with
  | nil => exact ⟨rfl, rfl, rfl⟩
  | append_singleton ws word ih =>
    rw [written_snoc]
    exact ih

theorem sumWords_reset {n : Nat} (hn : n ≤ c.capacity.toNat) : sumWords (reset b).words n = 0 := by
  induction n with
  | zero => rfl
  | succ n ih =>
    have hzero : (reset b).words n = 0 := if_pos hn
    simp [sumWords, ih (by omega), hzero]

theorem written_checksum : (written b ws).checksum = calcChecksum (written b ws) := by
  induction ws using List.reverseRecOn with
  | nil => exact (sumWords_reset (Nat.le_refl _)).symm
  | append_singleton ws word ih =>
    rw [written_snoc]
    have hindex : ((written b ws).head % c.capacity).toNat < c.capacity.toNat := by
      rw [index_toNat]
      exact Nat.mod_lt _ capacity_pos
    simp only [write, calcChecksum, sumWords_setCell hindex, and_mask]
    rw [ih]
    rfl

theorem written_verify : verify (written b ws) = true := by
  obtain ⟨hversion, hcapacity, hsize⟩ := written_properties b ws
  simp [verify, hversion, hcapacity, hsize, written_checksum]

/-! ## Length and reads -/

theorem written_len (hn : ws.length < 2 ^ 32) : (len (written b ws)).toNat = min ws.length c.capacity.toNat := by
  have hhead : (written b ws).head.toNat = ws.length := by
    rw [written_head, Nat.mod_eq_of_lt hn]
  unfold len
  split
  · rename_i hlt
    rw [BitVec.lt_def, hhead] at hlt
    omega
  · rename_i hge
    rw [BitVec.lt_def, hhead] at hge
    omega

theorem read_index (hn : ws.length < 2 ^ 32) (offset : U32) :
    read (written b ws) offset = ((written b ws).words
      (((if ws.length ≤ c.capacity.toNat then 0 else ws.length) + offset.toNat) % c.capacity.toNat)).setWidth 32 := by
  have hhead : (written b ws).head.toNat = ws.length := by
    rw [written_head, Nat.mod_eq_of_lt hn]
  unfold read
  dsimp only
  rw [BitVec.toNat_umod, BitVec.toNat_add, mod_capacity]
  by_cases hle : ws.length ≤ c.capacity.toNat
  · have hsmall : ¬(written b ws).head > c.capacity := by
      rw [gt_iff_lt, BitVec.lt_def, hhead]
      omega
    rw [if_neg hsmall, if_pos hle]
    rfl
  · have hlarge : (written b ws).head > c.capacity := by
      rw [gt_iff_lt, BitVec.lt_def, hhead]
      omega
    rw [if_pos hlarge, if_neg hle, hhead]

theorem read_wraps (hn : ws.length < 2 ^ 32) (offset : U32) :
    read (written b ws) offset = read (written b ws) (offset % c.capacity) := by
  rw [read_index hn, read_index hn, BitVec.toNat_umod, Nat.add_mod_mod]

theorem read_word (hn : ws.length < 2 ^ 32) {offset : U32} {k : Nat}
    (hk : k = ws.length - min ws.length c.capacity.toNat + offset.toNat) (hlt : k < ws.length) :
    read (written b ws) offset = masked c (ws.get ⟨k, hlt⟩) := by
  have hcell := (written_laps b ws).last k (by rw [List.length_map]; exact hlt)
    (by rw [List.length_map]; omega)
  have hindex : ((if ws.length ≤ c.capacity.toNat then 0 else ws.length) + offset.toNat) % c.capacity.toNat =
      k % c.capacity.toNat := by
    split
    · have hsame : 0 + offset.toNat = k := by omega
      rw [hsame]
    · have hlap : ws.length + offset.toNat = k + c.capacity.toNat := by omega
      rw [hlap, Nat.add_mod_right]
  rw [read_index hn, hindex, hcell]
  simp [masked]

theorem read_empty (hn : ws.length < 2 ^ 32) {offset : U32} (hlo : ws.length ≤ offset.toNat)
    (hhi : offset.toNat < c.capacity.toNat) : read (written b ws) offset = 0 := by
  have hsmall : ws.length ≤ c.capacity.toNat := by omega
  have hcell := (written_laps b ws).rest offset.toNat hhi (by rw [List.length_map]; exact hlo)
  have hzero : (reset b).words offset.toNat = 0 := if_pos hhi
  rw [read_index hn, if_pos hsmall, Nat.zero_add, Nat.mod_eq_of_lt hhi, hcell, hzero]
  simp

/-- After a reset and any writes the buffer verifies. While there are fewer than `2^32 -
capacity` of them, its length is their number or the capacity, a read below the length
returns the word of the last `length` that its offset counts, the oldest first, as far as it
is stored, and any other read wraps its offset to the capacity and then finds such a word or
a zero. -/
theorem preserved_ring_buf_contents (c : Constants) (b : Buf c) (ws : List U32) :
    verify (written b ws) = true ∧
    (ws.length < 2 ^ 32 - c.capacity.toNat →
      (len (written b ws)).toNat = min ws.length c.capacity.toNat ∧
      (∀ (offset : U32) (hlt : ws.length - min ws.length c.capacity.toNat + offset.toNat < ws.length),
        read (written b ws) offset =
          masked c (ws.get ⟨ws.length - min ws.length c.capacity.toNat + offset.toNat, hlt⟩)) ∧
      ∀ offset : U32, read (written b ws) offset = read (written b ws) (offset % c.capacity) ∧
        (ws.length ≤ (offset % c.capacity).toNat → read (written b ws) offset = 0)) := by
  refine ⟨written_verify, fun hn => ?_⟩
  have hwrap : ws.length < 2 ^ 32 := by omega
  refine ⟨written_len hwrap, fun offset hlt => read_word hwrap rfl hlt, fun offset => ⟨read_wraps hwrap offset, ?_⟩⟩
  intro hempty
  have hmod : (offset % c.capacity).toNat < c.capacity.toNat := by
    rw [BitVec.toNat_umod]
    exact Nat.mod_lt _ capacity_pos
  rw [read_wraps hwrap, read_empty hwrap hempty hmod]

def pair : Constants := ⟨1, 1, .one, by decide⟩

def unset : Buf pair := ⟨7, 7, 7, 7, 7, fun _ => 7⟩

/-- Three writes to it. -/
theorem preserved_ring_buf_contents_pair :
    verify (written unset [0x101, 0x102, 0x103]) = true ∧ (len (written unset [0x101, 0x102, 0x103])).toNat = 2 ∧
      read (written unset [0x101, 0x102, 0x103]) 0 = 2 := by
  obtain ⟨hverify, hcontents⟩ := preserved_ring_buf_contents pair unset [0x101, 0x102, 0x103]
  obtain ⟨hlen, hread, _⟩ := hcontents (by decide)
  exact ⟨hverify, hlen, (hread 0 (by decide)).trans (by decide)⟩

/-- A read past the length of the buffer returns a word of it. -/
theorem read_past_length :
    (len (written unset [0x101, 0x102, 0x103])).toNat ≤ (2 : U32).toNat ∧
      read (written unset [0x101, 0x102, 0x103]) 2 = 2 := by decide

end ChromeEc.PreservedRingBuf
