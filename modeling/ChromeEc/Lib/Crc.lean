import Mathlib.Logic.Function.Iterate

/- Cyclic redundancy checks.

  A message goes bit by bit into a shift register that holds its remainder: where the bit differs
  from the one that leaves the register at the top, the polynomial is added (`enter`). The reflected
  check (`reflected`) takes the bits of each byte from the lowest one on and reads the register from
  its other end.

  Programs keep the reversed register, which shifts to the right with the reversed polynomial
  (`reverse_enter`), and so may add a byte to it as a whole (`foldl_byte`). The shift is linear, and
  what is above the bits that leave moves down unchanged (`iterate_shift_add`): the rest of the work on a
  byte is a function of the lowest 8 bits, for which there are tables (`iterate_shift_low`).

  A polynomial with a constant term makes no two registers one, so that a change within as many bits in a row as the
  register has is always told (`burst_iff`). -/
namespace ChromeEc.Lib.Crc

variable {w : Nat}

/-! ## The register -/

def enter (poly crc : BitVec w) (bit : Bool) : BitVec w :=
  (crc <<< 1) ^^^ if crc.msb ^^ bit then poly else 0

def lowBits {k : Nat} (n : Nat) (x : BitVec k) : List Bool := (List.range n).map x.getLsbD

/-- The check of a message: the register starts with all ones, and the result is complemented. -/
def reflected (poly : BitVec w) (message : List (BitVec 8)) : BitVec w :=
  ~~~((message.flatMap (lowBits 8)).foldl (enter poly) (BitVec.allOnes w)).reverse

/-! ## The reversed register -/

/-- The reversed register without a message. -/
def shift (poly crc : BitVec w) : BitVec w :=
  (crc >>> 1) ^^^ if crc.getLsbD 0 then poly else 0

/-- A bit of the message enters the reversed register. -/
def enterLow (poly crc : BitVec w) (bit : Bool) : BitVec w :=
  (crc >>> 1) ^^^ if crc.getLsbD 0 ^^ bit then poly else 0

def enterByte (poly crc : BitVec w) (b : BitVec 8) : BitVec w := (shift poly)^[8] (crc ^^^ b.setWidth w)

section

variable {poly crc x y : BitVec w} {bit : Bool} {n : Nat}

theorem reverse_xor : (x ^^^ y).reverse = x.reverse ^^^ y.reverse := by
  apply BitVec.eq_of_getLsbD_eq
  intro i hi
  simp only [BitVec.getLsbD_xor, BitVec.getLsbD_reverse, BitVec.getMsbD_xor]

theorem reverse_shiftLeft_one : (x <<< 1).reverse = x.reverse >>> 1 := by
  apply BitVec.eq_of_getLsbD_eq
  intro i hi
  rw [BitVec.getLsbD_reverse, BitVec.getLsbD_ushiftRight, BitVec.getLsbD_reverse, BitVec.getMsbD_shiftLeft,
    Nat.add_comm]

theorem reverse_enter : (enter poly crc bit).reverse = enterLow poly.reverse crc.reverse bit := by
  have hlow : crc.reverse.getLsbD 0 = crc.msb := BitVec.getLsbD_reverse
  rw [enter, enterLow, reverse_xor, reverse_shiftLeft_one, hlow]
  split
  · rfl
  · exact congrArg (crc.reverse >>> 1 ^^^ ·) (BitVec.reverse_eq_zero_iff.mpr rfl)

theorem reverse_foldl_enter (bits : List Bool) :
    (bits.foldl (enter poly) crc).reverse = bits.foldl (enterLow poly.reverse) crc.reverse := by
  induction bits generalizing crc with
  | nil => rfl
  | cons bit bits ih => rw [List.foldl_cons, List.foldl_cons, ih, reverse_enter]

/-- The lowest bit of what is added to the register acts like a bit of the message. -/
theorem shift_add : shift poly (crc ^^^ x) = enterLow poly crc (x.getLsbD 0) ^^^ (x >>> 1) := by
  rw [shift, enterLow, BitVec.ushiftRight_xor_distrib, BitVec.getLsbD_xor, BitVec.xor_assoc, BitVec.xor_assoc,
    BitVec.xor_comm (x >>> 1)]

/-- The bits of a value enter one by one, or the value is added and shifted out. -/
theorem foldl_lowBits (hx : x >>> n = 0#w) :
    (lowBits n x).foldl (enterLow poly) crc = (shift poly)^[n] (crc ^^^ x) := by
  -- by induction on the bits: the lowest one enters, the others have moved down by one
  induction n generalizing crc x with
  | zero =>
    rw [BitVec.ushiftRight_zero] at hx
    rw [hx, BitVec.xor_zero]
    rfl
  | succ n ih =>
    have hrest : (x >>> 1) >>> n = 0#w := by
      rw [← BitVec.shiftRight_add, Nat.add_comm, hx]
    have hbits : lowBits (n + 1) x = x.getLsbD 0 :: lowBits n (x >>> 1) := by
      rw [lowBits, List.range_succ_eq_map, List.map_cons, List.map_map, lowBits]
      congr 1
      refine List.map_congr_left fun i _ => ?_
      rw [Function.comp_apply, BitVec.getLsbD_ushiftRight, Nat.succ_eq_one_add]
    rw [hbits, List.foldl_cons, ih hrest, Function.iterate_succ_apply, shift_add]

theorem foldl_byte (hw : 8 ≤ w) (b : BitVec 8) : (lowBits 8 b).foldl (enterLow poly) crc = enterByte poly crc b := by
  have hbits : lowBits 8 b = lowBits 8 (b.setWidth w) := by
    refine List.map_congr_left fun i hi => ?_
    have hlt : i < 8 := List.mem_range.mp hi
    rw [BitVec.getLsbD_setWidth, decide_eq_true (by omega), Bool.true_and]
  have hout : b.setWidth w >>> 8 = 0#w := by
    apply BitVec.eq_of_getLsbD_eq
    intro i _
    rw [BitVec.getLsbD_ushiftRight, BitVec.getLsbD_setWidth, BitVec.getLsbD_of_ge b (8 + i) (by omega), Bool.and_false,
      BitVec.getLsbD_zero]
  rw [hbits, foldl_lowBits hout, enterByte]

theorem reflected_eq (hw : 8 ≤ w) (message : List (BitVec 8)) :
    reflected poly message = ~~~(message.foldl (enterByte poly.reverse) (BitVec.allOnes w)) := by
  have hones : (BitVec.allOnes w).reverse = BitVec.allOnes w := by
    apply BitVec.eq_of_getLsbD_eq
    intro i hi
    rw [BitVec.getLsbD_reverse, BitVec.getMsbD_allOnes, BitVec.getLsbD_allOnes]
  have hbytes : ∀ b : BitVec 8, ∀ crc : BitVec w,
      (lowBits 8 b).foldl (enterLow poly.reverse) crc = enterByte poly.reverse crc b :=
    fun b _ => foldl_byte hw b
  rw [reflected, reverse_foldl_enter, hones, List.foldl_flatMap]
  simp only [hbytes]

/-! ## Tables -/

theorem iterate_shift_add (hy : ∀ i < n, y.getLsbD i = false) :
    (shift poly)^[n] (x ^^^ y) = (shift poly)^[n] x ^^^ (y >>> n) := by
  induction n generalizing x y with
  | zero => rw [Function.iterate_zero_apply, Function.iterate_zero_apply, BitVec.ushiftRight_zero]
  | succ n ih =>
    have hstep : shift poly (x ^^^ y) = shift poly x ^^^ (y >>> 1) := by
      rw [shift_add, hy 0 (Nat.succ_pos n), enterLow, shift, Bool.xor_false]
    have hrest : ∀ i < n, (y >>> 1).getLsbD i = false := by
      intro i hi
      rw [BitVec.getLsbD_ushiftRight]
      exact hy (1 + i) (by omega)
    rw [Function.iterate_succ_apply, hstep, ih hrest, Function.iterate_succ_apply,
      ← BitVec.shiftRight_add, Nat.add_comm 1 n]

/-- `n` shifts, with a table for the lowest `n` bits. -/
theorem iterate_shift_low :
    (shift poly)^[n] x = (shift poly)^[n] ((x.setWidth n).setWidth w) ^^^ (x >>> n) := by
  have hsplit : x = (x.setWidth n).setWidth w ^^^ ((x >>> n) <<< n) := by
    apply BitVec.eq_of_getLsbD_eq
    intro i hi
    rw [BitVec.getLsbD_xor, BitVec.getLsbD_setWidth, BitVec.getLsbD_setWidth, BitVec.getLsbD_shiftLeft,
      BitVec.getLsbD_ushiftRight, decide_eq_true hi, Bool.true_and, Bool.true_and]
    by_cases hlow : i < n
    · rw [decide_eq_true hlow, Bool.true_and, Bool.not_true, Bool.false_and, Bool.xor_false]
    · rw [decide_eq_false hlow, Bool.false_and, Bool.not_false, Bool.true_and, Bool.false_xor,
        show n + (i - n) = i by omega]
  have hhigh : ∀ i < n, ((x >>> n) <<< n).getLsbD i = false := by
    intro i hi
    rw [BitVec.getLsbD_shiftLeft, decide_eq_true hi, Bool.not_true, Bool.and_false, Bool.false_and]
  have hdown : ((x >>> n) <<< n) >>> n = x >>> n := by
    apply BitVec.eq_of_getLsbD_eq
    intro i hi
    rw [BitVec.getLsbD_ushiftRight, BitVec.getLsbD_shiftLeft, BitVec.getLsbD_ushiftRight, BitVec.getLsbD_ushiftRight,
      decide_eq_false (show ¬n + i < n by omega), Bool.not_false, Bool.and_true, show n + (n + i - n) = n + i by omega]
    by_cases hin : n + i < w
    · rw [decide_eq_true hin, Bool.true_and]
    · rw [BitVec.getLsbD_of_ge x (n + i) (by omega), Bool.and_false]
  -- the low bits are worked on and the high ones only move
  calc (shift poly)^[n] x
      = (shift poly)^[n] ((x.setWidth n).setWidth w ^^^ ((x >>> n) <<< n)) := congrArg (shift poly)^[n] hsplit
    _ = (shift poly)^[n] ((x.setWidth n).setWidth w) ^^^ (x >>> n) := by rw [iterate_shift_add hhigh, hdown]

end

/-! ## Bursts -/

section
variable {poly crc crc' : BitVec w} {bit bit' : Bool} {n : Nat}

theorem enter_zero (hpoly : poly.getLsbD 0 = true) : (enter poly crc bit).getLsbD 0 = (crc.msb ^^ bit) := by
  rw [enter, BitVec.getLsbD_xor, BitVec.getLsbD_shiftLeft]
  cases crc.msb ^^ bit <;> simp [hpoly]

theorem enter_succ {i : Nat} (hi : i + 1 < w) :
    (enter poly crc bit).getLsbD (i + 1) = (crc.getLsbD i ^^ ((crc.msb ^^ bit) && poly.getLsbD (i + 1))) := by
  rw [enter, BitVec.getLsbD_xor, BitVec.getLsbD_shiftLeft]
  cases crc.msb ^^ bit <;> simp [hi]

theorem enter_injective (hpoly : poly.getLsbD 0 = true) (h : enter poly crc bit = enter poly crc' bit) : crc = crc' := by
  have hmsb : crc.msb = crc'.msb := by
    have hzero : (enter poly crc bit).getLsbD 0 = _ := enter_zero hpoly
    rw [h, enter_zero hpoly] at hzero
    simpa using hzero.symm
  apply BitVec.eq_of_getLsbD_eq
  intro i hi
  rcases Nat.lt_or_eq_of_le (Nat.succ_le_of_lt hi) with hmore | hlast
  · have hsucc : (enter poly crc bit).getLsbD (i + 1) = _ := enter_succ hmore
    rw [h, enter_succ hmore, hmsb] at hsucc
    simpa using hsucc.symm
  · rw [BitVec.msb_eq_getLsbD_last, BitVec.msb_eq_getLsbD_last] at hmsb
    have hi : i = w - 1 := by omega
    rw [hi, hmsb]

theorem foldl_enter_injective (hpoly : poly.getLsbD 0 = true) {bits : List Bool}
    (h : bits.foldl (enter poly) crc = bits.foldl (enter poly) crc') : crc = crc' := by
  induction bits generalizing crc crc' with
  | nil => exact h
  | cons bit bits ih => exact enter_injective hpoly (ih h)

/-- Equal registers have come from registers that agree in all but as many high bits as bits have entered since. -/
theorem agree_before (hpoly : poly.getLsbD 0 = true) {bits bits' : List Bool} (hlen : bits.length = bits'.length)
    (hw : bits.length ≤ w) (h : bits.foldl (enter poly) crc = bits'.foldl (enter poly) crc') :
    (∀ i < w - bits.length, crc.getLsbD i = crc'.getLsbD i) ∧ (crc = crc' → bits = bits') := by
  -- by induction on the bits: the last one of the register tells which bit differed from the one that left
  induction bits generalizing bits' crc crc' with
  | nil =>
    rw [List.length_eq_zero_iff.mp hlen.symm] at h ⊢
    exact ⟨fun i _ => congrArg (·.getLsbD i) h, fun _ => rfl⟩
  | cons bit bits ih =>
    obtain _ | ⟨bit', bits'⟩ := bits'
    · cases hlen
    rw [List.length_cons] at hw hlen ⊢
    obtain ⟨hlow, hrest⟩ := ih (Nat.succ.inj hlen) (by omega) h
    have hfirst : (crc.msb ^^ bit) = (crc'.msb ^^ bit') := by
      rw [← enter_zero hpoly, ← enter_zero hpoly, hlow 0 (by omega)]
    refine ⟨fun i hi => ?_, ?_⟩
    · have hbit := hlow (i + 1) (by omega)
      rw [enter_succ (by omega), enter_succ (by omega), hfirst] at hbit
      simpa using hbit
    · rintro rfl
      have hbit : bit = bit' := by simpa using hfirst
      subst hbit
      rw [hrest rfl]

/-- A change within `w` bits in a row is always told. -/
theorem burst_iff (hpoly : poly.getLsbD 0 = true) {front bits bits' rest : List Bool} (hlen : bits.length = bits'.length)
    (hw : bits.length ≤ w) :
    (front ++ (bits ++ rest)).foldl (enter poly) crc = (front ++ (bits' ++ rest)).foldl (enter poly) crc ↔
      bits = bits' := by
  simp only [List.foldl_append]
  exact ⟨fun h => (agree_before hpoly hlen hw (foldl_enter_injective hpoly h)).2 rfl, fun h => by rw [h]⟩

end

/-! ## Words -/

/-- The `n` low bytes of a value, the lowest one first. -/
def littleEndian {k : Nat} (n : Nat) (x : BitVec k) : List (BitVec 8) :=
  (List.range n).map fun i => x.extractLsb' (8 * i) 8

end ChromeEc.Lib.Crc
