import ChromeEc.Base32.Symbols
import ChromeEc.Lib.Bits

/- What is encoded is decoded again.

  The symbol of the bits from `i` on has these bits, and 0 bits behind the end (`msb_symAt`). The
  decoder writes the bits of a symbol behind those it has written before (`Written.putSym`),
  and takes the check symbols as the encoder has made them (`Reading.next`), so after a whole text
  the destination holds the bits that were encoded (`round_trip`).

  Spaces and dashes are skipped. A letter in lower case is refused: the alphabet is upper case.

  The bits behind the end do not change the text (`base32Encode_congr`). The byte behind the end
  is read all the same for some lengths: the encoder asks for a second byte where there is a
  second bit, not where the next byte begins before the end (`sourceBounds_iff`). -/
namespace ChromeEc.Base32
open Lib
open Console (isspace)

/-! ## The symbols of the encoder -/

section

variable {src : Nat → UInt8} {srclenBits : Nat}

theorem byte_lt (b : UInt8) : b.toNat < 2 ^ 8 := UInt8.toNat_lt b

theorem msb_inByte {i k : Nat} (hoffs : i % 8 ≤ 3) (hk : k < 5) :
    msb 5 ((src (i / 8)).toNat >>> (3 - i % 8)) k = bitAt src (i + k) := by
  have hfield := msb_shiftRight (src (i / 8)).toNat (show i % 8 + 5 ≤ 8 by omega) (show i % 8 + k < i % 8 + 5 by omega)
  rw [msb_add hk, show 8 - (i % 8 + 5) = 3 - i % 8 by omega] at hfield
  rw [hfield, bitAt, show (i + k) / 8 = i / 8 by omega, show (i + k) % 8 = i % 8 + k by omega]

theorem msb_firstByte {i k : Nat} (hoffs : 3 < i % 8) (hk : k < 5) :
    msb 5 ((src (i / 8)).toNat <<< (i % 8 - 3)) k = (decide (i % 8 + k < 8) && bitAt src (i + k)) := by
  have hfield := msb_shiftLeft (src (i / 8)).toNat (show 8 ≤ i % 8 + 5 by omega) (show i % 8 + k < i % 8 + 5 by omega)
  rw [msb_add hk, show i % 8 + 5 - 8 = i % 8 - 3 by omega] at hfield
  rw [hfield]
  by_cases hin : i % 8 + k < 8
  · rw [bitAt, show (i + k) / 8 = i / 8 by omega, show (i + k) % 8 = i % 8 + k by omega]
  · rw [decide_eq_false hin, Bool.false_and, Bool.false_and]

theorem msb_secondByte {i k : Nat} (hoffs : 3 < i % 8) (hk : k < 5) :
    msb 5 ((src (i / 8 + 1)).toNat >>> (11 - i % 8)) k = (decide (8 ≤ i % 8 + k) && bitAt src (i + k)) := by
  have hlt : (src (i / 8 + 1)).toNat >>> (11 - i % 8) < 2 ^ (i % 8 - 3) := by
    rw [Nat.shiftRight_eq_div_pow]
    refine Nat.div_lt_of_lt_mul ?_
    rw [← Nat.pow_add, show 11 - i % 8 + (i % 8 - 3) = 8 by omega]
    exact byte_lt _
  rw [msb_long hlt (by omega) hk]
  by_cases hin : 8 ≤ i % 8 + k
  · have hfield := msb_shiftRight (src (i / 8 + 1)).toNat (show i % 8 - 3 ≤ 8 by omega)
      (show i % 8 + k - 8 < i % 8 - 3 by omega)
    rw [show 8 - (i % 8 - 3) = 11 - i % 8 by omega] at hfield
    rw [decide_eq_true hin, decide_eq_true (by omega), show k - (5 - (i % 8 - 3)) = i % 8 + k - 8 by omega, hfield, bitAt,
      show (i + k) / 8 = i / 8 + 1 by omega, show (i + k) % 8 = i % 8 + k - 8 by omega]
  · rw [decide_eq_false hin, decide_eq_false (by omega), Bool.false_and, Bool.false_and]

theorem msb_padding {i k : Nat} (hk : k < 5) (hi : i < srclenBits) (hlast : srclenBits - i < 5) :
    msb 5 (0x1f <<< (5 + i - srclenBits)) k = decide (i + k < srclenBits) := by
  obtain ⟨p, hp⟩ : ∃ p, p = srclenBits - i := ⟨_, rfl⟩
  have hfield := msb_shiftLeft (2 ^ 5 - 1) (show 5 ≤ 5 - p + 5 by omega) (show 5 - p + k < 5 - p + 5 by omega)
  rw [msb_add hk, Nat.add_sub_cancel, show 5 - p = 5 + i - srclenBits by omega] at hfield
  rw [show 0x1f = 2 ^ 5 - 1 from rfl, hfield]
  by_cases hin : i + k < srclenBits
  · rw [decide_eq_true hin, decide_eq_true (by omega), msb_ones (by omega), Bool.and_self]
  · rw [decide_eq_false hin, decide_eq_false (by omega), Bool.false_and]

/-- A symbol has the bits from `i` on, and 0 bits behind the end. -/
theorem msb_symAt {i k : Nat} (hi : i < srclenBits) (hk : k < 5) :
    msb 5 (symAt src srclenBits i).val k = (decide (i + k < srclenBits) && bitAt src (i + k)) := by
  -- before the padding the last symbol may have bits of the byte behind the end
  obtain ⟨sym, hsym, hbits⟩ : ∃ sym, (symAt src srclenBits i).val =
      (if srclenBits - i < 5 then sym &&& 0x1f &&& (0x1f <<< (5 + i - srclenBits)) else sym &&& 0x1f) ∧
        (i + k < srclenBits → msb 5 sym k = bitAt src (i + k)) := by
    by_cases hoffs : i % 8 ≤ 3
    · refine ⟨(src (i / 8)).toNat >>> (3 - i % 8), ?_, fun _ => msb_inByte hoffs hk⟩
      simp only [symAt, rawSym, if_pos hoffs]
    · refine ⟨(src (i / 8)).toNat <<< (i % 8 - 3) |||
        (if i + 1 < srclenBits then (src (i / 8 + 1)).toNat >>> (11 - i % 8) else 0), ?_, ?_⟩
      · simp only [symAt, rawSym, if_neg hoffs]
      intro hin
      rw [msb_or, msb_firstByte (by omega) hk]
      by_cases hfirst : i % 8 + k < 8
      · split
        · rw [msb_secondByte (by omega) hk, decide_eq_true hfirst, decide_eq_false (by omega), Bool.true_and,
            Bool.false_and, Bool.or_false]
        · rw [decide_eq_true hfirst, Bool.true_and, msb_zero, Bool.or_false]
      · rw [if_pos (by omega), msb_secondByte (by omega) hk, decide_eq_false hfirst, decide_eq_true (by omega),
          Bool.true_and, Bool.false_and, Bool.false_or]
  have hones : msb 5 0x1f k = true := msb_ones hk
  rw [hsym]
  split
  · next hlast =>
    rw [msb_and, msb_and, hones, Bool.and_true, msb_padding hk hi hlast]
    by_cases hin : i + k < srclenBits
    · rw [hbits hin, Bool.and_comm]
    · rw [decide_eq_false hin, Bool.and_false, Bool.false_and]
  · have hin : i + k < srclenBits := by omega
    rw [msb_and, hones, Bool.and_true, hbits hin, decide_eq_true hin, Bool.true_and]

end

/-! ## What the decoder writes -/

/-- The first `n` bits are those of `f`, and 0 bits follow to the end of the byte. -/
structure Written (m : Nat → UInt8) (n : Nat) (f : Nat → Bool) : Prop where
  bits : ∀ j < n, bitAt m j = f j
  rest : ∀ j, n ≤ j → j / 8 = n / 8 → n % 8 ≠ 0 → bitAt m j = false

theorem Written.zero (m : Nat → UInt8) (f : Nat → Bool) : Written m 0 f :=
  ⟨fun _ h => absurd h (Nat.not_lt_zero _), fun _ _ _ h => absurd rfl h⟩

section

variable {v len offs r : Nat}

theorem msb_intoByte (hv : v < 2 ^ len) (hoffs : offs < 8) (hr : r < 8) :
    msb 8 ((v <<< (8 - offs - min (8 - offs) len)) >>> (len - min (8 - offs) len)) r =
      (decide (offs ≤ r ∧ r < offs + len) && msb len v (r - offs)) := by
  by_cases hfits : len ≤ 8 - offs
  · -- the whole field, with 0 bits behind it
    rw [Nat.min_eq_right hfits, Nat.sub_self, Nat.shiftRight_zero]
    have hlt : v <<< (8 - offs - len) < 2 ^ (8 - offs) := by
      rw [Nat.shiftLeft_eq, show 8 - offs = len + (8 - offs - len) by omega, Nat.pow_add,
        show len + (8 - offs - len) - len = 8 - offs - len by omega]
      exact (Nat.mul_lt_mul_right (Nat.two_pow_pos _)).mpr hv
    rw [msb_long hlt (by omega) hr, show 8 - (8 - offs) = offs by omega]
    by_cases hin : offs ≤ r
    · rw [msb_shiftLeft v hfits (by omega), decide_eq_true hin, Bool.true_and]
      by_cases hend : r < offs + len
      · have hboth : offs ≤ r ∧ r < offs + len := ⟨hin, hend⟩
        rw [decide_eq_true hboth, decide_eq_true (by omega)]
      · have hboth : ¬(offs ≤ r ∧ r < offs + len) := fun h => hend h.2
        rw [decide_eq_false hboth, decide_eq_false (by omega)]
    · rw [decide_eq_false hin, decide_eq_false (fun h => hin h.1), Bool.false_and, Bool.false_and]
  · -- the beginning of the field
    rw [Nat.min_eq_left (by omega), Nat.sub_self, Nat.shiftLeft_zero]
    have hlt : v >>> (len - (8 - offs)) < 2 ^ (8 - offs) := by
      rw [Nat.shiftRight_eq_div_pow]
      refine Nat.div_lt_of_lt_mul ?_
      rwa [← Nat.pow_add, show len - (8 - offs) + (8 - offs) = len by omega]
    rw [msb_long hlt (by omega) hr, show 8 - (8 - offs) = offs by omega]
    by_cases hin : offs ≤ r
    · rw [msb_shiftRight v (by omega) (by omega), decide_eq_true hin, decide_eq_true ⟨hin, by omega⟩]
    · rw [decide_eq_false hin, decide_eq_false (fun h => hin h.1), Bool.false_and, Bool.false_and]

theorem msb_nextByte {dbits : Nat} (hlen : dbits < len) (hlen' : len ≤ dbits + 8) (hr : r < 8) :
    msb 8 (v <<< (8 - (len - dbits))) r = (decide (dbits + r < len) && msb len v (dbits + r)) := by
  have hfield := msb_shiftLeft v hlen' (show dbits + r < dbits + 8 by omega)
  rwa [msb_add hr, show dbits + 8 - len = 8 - (len - dbits) by omega] at hfield

end

theorem Written.of_bits {m : Nat → UInt8} {n : Nat} {f : Nat → Bool}
    (h : ∀ j, j < n ∨ j / 8 = n / 8 ∧ n % 8 ≠ 0 → bitAt m j = (decide (j < n) && f j)) : Written m n f := by
  refine ⟨?_, ?_⟩
  · intro j hj
    rw [h j (.inl hj), decide_eq_true hj, Bool.true_and]
  · intro j hj hbyte hn
    rw [h j (.inr ⟨hbyte, hn⟩), decide_eq_false (by omega), Bool.false_and]

theorem truncated (sym : Sym) {sbits : Nat} (hs : sbits ≤ 5) :
    ∃ v, (if sbits < 5 then sym.val >>> (5 - sbits) else sym.val) = v ∧ v < 2 ^ sbits ∧
      ∀ k < sbits, msb sbits v k = msb 5 sym.val k := by
  refine ⟨sym.val >>> (5 - sbits), ?_, ?_, fun k hk => msb_shiftRight sym.val hs hk⟩
  · split
    · rfl
    · rw [show 5 - sbits = 0 by omega, Nat.shiftRight_zero]
  · rw [Nat.shiftRight_eq_div_pow]
    refine Nat.div_lt_of_lt_mul ?_
    rw [← Nat.pow_add, show 5 - sbits + sbits = 5 by omega]
    exact sym.isLt

section

variable {m : Nat → UInt8} {f : Nat → Bool} {n sbits v : Nat}

theorem Written.currentByte (h : Written m n f) (hv : v < 2 ^ sbits)
    (hf : ∀ k < sbits, f (n + k) = msb sbits v k) (j : Nat)
    (hj : j / 8 ≤ n / 8) :
    bitAt (setByte (if 8 - n % 8 = 8 then setByte m (n / 8) 0 else m) (n / 8)
        ((if 8 - n % 8 = 8 then setByte m (n / 8) 0 else m) (n / 8) |||
          UInt8.ofNat ((v <<< (8 - n % 8 - min (8 - n % 8) sbits)) >>> (sbits - min (8 - n % 8) sbits)))) j =
      (decide (j < n + sbits) && f j) := by
  rw [setByte, bitAt_update]
  split
  · next hbyte =>
    -- what was in the byte
    have hold : msb 8 ((if 8 - n % 8 = 8 then setByte m (n / 8) 0 else m) (n / 8)).toNat (j % 8) =
        (decide (j < n) && f j) := by
      by_cases hstart : n % 8 = 0
      · rw [if_pos (by omega), setByte, Function.update_self, decide_eq_false (by omega), Bool.false_and]
        exact msb_zero
      · rw [if_neg (by omega), ← hbyte]
        show bitAt m j = _
        by_cases hlt : j < n
        · rw [h.bits j hlt, decide_eq_true hlt, Bool.true_and]
        · rw [h.rest j (by omega) hbyte hstart, decide_eq_false hlt, Bool.false_and]
    rw [msb_byte_or, hold, msb_ofNat (by omega), msb_intoByte hv (by omega) (by omega)]
    by_cases hlt : j < n
    · have hnew : ¬(n % 8 ≤ j % 8 ∧ j % 8 < n % 8 + sbits) := by omega
      rw [decide_eq_true hlt, decide_eq_false hnew, decide_eq_true (by omega), Bool.false_and, Bool.or_false]
    · rw [decide_eq_false hlt, Bool.false_and, Bool.false_or]
      by_cases hin : j < n + sbits
      · have hnew : n % 8 ≤ j % 8 ∧ j % 8 < n % 8 + sbits := by omega
        rw [decide_eq_true hnew, decide_eq_true hin, show j % 8 - n % 8 = j - n by omega, ← hf (j - n) (by omega),
          show n + (j - n) = j by omega]
      · have hnew : ¬(n % 8 ≤ j % 8 ∧ j % 8 < n % 8 + sbits) := by omega
        rw [decide_eq_false hnew, decide_eq_false hin, Bool.false_and, Bool.false_and]
  · next hbyte =>
    have hlt : j < n := by omega
    have hsame : bitAt (if 8 - n % 8 = 8 then setByte m (n / 8) 0 else m) j = bitAt m j := by
      split
      · rw [setByte, bitAt_update, if_neg hbyte]
      · rfl
    rw [hsame, h.bits j hlt, decide_eq_true (by omega), Bool.true_and]

end

theorem Written.putSym {d : Decoding} {f : Nat → Bool} {destlenBits : Nat} {sym : Sym} (h : Written d.dest d.outBits f)
    (hspace : d.outBits < destlenBits) (hf : ∀ k < 5, f (d.outBits + k) = msb 5 sym.val k) :
    (putSym destlenBits sym d).outBits = min destlenBits (d.outBits + 5) ∧
      Written (putSym destlenBits sym d).dest (min destlenBits (d.outBits + 5)) f := by
  obtain ⟨n, hn⟩ : ∃ n, n = d.outBits := ⟨_, rfl⟩
  rw [← hn] at h hspace hf
  obtain ⟨sbits, hs⟩ : ∃ sbits, sbits = min 5 (destlenBits - n) := ⟨_, rfl⟩
  obtain ⟨v, hsym, hv, hbits⟩ := truncated sym (show sbits ≤ 5 by omega)
  have hfv : ∀ k < sbits, f (n + k) = msb sbits v k := by
    intro k hk
    rw [hf k (by omega), hbits k hk]
  have hcurrent := h.currentByte hv hfv
  rw [← hn, show min destlenBits (n + 5) = n + sbits by omega, Base32.putSym]
  simp only [← hn, ← hs, hsym]
  split
  · next hnext =>
    have hb : min (8 - n % 8) sbits = 8 - n % 8 := by omega
    refine ⟨by show n + min (8 - n % 8) sbits + (sbits - min (8 - n % 8) sbits) = n + sbits; omega, .of_bits ?_⟩
    intro j hj
    rw [setByte, bitAt_update]
    split
    · next hbyte =>
      -- the next byte starts with what is left of the symbol
      rw [msb_ofNat (by omega), hb, msb_nextByte (by omega) (by omega) (by omega)]
      by_cases hin : j < n + sbits
      · rw [decide_eq_true hin, decide_eq_true (by omega),
          show 8 - n % 8 + j % 8 = j - n by omega, ← hfv (j - n) (by omega), show n + (j - n) = j by omega]
      · rw [decide_eq_false hin, decide_eq_false (by omega), Bool.false_and, Bool.false_and]
    · exact hcurrent j (by omega)
  · refine ⟨by show n + min (8 - n % 8) sbits = n + sbits; omega, .of_bits ?_⟩
    exact fun j hj => hcurrent j (by omega)

/-! ## Texts -/

section

variable {src : Nat → UInt8} {srclenBits every destlenBits : Nat}

/-- The bits of the symbols: those that are encoded, and 0 bits behind them. -/
def paddedBit (src : Nat → UInt8) (srclenBits j : Nat) : Bool := decide (j < srclenBits) && bitAt src j

/-- One data symbol, where there is space and no check symbol is due. -/
theorem decodeFrom_data {d : Decoding} (hdata : ¬(every ≠ 0 ∧ d.crcCount = every)) (hspace : d.outBits < destlenBits)
    (sym : Sym) :
    ∃ d', (∀ text, decodeFrom destlenBits every (base32Char sym :: text) d = decodeFrom destlenBits every text d') ∧
      d'.outBits = (putSym destlenBits sym d).outBits ∧ d'.dest = (putSym destlenBits sym d).dest ∧
      (every ≠ 0 → d'.crc = crc5Sym sym d.crc ∧ d'.crcCount = d.crcCount + 1) := by
  simp only [decodeFrom_symbol, if_neg hdata]
  by_cases hcrc : every ≠ 0
  · simp only [if_pos hcrc, if_neg (Nat.not_le.mpr hspace)]
    refine ⟨_, fun _ => rfl, ?_, ?_, ?_⟩
    · simp only [putSym]
      split <;> rfl
    · simp only [putSym]
      split <;> rfl
    · intro _
      rw [putSym_crc, putSym_crcCount]
      exact ⟨rfl, rfl⟩
  · simp only [if_neg hcrc, if_neg (Nat.not_le.mpr hspace)]
    exact ⟨_, fun _ => rfl, rfl, rfl, fun h => absurd h hcrc⟩

/-- The decoder is at the same place of a group as the encoder, and the `len` data symbols that are left fill whole
groups. -/
structure InStep (every len : Nat) (crc : Sym) (crcCount : Nat) (d : Decoding) : Prop where
  sameCrc : d.crc = crc
  sameCount : d.crcCount = crcCount
  inside : crcCount < every
  whole : every ∣ crcCount + len

namespace InStep

variable {len crcCount : Nat} {crc sym : Sym} {d d' : Decoding}

theorem start (hpos : every ≠ 0) (hwhole : every ∣ len) (h : d.crc = 0 ∧ d.crcCount = 0) : InStep every len 0 0 d := by
  obtain ⟨hcrc, hcount⟩ := h
  refine ⟨hcrc, hcount, Nat.pos_of_ne_zero hpos, ?_⟩
  rwa [Nat.zero_add]

theorem no_partial_group (h : every ≠ 0 → InStep every 0 crc crcCount d) : ¬(every ≠ 0 ∧ d.crcCount ≠ 0) := by
  rintro ⟨hcrc, hcount⟩
  obtain ⟨-, heq, hlt, hwhole⟩ := h hcrc
  exact hcount (heq.trans (Nat.eq_zero_of_dvd_of_lt hwhole hlt))

theorem no_check_due (h : every ≠ 0 → InStep every len crc crcCount d) : ¬(every ≠ 0 ∧ d.crcCount = every) := by
  rintro ⟨hcrc, hcount⟩
  obtain ⟨-, heq, hlt, -⟩ := h hcrc
  omega

theorem next (h : InStep every (len + 1) crc crcCount d) (hmore : crcCount + 1 ≠ every)
    (hd : d'.crc = crc5Sym sym d.crc ∧ d'.crcCount = d.crcCount + 1) :
    InStep every len (crc5Sym sym crc) (crcCount + 1) d' := by
  obtain ⟨hcrc, hcount, hlt, hwhole⟩ := h
  obtain ⟨hcrc', hcount'⟩ := hd
  refine ⟨by rw [hcrc', hcrc], by omega, by omega, ?_⟩
  rwa [Nat.add_right_comm, Nat.add_assoc]

theorem whole_rest (h : InStep every (len + 1) crc crcCount d) (hlast : crcCount + 1 = every) : every ∣ len := by
  have hwhole := h.whole
  rw [show crcCount + (len + 1) = every + len by omega] at hwhole
  exact (Nat.dvd_add_right (Nat.dvd_refl every)).mp hwhole

end InStep

theorem decodeFrom_check {d : Decoding} (hcrc : every ≠ 0) (hdue : d.crcCount = every) (text : List UInt8) :
    decodeFrom destlenBits every (base32Char d.crc :: text) d =
      decodeFrom destlenBits every text { d with crcCount := 0, crc := 0 } := by
  rw [decodeFrom_symbol, if_pos ⟨hcrc, hdue⟩, if_neg (not_not.mpr rfl)]

/-- The bits before `i` are written, and `len` data symbols are left. -/
structure Behind (src : Nat → UInt8) (srclenBits destlenBits len i : Nat) (d : Decoding) : Prop where
  whole : i + 5 * len = 5 * ((srclenBits + 4) / 5)
  outBits : d.outBits = min destlenBits i
  written : Written d.dest d.outBits (paddedBit src srclenBits)

/-- The decoder is somewhere in an encoded text, with the symbols `ys` to come: it waits for data or for a check
symbol. -/
def Reading (src : Nat → UInt8) (srclenBits every destlenBits : Nat) (ys : List Sym) (d : Decoding) : Prop :=
  ∃ len i, Behind src srclenBits destlenBits len i d ∧
    ((∃ crc crcCount, (every ≠ 0 → InStep every len crc crcCount d) ∧
        ys = symbols src srclenBits every (List.range' i len 5) crc crcCount) ∨
      (every ≠ 0 ∧ d.crcCount = every ∧ every ∣ len ∧
        ys = d.crc :: symbols src srclenBits every (List.range' i len 5) 0 0))

namespace Reading

variable {ys front : List Sym} {y : Sym} {d : Decoding}

theorem start (hgroups : every ∣ (srclenBits + 4) / 5 ∨ every = 0) (dest : Nat → UInt8) :
    Reading src srclenBits every destlenBits (symbols src srclenBits every (starts srclenBits) 0 0) ⟨0, 0, 0, dest⟩ :=
  ⟨(srclenBits + 4) / 5, 0, ⟨Nat.zero_add _, (Nat.min_zero _).symm, .zero dest _⟩,
    .inl ⟨0, 0, fun hcrc => .start hcrc (hgroups.resolve_right hcrc) ⟨rfl, rfl⟩, rfl⟩⟩

/-- The next symbol is read, whatever follows it. -/
theorem next (hroom : srclenBits ≤ destlenBits) (h : Reading src srclenBits every destlenBits (y :: ys) d) :
    ∃ d', (∀ text, decodeFrom destlenBits every (base32Char y :: text) d = decodeFrom destlenBits every text d') ∧
      Reading src srclenBits every destlenBits ys d' := by
  obtain ⟨len, i, ⟨hwhole, hout, hwritten⟩, ⟨crc, crcCount, hsync, hys⟩ | ⟨hcrc, hdue, hgroups, hys⟩⟩ := h
  · cases len with
    | zero =>
      rw [List.range'_zero, symbols_nil] at hys
      cases hys
    | succ len =>
      have hi : i < srclenBits := by omega
      have houti : d.outBits = i := by omega
      have hspace : d.outBits < destlenBits := by omega
      have hsymbol : ∀ k < 5, paddedBit src srclenBits (d.outBits + k) = msb 5 (symAt src srclenBits i).val k := by
        intro k hk
        rw [houti, msb_symAt hi hk, paddedBit]
      obtain ⟨hbits, hput⟩ := hwritten.putSym hspace hsymbol
      rw [List.range'_succ, symbols_cons] at hys
      obtain ⟨rfl, rfl⟩ := List.cons.inj hys
      obtain ⟨d', heq, hout', hdest', hcheck⟩ :=
        decodeFrom_data (InStep.no_check_due hsync) hspace (symAt src srclenBits i)
      refine ⟨d', heq, len, i + 5, ⟨by omega, by rw [hout', hbits, houti], by rwa [hout', hdest', hbits]⟩, ?_⟩
      split
      · next hplain => exact .inl ⟨crc, crcCount, fun hcrc => absurd hplain hcrc, rfl⟩
      · next hcrc =>
        have hin := hsync hcrc
        obtain ⟨hcrc', hcount'⟩ := hcheck hcrc
        split
        · next hlast =>
          -- the check symbol of the group follows
          refine .inr ⟨hcrc, by rw [hcount', hin.sameCount, hlast], hin.whole_rest hlast, ?_⟩
          rw [hcrc', hin.sameCrc]
        · next hmore => exact .inl ⟨_, _, fun _ => hin.next hmore ⟨hcrc', hcount'⟩, rfl⟩
  · obtain ⟨rfl, rfl⟩ := List.cons.inj hys
    exact ⟨_, decodeFrom_check hcrc hdue, len, i, ⟨hwhole, hout, hwritten⟩,
      .inl ⟨0, 0, fun _ => .start hcrc hgroups ⟨rfl, rfl⟩, rfl⟩⟩

/-- The symbols up to any place are read, whatever follows them. -/
theorem read (hroom : srclenBits ≤ destlenBits) (h : Reading src srclenBits every destlenBits (front ++ ys) d) :
    ∃ d', (∀ text, decodeFrom destlenBits every (front.map base32Char ++ text) d = decodeFrom destlenBits every text d') ∧
      Reading src srclenBits every destlenBits ys d' := by
  induction front generalizing d with
  | nil => exact ⟨d, fun _ => rfl, h⟩
  | cons x front ih =>
    obtain ⟨d₁, hfirst, hreading⟩ := h.next hroom
    obtain ⟨d₂, hrest, hbehind⟩ := ih hreading
    exact ⟨d₂, fun text => (hfirst _).trans (hrest text), hbehind⟩

/-- At the end there is no group without its check symbol. -/
theorem finish (h : Reading src srclenBits every destlenBits [] d) :
    Base32.finish every d = (((min destlenBits (5 * ((srclenBits + 4) / 5)) : Nat) : Int), d.dest) ∧
      Written d.dest (min destlenBits (5 * ((srclenBits + 4) / 5))) (paddedBit src srclenBits) := by
  obtain ⟨len, i, ⟨hwhole, hout, hwritten⟩, ⟨crc, crcCount, hsync, hys⟩ | ⟨-, -, -, hys⟩⟩ := h
  · cases len with
    | zero =>
      rw [← hwhole, Nat.mul_zero, Nat.add_zero, ← hout, Base32.finish, if_neg (InStep.no_partial_group hsync)]
      exact ⟨rfl, hwritten⟩
    | succ len =>
      rw [List.range'_succ, symbols_cons] at hys
      cases hys
  · cases hys

end Reading

/-! ### Spaces and dashes -/

/-- The characters that are not skipped. -/
def kept (c : UInt8) : Bool := !(isspace c || c == dash)

theorem decodeFrom_filter (text : List UInt8) (d : Decoding) :
    decodeFrom destlenBits every text d = decodeFrom destlenBits every (text.filter kept) d := by
  induction text generalizing d with
  | nil => rfl
  | cons c text ih =>
    rw [decodeFrom]
    by_cases hskip : (isspace c || c == dash) = true
    · rw [if_pos hskip, List.filter_cons_of_neg (by rw [kept, hskip]; decide), ih]
    · rw [if_neg hskip, List.filter_cons_of_pos (by rw [kept, Bool.eq_false_iff.mpr hskip]; rfl), decodeFrom, if_neg hskip]
      cases decodeSym c with
      | none => rfl
      | some sym =>
        simp only [← ih]

def islower (c : UInt8) : Bool := 97 ≤ c && c ≤ 122

theorem lower_ne {c k : UInt8} (h : islower c = true) (hk : k < 97) : (c == k) = false := by
  have hc : 97 ≤ c := of_decide_eq_true (Bool.and_eq_true_iff.mp h).1
  refine beq_eq_false_iff_ne.mpr fun heq => ?_
  rw [heq] at hc
  exact absurd hc (UInt8.not_le.mpr hk)

theorem decodeSym_lower {c : UInt8} (h : islower c = true) : decodeSym c = none := by
  have hmap : ∀ sym, base32Char sym < 97 := by decide
  rw [decodeSym, List.find?_eq_none]
  intro sym _ heq
  rw [beq_iff_eq] at heq
  exact absurd (lower_ne h (hmap sym)) (by rw [heq, beq_self_eq_true]; decide)

theorem kept_lower {c : UInt8} (h : islower c = true) : (isspace c || c == dash) = false := by
  simp only [isspace, dash, lower_ne h (show 32 < 97 by decide), lower_ne h (show 9 < 97 by decide),
    lower_ne h (show 13 < 97 by decide), lower_ne h (show 10 < 97 by decide), lower_ne h (show 45 < 97 by decide),
    Bool.or_self]

theorem base32Encode_groups {destlenChars : Nat} (hgroups : every ∣ (srclenBits + 4) / 5 ∨ every = 0)
    (hchars : (srclenBits + 4) / 5 + (srclenBits + 4) / 5 / every < destlenChars) :
    base32Encode src srclenBits every destlenChars =
      (.success, (symbols src srclenBits every (starts srclenBits) 0 0).map base32Char) := by
  have hwhole : ¬(every ≠ 0 ∧ (srclenBits + 4) / 5 % every ≠ 0) := by
    rintro ⟨hcrc, hpartial⟩
    exact hpartial (Nat.mod_eq_zero_of_dvd (hgroups.resolve_right hcrc))
  have hneeded : (if every ≠ 0 then (srclenBits + 4) / 5 + (srclenBits + 4) / 5 / every else (srclenBits + 4) / 5) =
      (srclenBits + 4) / 5 + (srclenBits + 4) / 5 / every := by
    split
    · rfl
    · next hplain => simp [not_not.mp hplain]
  rw [base32Encode, if_neg hwhole]
  simp only [hneeded, if_neg (show ¬destlenChars < (srclenBits + 4) / 5 + (srclenBits + 4) / 5 / every + 1 by omega),
    encodeFrom_eq]

theorem decode_symbols (hgroups : every ∣ (srclenBits + 4) / 5 ∨ every = 0) (hroom : srclenBits ≤ destlenBits)
    {spaced : List UInt8} (dest : Nat → UInt8)
    (hspaced : spaced.filter kept = (symbols src srclenBits every (starts srclenBits) 0 0).map base32Char) :
    (base32Decode dest destlenBits spaced every).1 = min destlenBits (5 * ((srclenBits + 4) / 5)) ∧
      ∀ j < srclenBits, bitAt (base32Decode dest destlenBits spaced every).2 j = bitAt src j := by
  have hstart : Reading src srclenBits every destlenBits _ ⟨0, 0, 0, dest⟩ := .start hgroups dest
  rw [← List.append_nil (symbols _ _ _ _ _ _)] at hstart
  obtain ⟨d, hread, hreading⟩ := hstart.read hroom
  obtain ⟨hfinish, hwritten⟩ := hreading.finish
  have hdecoded := hread []
  rw [List.append_nil, decodeFrom, hfinish] at hdecoded
  rw [base32Decode, decodeFrom_filter, hspaced, hdecoded]
  refine ⟨by push_cast; rfl, ?_⟩
  intro j hj
  rw [hwritten.bits j (by omega), paddedBit, decide_eq_true hj, Bool.true_and]

theorem decode_lower (hgroups : every ∣ (srclenBits + 4) / 5 ∨ every = 0) (hroom : srclenBits ≤ destlenBits)
    {front : List UInt8} {c : UInt8} (rest : List UInt8) (dest : Nat → UInt8)
    (hfront : front.filter kept <+: (symbols src srclenBits every (starts srclenBits) 0 0).map base32Char)
    (hlower : islower c = true) : (base32Decode dest destlenBits (front ++ c :: rest) every).1 = -1 := by
  obtain ⟨back, hback⟩ := hfront
  obtain ⟨xs, ys, hxy, hxs, -⟩ := List.map_eq_append_iff.mp hback.symm
  have hstart : Reading src srclenBits every destlenBits _ ⟨0, 0, 0, dest⟩ := .start hgroups dest
  rw [hxy] at hstart
  obtain ⟨d, hread, -⟩ := hstart.read hroom
  have hkept : kept c = true := by rw [kept, kept_lower hlower]; rfl
  rw [base32Decode, decodeFrom_filter, List.filter_append, List.filter_cons_of_pos hkept, ← hxs, hread, decodeFrom,
    kept_lower hlower, if_neg Bool.false_ne_true, decodeSym_lower hlower]

/-- A text with whole groups that there is room for is encoded, and decoded again, whatever spaces and dashes are put
into it: to as many bits as the symbols have or the destination has room for, the first of which are those encoded. If
after any part of it a letter in lower case follows, it is refused. -/
theorem round_trip {destlenChars : Nat} (hgroups : every ∣ (srclenBits + 4) / 5 ∨ every = 0)
    (hchars : (srclenBits + 4) / 5 + (srclenBits + 4) / 5 / every < destlenChars) (hroom : srclenBits ≤ destlenBits) :
    ∃ text, base32Encode src srclenBits every destlenChars = (.success, text) ∧
      (∀ (spaced : List UInt8) (dest : Nat → UInt8), spaced.filter kept = text →
        (base32Decode dest destlenBits spaced every).1 = min destlenBits (5 * ((srclenBits + 4) / 5)) ∧
          ∀ j < srclenBits, bitAt (base32Decode dest destlenBits spaced every).2 j = bitAt src j) ∧
      ∀ (front rest : List UInt8) (c : UInt8) (dest : Nat → UInt8), front.filter kept <+: text → islower c = true →
        (base32Decode dest destlenBits (front ++ c :: rest) every).1 = -1 := by
  refine ⟨_, base32Encode_groups hgroups hchars, ?_, ?_⟩
  · intro spaced dest hspaced
    exact decode_symbols hgroups hroom dest hspaced
  · intro front rest c dest hfront hlower
    exact decode_lower hgroups hroom rest dest hfront hlower

end

def deadBeef : Nat → UInt8 := fun i => [0xde, 0xad, 0xbe, 0xef].getD i 0

/-- 28 bits in three groups with their check symbols, a space and dashes between them, and a `y` behind the first. -/
theorem round_trip_deadBeef :
    (base32Decode (fun _ => 0) 32 [53, 52, 45, 75, 32, 89, 53, 65, 45, 55, 50, 66] 2).1 = 30 ∧
      (∀ j < 28, bitAt (base32Decode (fun _ => 0) 32 [53, 52, 45, 75, 32, 89, 53, 65, 45, 55, 50, 66] 2).2 j =
        bitAt deadBeef j) ∧
      (base32Decode (fun _ => 0) 32 [53, 52, 45, 75, 32, 121, 53, 65] 2).1 = -1 := by
  obtain ⟨text, htext, hdecoded, hlower⟩ :=
    @round_trip deadBeef 28 2 32 10 (.inl (by decide)) (by decide) (by decide)
  have hgroups : base32Encode deadBeef 28 2 10 = (.success, [53, 52, 75, 89, 53, 65, 55, 50, 66]) := by decide
  obtain rfl : [53, 52, 75, 89, 53, 65, 55, 50, 66] = text := congrArg Prod.snd (hgroups.symm.trans htext)
  obtain ⟨hlength, hbits⟩ := hdecoded [53, 52, 45, 75, 32, 89, 53, 65, 45, 55, 50, 66] (fun _ => 0) (by decide)
  exact ⟨hlength, hbits, hlower [53, 52, 45, 75, 32] [53, 65] 121 (fun _ => 0) (by decide) (by decide)⟩

/-- `Z` is encoded, and `z` is not decoded. -/
theorem lower_case_refused :
    base32Encode (fun _ => 0xb8) 5 0 2 = (.success, [90]) ∧ (base32Decode (fun _ => 0) 5 [122] 0).1 = -1 := by
  decide

/-! ## The bytes of the source -/

/-- The indices of `src` that one turn of the loop reads. -/
def symReads (srclenBits i : Nat) : List Nat :=
  if i % 8 ≤ 3 then [i / 8]
  else if i + 1 < srclenBits then [i / 8, i / 8 + 1]
  else [i / 8]

/-- The checks in front of the loop: whole groups, and space for the symbols and the NUL. -/
def Fits (srclenBits every destlenChars : Nat) : Prop :=
  ¬(every ≠ 0 ∧ (srclenBits + 4) / 5 % every ≠ 0) ∧
    (if every ≠ 0 then (srclenBits + 4) / 5 + (srclenBits + 4) / 5 / every else (srclenBits + 4) / 5) + 1 ≤ destlenChars

instance decidableFits (srclenBits every destlenChars : Nat) : Decidable (Fits srclenBits every destlenChars) :=
  inferInstanceAs (Decidable (_ ∧ _))

/-- The indices of `src` that `base32_encode` reads. -/
def encodeReads (srclenBits every destlenChars : Nat) : List Nat :=
  if Fits srclenBits every destlenChars then (starts srclenBits).flatMap (symReads srclenBits) else []

section

variable {src src' : Nat → UInt8} {srclenBits every destlenChars i : Nat}

theorem symbols_congr {is : List Nat} (h : ∀ i ∈ is, rawSym src' srclenBits i = rawSym src srclenBits i) (crc : Sym)
    (crcCount : Nat) : symbols src' srclenBits every is crc crcCount = symbols src srclenBits every is crc crcCount := by
  have hmap : is.map (symAt src' srclenBits) = is.map (symAt src srclenBits) :=
    List.map_congr_left fun i hi => Fin.ext (h i hi)
  rw [symbols, symbols, hmap]

theorem mem_starts : i ∈ starts srclenBits ↔ i % 5 = 0 ∧ i < srclenBits := by
  rw [starts, List.mem_range']
  constructor
  · rintro ⟨t, ht, rfl⟩
    omega
  · rintro ⟨hstep, hlt⟩
    exact ⟨i / 5, by omega, by omega⟩

theorem encode_congr (h : ∀ i ∈ starts srclenBits, rawSym src' srclenBits i = rawSym src srclenBits i) :
    base32Encode src' srclenBits every destlenChars = base32Encode src srclenBits every destlenChars := by
  simp only [base32Encode, encodeFrom_eq, symbols_congr h]

theorem base32Encode_congr (h : ∀ j < srclenBits, bitAt src' j = bitAt src j) :
    base32Encode src' srclenBits every destlenChars = base32Encode src srclenBits every destlenChars := by
  refine encode_congr fun i hi => ?_
  have hlt : i < srclenBits := (mem_starts.mp hi).2
  refine eq_of_msb (show _ < 2 ^ 5 from rawSym_lt src' srclenBits i) (rawSym_lt src srclenBits i) ?_
  intro k hk
  have hsym (u : Nat → UInt8) : msb 5 (rawSym u srclenBits i) k = (decide (i + k < srclenBits) && bitAt u (i + k)) :=
    msb_symAt hlt hk
  rw [hsym, hsym]
  by_cases hin : i + k < srclenBits
  · rw [h (i + k) hin]
  · rw [decide_eq_false hin, Bool.false_and, Bool.false_and]

/-- The symbol at `i` is made of the byte of its first bit, and of the next one where the symbol has a second bit. -/
theorem mem_symReads {a : Nat} :
    a ∈ symReads srclenBits i ↔ a = i / 8 ∨ a = i / 8 + 1 ∧ 3 < i % 8 ∧ i + 1 < srclenBits := by
  rw [symReads]
  split
  · simp only [List.mem_singleton]
    omega
  · split
    · simp only [List.mem_cons, List.not_mem_nil, or_false]
      omega
    · simp only [List.mem_singleton]
      omega

/-- The lengths, modulo 40, whose last symbol has two bits or more, but none in the next byte that it asks for. -/
def overread : List Nat := [7, 8, 22, 23, 24, 32]

theorem reads_inside_iff :
    (∀ i ∈ starts srclenBits, ∀ a ∈ symReads srclenBits i, a < (srclenBits + 7) / 8) ↔ srclenBits % 40 ∉ overread := by
  have hresidue : srclenBits % 40 ∉ overread ↔ ¬(srclenBits % 40 = 7 ∨ srclenBits % 40 = 8 ∨ srclenBits % 40 = 22 ∨
      srclenBits % 40 = 23 ∨ srclenBits % 40 = 24 ∨ srclenBits % 40 = 32) := by
    simp only [overread, List.mem_cons, List.not_mem_nil, or_false]
  rw [hresidue]
  constructor
  · intro h hbad
    -- the last symbol asks for the byte behind the end
    obtain ⟨i, hi⟩ : ∃ i, i = 5 * ((srclenBits - 1) / 5) := ⟨_, rfl⟩
    have hlast : i ∈ starts srclenBits := mem_starts.mpr ⟨by omega, by omega⟩
    have hread := h i hlast (i / 8 + 1) (mem_symReads.mpr (.inr ⟨rfl, by omega, by omega⟩))
    omega
  · intro h i hi a ha
    obtain ⟨hstep, hlt⟩ := mem_starts.mp hi
    rcases mem_symReads.mp ha with rfl | ⟨rfl, hoffs, hnext⟩
    · omega
    · -- the places of the symbols that go over into the next byte
      have hplace : i % 40 = 5 ∨ i % 40 = 15 ∨ i % 40 = 20 ∨ i % 40 = 30 := by omega
      rcases hplace with hplace | hplace | hplace | hplace <;> omega

end

/-- Only the bytes with bits to encode are read, and only these bits have a part in the text. -/
structure SourceBounds (src : Nat → UInt8) (srclenBits every destlenChars : Nat) : Prop where
  reads : ∀ a ∈ encodeReads srclenBits every destlenChars, a < (srclenBits + 7) / 8
  bits : ∀ src', (∀ j < srclenBits, bitAt src' j = bitAt src j) →
    base32Encode src' srclenBits every destlenChars = base32Encode src srclenBits every destlenChars

theorem sourceBounds_iff (src : Nat → UInt8) (srclenBits every destlenChars : Nat) :
    SourceBounds src srclenBits every destlenChars ↔
      ¬Fits srclenBits every destlenChars ∨ srclenBits % 40 ∉ overread := by
  have hbits : ∀ src', (∀ j < srclenBits, bitAt src' j = bitAt src j) →
      base32Encode src' srclenBits every destlenChars = base32Encode src srclenBits every destlenChars :=
    fun _ h => base32Encode_congr h
  by_cases hfits : Fits srclenBits every destlenChars
  · have hreads : (∀ a ∈ encodeReads srclenBits every destlenChars, a < (srclenBits + 7) / 8) ↔
        srclenBits % 40 ∉ overread := by
      rw [encodeReads, if_pos hfits, ← reads_inside_iff]
      simp only [List.mem_flatMap, forall_exists_index, and_imp]
      exact ⟨fun h i hi a ha => h a i hi ha, fun h a i hi ha => h i hi a ha⟩
    constructor
    · exact fun h => .inr (hreads.mp h.reads)
    · exact fun h => ⟨hreads.mpr (h.resolve_left (not_not.mpr hfits)), hbits⟩
  · have hnone : encodeReads srclenBits every destlenChars = [] := if_neg hfits
    refine ⟨fun _ => .inl hfits, fun _ => ⟨?_, hbits⟩⟩
    rw [hnone]
    exact fun _ ha => absurd ha List.not_mem_nil

/-- One byte is encoded, and the second one read. -/
theorem second_byte_read : ¬SourceBounds (fun _ => 0) 8 0 3 := by
  intro h
  exact absurd (h.reads 1 (by decide)) (by decide)

end ChromeEc.Base32
