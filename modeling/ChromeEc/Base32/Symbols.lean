import Mathlib.Data.Nat.Bitwise
import ChromeEc.Base32.Model
import ChromeEc.Lib.CheckSymbol

/- Base32 text as symbols.

  The encoder maps the symbols of the bits to characters, after it has put the check symbols
  between them (`encodeFrom_eq`). The decoder accepts no text whose check symbols are wrong
  (`checked_of_decodeFrom`); where there is no space left in the destination it gives up within
  a group, and so does not accept the text either.

  `crc5_sym` is linear, and the symbols that it leaves or only negates are 0 alone. From that
  comes what `Lib.CheckSymbol` asks of a step (`crc5Sym_telling`), and with it that the decoder
  refuses every text with one wrong symbol, or with two neighbours that have changed places
  (`typos_refused`). -/
namespace ChromeEc.Base32
open Lib

/-! ## Encoded text -/

section

variable {src : Nat → UInt8} {srclenBits addCrcEvery destlenChars : Nat}

def symbols (src : Nat → UInt8) (srclenBits addCrcEvery : Nat) (is : List Nat) (crc : Sym) (crcCount : Nat) : List Sym :=
  if addCrcEvery = 0 then is.map (symAt src srclenBits)
  else protect crc5Sym 0 addCrcEvery (is.map (symAt src srclenBits)) crc crcCount

@[simp] theorem symbols_nil (crc : Sym) (crcCount : Nat) : symbols src srclenBits addCrcEvery [] crc crcCount = [] := by
  rw [symbols]
  split <;> rfl

theorem symbols_cons (i : Nat) (is : List Nat) (crc : Sym) (crcCount : Nat) :
    symbols src srclenBits addCrcEvery (i :: is) crc crcCount =
      symAt src srclenBits i ::
        if addCrcEvery = 0 then symbols src srclenBits addCrcEvery is crc crcCount
        else if crcCount + 1 = addCrcEvery then
          crc5Sym (symAt src srclenBits i) crc :: symbols src srclenBits addCrcEvery is 0 0
        else symbols src srclenBits addCrcEvery is (crc5Sym (symAt src srclenBits i) crc) (crcCount + 1) := by
  by_cases hplain : addCrcEvery = 0
  · simp only [symbols, if_pos hplain, List.map_cons]
  · simp only [symbols, if_neg hplain, List.map_cons, protect]
    split <;> rfl

theorem encodeFrom_eq (is : List Nat) (crc : Sym) (crcCount : Nat) :
    encodeFrom src srclenBits addCrcEvery is crc crcCount =
      (symbols src srclenBits addCrcEvery is crc crcCount).map base32Char := by
  induction is generalizing crc crcCount with
  | nil => rw [encodeFrom, symbols_nil, List.map_nil]
  | cons i is ih =>
    rw [encodeFrom, symbols_cons, List.map_cons]
    by_cases hplain : addCrcEvery = 0
    · simp only [if_pos hplain, ih]
    · simp only [if_neg hplain, ih]
      split <;> rfl

/-- What an encoder that succeeds has written, and what it has checked before. -/
theorem encoded_eq {text : List UInt8} (h : base32Encode src srclenBits addCrcEvery destlenChars = (.success, text)) :
    text = (symbols src srclenBits addCrcEvery (starts srclenBits) 0 0).map base32Char ∧
      (addCrcEvery ≠ 0 → addCrcEvery ∣ (starts srclenBits).length) := by
  rw [base32Encode] at h
  by_cases hgroups : addCrcEvery ≠ 0 ∧ (srclenBits + 4) / 5 % addCrcEvery ≠ 0
  · rw [if_pos hgroups] at h
    cases (Prod.mk.inj h).1
  · rw [if_neg hgroups] at h
    dsimp only at h
    generalize (if addCrcEvery ≠ 0 then (srclenBits + 4) / 5 + (srclenBits + 4) / 5 / addCrcEvery
      else (srclenBits + 4) / 5) =
      needed at h
    by_cases hsmall : destlenChars < needed + 1
    · rw [if_pos hsmall] at h
      cases (Prod.mk.inj h).1
    · rw [if_neg hsmall] at h
      rw [← encodeFrom_eq, (Prod.mk.inj h).2]
      refine ⟨rfl, ?_⟩
      intro hcrc
      rw [starts, List.length_range']
      by_contra hpartial
      exact hgroups ⟨hcrc, fun hzero => hpartial (Nat.dvd_of_mod_eq_zero hzero)⟩

theorem checked_symbols (src : Nat → UInt8) (hcrc : addCrcEvery ≠ 0) (hwhole : addCrcEvery ∣ (starts srclenBits).length) :
    checked crc5Sym 0 addCrcEvery (symbols src srclenBits addCrcEvery (starts srclenBits) 0 0) 0 0 = true := by
  rw [symbols, if_neg hcrc]
  refine checked_protect (Nat.pos_of_ne_zero hcrc) ?_
  rwa [List.length_map, Nat.zero_add]

end

/-! ## Decoded text -/

section

variable {destlenBits crcAfterEvery : Nat} {d : Decoding}

@[simp] theorem putSym_crc (sym : Sym) : (putSym destlenBits sym d).crc = d.crc := by
  simp only [putSym]
  split <;> rfl

@[simp] theorem putSym_crcCount (sym : Sym) : (putSym destlenBits sym d).crcCount = d.crcCount := by
  simp only [putSym]
  split <;> rfl

theorem decodeFrom_symbol (sym : Sym) (text : List UInt8) :
    decodeFrom destlenBits crcAfterEvery (base32Char sym :: text) d =
      if crcAfterEvery ≠ 0 ∧ d.crcCount = crcAfterEvery then
        if d.crc ≠ sym then (-1, d.dest) else decodeFrom destlenBits crcAfterEvery text { d with crcCount := 0, crc := 0 }
      else
        let d := if crcAfterEvery ≠ 0 then { d with crc := crc5Sym sym d.crc, crcCount := d.crcCount + 1 } else d
        if destlenBits ≤ d.outBits then finish crcAfterEvery d
        else decodeFrom destlenBits crcAfterEvery text (putSym destlenBits sym d) := by
  rw [decodeFrom, base32Char_kept, if_neg Bool.false_ne_true, decodeSym_base32Char]

theorem checked_of_decodeFrom (hcrc : crcAfterEvery ≠ 0) {xs : List Sym}
    (h : (decodeFrom destlenBits crcAfterEvery (xs.map base32Char) d).1 ≠ -1) :
    checked crc5Sym 0 crcAfterEvery xs d.crc d.crcCount = true := by
  induction xs generalizing d with
  | nil =>
    rw [List.map_nil, decodeFrom, finish] at h
    by_cases hcount : d.crcCount = 0
    · rw [checked, beq_iff_eq]
      exact hcount
    · rw [if_pos ⟨hcrc, hcount⟩] at h
      exact absurd rfl h
  | cons x xs ih =>
    rw [List.map_cons, decodeFrom_symbol] at h
    by_cases hend : d.crcCount = crcAfterEvery
    · rw [if_pos ⟨hcrc, hend⟩] at h
      by_cases hx : d.crc = x
      · rw [if_neg (not_not.mpr hx)] at h
        rw [hend, checked_end]
        exact ⟨hx, ih h⟩
      · rw [if_pos hx] at h
        exact absurd rfl h
    · rw [if_neg (fun hboth => hend hboth.2), if_pos hcrc] at h
      rw [checked_inside hend]
      dsimp only at h
      split at h
      · -- there is no space left, and the group has begun
        rw [finish, if_pos ⟨hcrc, Nat.succ_ne_zero _⟩] at h
        exact absurd rfl h
      · have hrest := ih h
        rwa [putSym_crc, putSym_crcCount] at hrest

end

/-! ## The step -/

theorem crc5_xor (a b : Sym) : crc5 (a.val ^^^ b.val) = crc5 a.val ^^^ crc5 b.val := by
  revert a b
  decide +kernel

theorem crc5_eq_zero (a : Sym) : crc5 a.val = 0 → a = 0 := by
  revert a
  decide

theorem crc5_fixed (a : Sym) : crc5 a.val = a.val → a = 0 := by
  revert a
  decide

def diff (a b : Sym) : Sym := ⟨a.val ^^^ b.val, Nat.xor_lt_two_pow (n := 5) a.isLt b.isLt⟩

theorem eq_of_diff {a b : Sym} (h : diff a b = 0) : a = b :=
  Fin.ext (Nat.xor_eq_zero_iff.mp (congrArg Fin.val h))

theorem crc5_injective {a b : Sym} (h : crc5 a.val = crc5 b.val) : a = b := by
  refine eq_of_diff (crc5_eq_zero _ ?_)
  rw [diff, crc5_xor, h, Nat.xor_self]

theorem xor_swap {a b c d : Nat} (h : a ^^^ b = c ^^^ d) : b ^^^ d = a ^^^ c := by
  calc b ^^^ d = a ^^^ (a ^^^ b) ^^^ d := by rw [← Nat.xor_assoc, Nat.xor_self, Nat.zero_xor]
    _ = a ^^^ (c ^^^ d) ^^^ d := by rw [h]
    _ = a ^^^ c := by rw [Nat.xor_assoc, Nat.xor_assoc, Nat.xor_self, Nat.xor_zero]

theorem eq_of_crc5_xor {x y : Sym} (h : crc5 x.val ^^^ crc5 y.val = x.val ^^^ y.val) : x = y := by
  refine eq_of_diff (crc5_fixed _ ?_)
  rw [diff, crc5_xor, h]

theorem crc5Sym_telling : Telling crc5Sym where
  symbol := by
    intro x y c h
    have heq : diff x c = diff y c := crc5_injective (congrArg Fin.val h)
    exact Fin.ext (Nat.xor_left_injective (congrArg Fin.val heq))
  crc := by
    intro x c d h
    have heq : diff x c = diff x d := crc5_injective (congrArg Fin.val h)
    exact Fin.ext (Nat.xor_right_injective (congrArg Fin.val heq))
  order := by
    intro x y c h
    have heq : diff y (crc5Sym x c) = diff x (crc5Sym y c) := crc5_injective (congrArg Fin.val h)
    have hval : y.val ^^^ crc5 (x.val ^^^ c.val) = x.val ^^^ crc5 (y.val ^^^ c.val) := congrArg Fin.val heq
    rw [crc5_xor, crc5_xor, ← Nat.xor_assoc, ← Nat.xor_assoc] at hval
    refine eq_of_crc5_xor ?_
    rw [xor_swap (Nat.xor_left_injective hval), Nat.xor_comm]
  check := by
    intro x y c hx hy
    have hx' : crc5 (x.val ^^^ c.val) = y.val := congrArg Fin.val hx
    have hy' : crc5 (y.val ^^^ c.val) = x.val := congrArg Fin.val hy
    rw [crc5_xor] at hx' hy'
    have hxc : crc5 x.val = y.val ^^^ crc5 c.val := by rw [← hx', Nat.xor_xor_cancel_right]
    have hyc : crc5 y.val = crc5 c.val ^^^ x.val := by rw [← hy', Nat.xor_comm, Nat.xor_xor_cancel_right]
    refine eq_of_crc5_xor ?_
    rw [hxc, hyc, Nat.xor_assoc, Nat.xor_xor_cancel_left, Nat.xor_comm]

/-! ## Typing errors -/

section

variable {src dest : Nat → UInt8} {srclenBits addCrcEvery destlenChars destlenBits : Nat} {text : List UInt8}

/-- An encoded text with check symbols in which one symbol is another one of the alphabet, or two different neighbours
have changed places, is not decoded, whatever space there is. -/
theorem typos_refused (hcrc : 1 ≤ addCrcEvery)
    (hencoded : base32Encode src srclenBits addCrcEvery destlenChars = (.success, text)) :
    (∀ p x t y, text = p ++ x :: t → y ∈ base32Map → y ≠ x →
      (base32Decode dest destlenBits (p ++ y :: t) addCrcEvery).1 = -1) ∧
    ∀ p x y t, text = p ++ x :: y :: t → x ≠ y →
      (base32Decode dest destlenBits (p ++ y :: x :: t) addCrcEvery).1 = -1 := by
  have hsome : addCrcEvery ≠ 0 := by omega
  obtain ⟨htext, hwhole⟩ := encoded_eq hencoded
  have hright := checked_symbols src hsome (hwhole hsome)
  rw [htext]
  refine ⟨?_, ?_⟩
  · intro p x t y hsplit hy hne
    obtain ⟨p', l', hsyms, rfl, hl⟩ := List.map_eq_append_iff.mp hsplit
    obtain ⟨x', t', rfl, rfl, rfl⟩ := List.map_eq_cons_iff.mp hl
    obtain ⟨y', rfl⟩ := mem_base32Map hy
    by_contra haccepted
    rw [← List.map_cons, ← List.map_append] at haccepted
    rw [hsyms] at hright
    exact hne (congrArg base32Char (checked_replace crc5Sym_telling (Nat.zero_le _)
      (checked_of_decodeFrom hsome haccepted) hright))
  · intro p x y t hsplit hne
    obtain ⟨p', l', hsyms, rfl, hl⟩ := List.map_eq_append_iff.mp hsplit
    obtain ⟨x', l'', rfl, rfl, hl'⟩ := List.map_eq_cons_iff.mp hl
    obtain ⟨y', t', rfl, rfl, rfl⟩ := List.map_eq_cons_iff.mp hl'
    by_contra haccepted
    rw [← List.map_cons, ← List.map_cons, ← List.map_append] at haccepted
    rw [hsyms] at hright
    exact hne (congrArg base32Char (checked_swap crc5Sym_telling (Nat.zero_le _) hright
      (checked_of_decodeFrom hsome haccepted)))

end

/-- The ten bits of `BC`, which is followed by the check symbol `4`: neither `BC5` nor `B4C` is decoded. -/
theorem typos_refused_example :
    (base32Decode (fun _ => 0) 10 [66, 67, 53] 2).1 = -1 ∧ (base32Decode (fun _ => 0) 10 [66, 52, 67] 2).1 = -1 := by
  have hencoded : base32Encode (fun k => if k = 0 then 0x08 else 0x86) 10 2 4 = (.success, [66, 67, 52]) := by decide
  have hrefused := @typos_refused _ (fun _ => 0) 10 2 4 10 _ (by decide) hencoded
  exact ⟨hrefused.1 [66, 67] 52 [] 53 rfl (by decide) (by decide), hrefused.2 [66] 67 52 [] rfl (by decide)⟩

end ChromeEc.Base32
