import ChromeEc.Lib.Numeral
import ChromeEc.Printf.Safety
import ChromeEc.Printf.Strtoi

/- What `vfnprintf` prints of a number, `strtoi` reads.

  A number is printed as its numeral, with spaces in front of its sign or zeros behind it
  (`conversionOutput_bytes`); the reader skips the spaces, finds the base, and adds up the digits, of which
  the zeros add nothing (`strtoi_decimal`, `strtoi_hex`). The sum is that of the digits taken modulo 2^32,
  which is also how the smallest `int` comes back (`print_parse`).

  A field width that is filled with spaces puts them behind the prefix of `0x%x`, where they end the
  number; so such a format is read back if it is filled with zeros, or if there is nothing to fill. -/
namespace ChromeEc.Printf
open Util Lib

/-! ## Numerals -/

def digitByte (d : Nat) : UInt8 := digitChar false (BitVec.ofNat 32 d)

def numberText (base n : Nat) : List UInt8 := (numeral base n).map digitByte

section

variable {s : Tail} {val : BitVec 64} {base : CInt} {turns : Nat}

theorem integer_text (hbase : 2 ≤ base.toNat) (hsmall : base.toNat ≤ 2 ^ 30) (h : s.str < turns)
    (hval : val.toNat < base.toNat ^ s.str) :
    Safe (fun r => r.map Tail.text = some ((Nat.digits base.toNat val.toNat).reverse.map digitByte ++ s.text))
      (integer base false turns val s) := by
  induction turns generalizing val s with
  | zero => omega
  | succ turns ih =>
    rw [integer]
    split
    · next hzero =>
      refine Safe.ok ?_
      simp [hzero]
    next hnonzero =>
    have hvalue : val.toNat ≠ 0 := fun hzero => hnonzero (BitVec.eq_of_toNat_eq (by simpa using hzero))
    have hpos : 0 < s.str := by
      refine Nat.pos_of_ne_zero ?_
      intro hzero
      rw [hzero, Nat.pow_zero] at hval
      omega
    obtain ⟨hquotient, hremainder⟩ := uint64divmod_eq val (by omega) hsmall
    have hdigit : (uint64divmod val base).2 = BitVec.ofNat 32 (val.toNat % base.toNat) := by
      rw [← hremainder, BitVec.ofNat_toNat, BitVec.setWidth_eq]
    rw [if_neg (by omega), put_eq hpos]
    refine (ih (s := ⟨s.str - 1, _⟩) (by simp only; omega) ?_).mono ?_
    · rw [hquotient]
      refine Nat.div_lt_of_lt_mul ?_
      rwa [← Nat.pow_succ', Nat.succ_eq_add_one, Nat.sub_add_cancel hpos]
    · intro r hr
      rw [hr, hquotient, digits_reverse (n := val.toNat) (by omega) hvalue, hdigit]
      simp [digitByte]

theorem uint64ToStr_text (hbase : base = 10 ∨ base = 16) :
    uint64ToStr 34 val (-1) base false = .ok (some (numberText base.toNat val.toNat)) := by
  have hrange : 2 ≤ base.toNat ∧ base.toNat ≤ 2 ^ 30 ∧ 1 < base.toInt := by obtain rfl | rfl := hbase <;> decide
  have hfit : fitPrecision 34 (-1) = some (-1) := rfl
  have hval : val.toNat < base.toNat ^ 33 := by
    refine Nat.lt_of_lt_of_le val.isLt ?_
    obtain rfl | rfl := hbase <;> decide
  unfold uint64ToStr
  rw [if_neg (by decide), if_neg (by omega), hfit]
  by_cases hzero : val = 0
  · subst hzero
    rfl
  · have hvalue : val.toNat ≠ 0 := fun h => hzero (BitVec.eq_of_toNat_eq (by simpa using h))
    have hdecimals : decimals (-1) val ⟨(34 - 1 : Int).toNat, []⟩ = .ok (val, ⟨33, []⟩) := by
      simp [decimals, fraction, putIf, show ¬val = 0#64 from hzero, bind, Except.bind]
    obtain ⟨r, hr, htext⟩ := (integer_text hrange.1 hrange.2.1 (show (⟨33, []⟩ : Tail).str < 34 by decide) hval).exists
    simp only [hdecimals, bind, Except.bind]
    rw [show (34 : Int).toNat = 34 from rfl, hr]
    simp only [htext, numberText, numeral, if_neg hvalue, List.append_nil]

end

/-! ## The format -/

/-- A field width: its digits, or an argument. -/
inductive Width where
  | digits (l : List UInt8)
  | star (w : CInt)

def Width.format : Width → List UInt8
  | .digits l => l
  | .star _ => [42]

def Width.args : Width → List CInt
  | .digits _ => []
  | .star w => [w]

/-- Its value; that of many digits wraps. -/
def Width.value : Width → CInt
  | .digits l => l.foldl (fun w b => addDigit w b.toNat) 0
  | .star w => w

/-- Digits the first of which is not 0, if there are any, with a value that `vfnprintf` takes. -/
structure Width.Ok (w : Width) : Prop where
  digits : ∀ l, w = .digits l → (∀ b ∈ l, 48 ≤ b.toNat ∧ b.toNat ≤ 57) ∧ l.head? ≠ some 48
  range : inRange w.value = true

/-- A list of arguments that are fetched as `int` or `uint32_t`. -/
def Args.ofInts (l : List CInt) : Args where
  int k := l.getD k 0
  wide _ := 0
  pointer _ := 0
  string _ := none

section

variable {c : Config} {args : Args} {k : Nat} {b b' : UInt8} {s l rest : List UInt8}

/-- A loop over characters that stops at the one after them. -/
theorem scanWhile_run {α : Type} {p : Int → Bool} {f : α → Int → α} {a : α} (h : b :: s = l ++ b' :: rest)
    (hl : ∀ x ∈ l, p (c.int x) = true) (hb' : p (c.int b') = false) :
    scanWhile c p f (c.int b) a s = .ok (c.int b', l.foldl (fun a x => f a (c.int x)) a, rest) := by
  induction l generalizing b s a with
  | nil =>
    obtain ⟨rfl, rfl⟩ := List.cons_eq_cons.mp h
    cases s <;> simp [scanWhile, hb']
  | cons x l ih =>
    obtain ⟨rfl, hs⟩ := List.cons_eq_cons.mp h
    have hx : p (c.int b) = true := hl b List.mem_cons_self
    have hrest : ∀ x ∈ l, p (c.int x) = true := fun x hx => hl x (List.mem_cons_of_mem b hx)
    cases s with
    | nil => simp at hs
    | cons b₂ s₂ => rw [scanWhile, if_pos hx, ih hs hrest, List.foldl_cons]

theorem int_digit (hb : 48 ≤ b.toNat ∧ b.toNat ≤ 57) : isDigit (c.int b) = true := by
  rw [int_ascii (by omega), isDigit, decide_eq_true_eq, show char '0' = 48 from rfl, show char '9' = 57 from rfl]
  omega

theorem numberOrStar_width {w : Width} (hw : w.Ok) (hargs : ∀ v, w = .star v → args.int k = v)
    (hconv : isDigit (c.int b') = false) (hstar : c.int b' ≠ char '*') (h : b :: s = w.format ++ b' :: rest) :
    numberOrStar c args (c.int b) k s = .ok (w.value, c.int b', k + w.args.length, rest) := by
  cases w with
  | digits l =>
    have hdigits := (hw.digits l rfl).1
    have hne : c.int b ≠ char '*' := by
      cases l with
      | nil =>
        obtain ⟨rfl, -⟩ := List.cons_eq_cons.mp h
        exact hstar
      | cons d l =>
        obtain ⟨rfl, -⟩ := List.cons_eq_cons.mp h
        have hd := hdigits b List.mem_cons_self
        exact int_ne (by omega) (show (b.toNat : Int) ≠ 42 by omega)
    have hvalue : l.foldl (fun a x => addDigit a (c.int x)) 0 = l.foldl (fun w b => addDigit w b.toNat) 0 := by
      refine List.foldl_ext _ _ _ ?_
      intro a x hx
      rw [int_ascii (by have := hdigits x hx; omega)]
    rw [Width.format] at h
    rw [numberOrStar, if_neg hne, scanWhile_run h (fun x hx => int_digit (hdigits x hx)) hconv, hvalue]
    rfl
  | star v =>
    obtain ⟨rfl, rfl⟩ := List.cons_eq_cons.mp h
    have hb : c.int 42 = char '*' := int_ascii (by decide)
    rw [numberOrStar, if_pos hb, hargs v rfl]
    rfl

end

/-! ## The value -/

/-- What is printed of an `int` behind its sign. -/
def magnitude (v : CInt) : Nat := if v.msb then 2 ^ 32 - v.toNat else v.toNat

def signOf (v : CInt) : Option Int := if v.msb then some (char '-') else none

theorem signed_eq {z : Bool} (v : CInt) :
    ∃ m, signed ⟨false, z, false, false⟩ (v.setWidth 64) = (signOf v, m) ∧ m.toNat = magnitude v := by
  have hback : (v.setWidth 64).setWidth 32 = v := by
    rw [BitVec.setWidth_setWidth_of_le v (by decide), BitVec.setWidth_eq]
  have hwide : (v.setWidth 64).toNat = v.toNat := BitVec.toNat_setWidth_of_le (by decide)
  unfold signed signOf magnitude
  simp only [hback, Bool.false_eq_true, if_false]
  cases hsign : v.msb with
  | false => exact ⟨_, rfl, hwide⟩
  | true =>
    refine ⟨_, rfl, ?_⟩
    have hge : 2 ^ 31 ≤ v.toNat := by
      rw [BitVec.msb_eq_decide, decide_eq_true_eq] at hsign
      exact hsign
    simp only [if_true]
    split
    · next hmin =>
      have hne : v.toNat ≠ 2 ^ 31 := by
        intro heq
        exact hmin (BitVec.eq_of_toNat_eq (hwide.trans heq))
      have hneg : (-v).toNat = 2 ^ 32 - v.toNat := by
        rw [BitVec.toNat_neg]
        exact Nat.mod_eq_of_lt (by omega)
      have hpos : (-v).msb = false := by
        rw [BitVec.msb_eq_decide, decide_eq_false_iff_not, hneg]
        omega
      rw [BitVec.signExtend_eq_setWidth_of_msb_false hpos, BitVec.toNat_setWidth_of_le (by decide), hneg]
    · next hmin =>
      have heq : v.setWidth 64 = 1#64 <<< 31 := not_not.mp hmin
      have hval : v.toNat = 2 ^ 31 := by
        rw [← hwide, heq]
        rfl
      rw [hwide, hval]
      decide

section

variable {c : Config} {args : Args} {σ : Type} {addchar : σ → Int → σ × Bool} {k : Nat}
  {rest : List UInt8} {ctx : σ} {z : Bool}
  {padWidth : Int}

theorem printNumber_d :
    printNumber c args addchar (char 'd') ⟨false, z, false, false⟩ padWidth (-1) k rest ctx =
      .ok (output addchar (conversionOutput c ⟨false, z, false, false⟩ padWidth (-1) (signOf (args.int k))
        (numberText 10 (magnitude (args.int k)))) rest (k + 1) ctx) := by
  obtain ⟨m, hsigned, hm⟩ := signed_eq (z := z) (args.int k)
  have hfetch : fetchValue c args (char 'd') ⟨false, z, false, false⟩ k =
      (char 'd', (args.int k).setWidth 64, 10, ⟨false, z, false, false⟩) := rfl
  have hinterpret : interpret c (char 'd') ⟨false, z, false, false⟩ ((args.int k).setWidth 64) 10 =
      some (signOf (args.int k), m, 10) := by
    rw [interpret, if_pos (.inl rfl), hsigned]
  rw [printNumber, show lengthModifier c (char 'd') ⟨false, z, false, false⟩ rest =
    .ok (some ⟨false, z, false, false⟩, char 'd', rest) from rfl]
  simp only [bind, Except.bind, hfetch, hinterpret]
  rw [show decide (char 'd' = char 'X') = false by decide, uint64ToStr_text (.inl rfl), hm]
  rfl

theorem printNumber_x :
    printNumber c args addchar (char 'x') ⟨false, z, false, false⟩ padWidth (-1) k rest ctx =
      .ok (output addchar (conversionOutput c ⟨false, z, false, false⟩ padWidth (-1) none
        (numberText 16 (args.int k).toNat)) rest (k + 1) ctx) := by
  have hfetch : fetchValue c args (char 'x') ⟨false, z, false, false⟩ k =
      (char 'x', (args.int k).setWidth 64, 10, ⟨false, z, false, false⟩) := rfl
  have hinterpret : interpret c (char 'x') ⟨false, z, false, false⟩ ((args.int k).setWidth 64) 10 =
      some (none, (args.int k).setWidth 64, 16) := rfl
  rw [printNumber, show lengthModifier c (char 'x') ⟨false, z, false, false⟩ rest =
    .ok (some ⟨false, z, false, false⟩, char 'x', rest) from rfl]
  simp only [bind, Except.bind, hfetch, hinterpret]
  rw [show decide (char 'x' = char 'X') = false by decide, uint64ToStr_text (.inr rfl),
    BitVec.toNat_setWidth_of_le (by decide)]
  rfl

theorem zeros_noted {n : Nat} {flags : Flags} :
    (List.replicate n (48 : UInt8)).foldl (fun flags _ => { flags with padZero := true }) flags =
      { flags with padZero := decide (0 < n) || flags.padZero } := by
  induction n generalizing flags with
  | zero => rfl
  | succ n ih =>
    rw [List.replicate_succ, List.foldl_cons, ih]
    simp

theorem width_head (rest : List UInt8) {w : Width} {b' : UInt8} (hw : w.Ok) (hconv : b' = 100 ∨ b' = 120) :
    ∃ f t, w.format ++ b' :: rest = f :: t ∧
      (f.toNat = 42 ∨ 49 ≤ f.toNat ∧ f.toNat ≤ 57 ∨ f.toNat = 100 ∨ f.toNat = 120) := by
  cases w with
  | digits l =>
    cases l with
    | nil =>
      refine ⟨b', rest, rfl, .inr (.inr ?_)⟩
      obtain rfl | rfl := hconv <;> decide
    | cons d l =>
      have hd := (hw.digits _ rfl).1 d List.mem_cons_self
      have hzero : d.toNat ≠ 48 := by
        intro heq
        exact (hw.digits _ rfl).2 (congrArg some (UInt8.toNat_inj.mp heq))
      exact ⟨d, l ++ b' :: rest, rfl, .inr (.inl ⟨by omega, hd.2⟩)⟩
  | star v => exact ⟨42, b' :: rest, rfl, .inl rfl⟩

theorem number_head {n : Nat} {w : Width} {b b' : UInt8} {s : List UInt8} (hw : w.Ok) (hconv : b' = 100 ∨ b' = 120)
    (h : b :: s = List.replicate n 48 ++ (w.format ++ b' :: rest)) :
    b.toNat = 42 ∨ 48 ≤ b.toNat ∧ b.toNat ≤ 57 ∨ b.toNat = 100 ∨ b.toNat = 120 := by
  obtain ⟨f, t, hhead, hf⟩ := width_head rest hw hconv
  cases n with
  | zero =>
    obtain ⟨rfl, -⟩ := List.cons_eq_cons.mp (h.trans hhead)
    omega
  | succ n =>
    obtain ⟨rfl, -⟩ := List.cons_eq_cons.mp h
    decide

theorem conversion_char {b : UInt8} (hconv : b = 100 ∨ b = 120) :
    isDigit (c.int b) = false ∧ c.int b ≠ char '*' ∧ c.int b ≠ char '.' ∧ c.int b ≠ char 's' := by
  obtain rfl | rfl := hconv
  · rw [show c.int 100 = 100 from int_ascii (by decide)]
    decide
  · rw [show c.int 120 = 120 from int_ascii (by decide)]
    decide

theorem conversion_number {n : Nat} {w : Width} {b b' : UInt8} {s : List UInt8} (hw : w.Ok)
    (hargs : ∀ v, w = .star v → args.int k = v) (hconv : b' = 100 ∨ b' = 120)
    (h : b :: s = List.replicate n 48 ++ (w.format ++ b' :: rest)) :
    conversion c args addchar (c.int b) k s ctx =
      printNumber c args addchar (c.int b') ⟨false, decide (0 < n), false, false⟩
        w.value.toInt (-1) (k + w.args.length) rest
        ctx := by
  obtain ⟨f, t, hhead, hf⟩ := width_head rest hw hconv
  have hb := number_head hw hconv h
  have hflags : decide (c.int b = char '-' ∨ c.int b = char '+') = false := by
    rw [decide_eq_false_iff_not, int_ascii (by omega), show char '-' = 45 from rfl, show char '+' = 43 from rfl]
    omega
  have hzeros : ∀ x ∈ List.replicate n (48 : UInt8), decide (c.int x = char '0') = true := by
    intro x hx
    rw [List.eq_of_mem_replicate hx, decide_eq_true_eq]
    exact int_ascii (by decide)
  have hfirst : decide (c.int f = char '0') = false := by
    rw [decide_eq_false_iff_not, int_ascii (by omega), show char '0' = 48 from rfl]
    omega
  obtain ⟨hdigit, hstar, hpoint, hs⟩ := conversion_char (c := c) hconv
  rw [hhead] at h
  rw [conversion, scanWhile_run (l := []) rfl (by simp) hflags]
  simp only [bind, Except.bind]
  rw [scanWhile_run h hzeros hfirst]
  simp only [List.foldl_nil, zeros_noted]
  rw [numberOrStar_width hw hargs hdigit hstar hhead.symm]
  simp only [hw.range, Bool.not_true, Bool.false_eq_true, if_false]
  rw [precisionField, if_neg hpoint]
  simp only [if_neg hs, Bool.or_false]

end

/-! ## The text -/

def cut (ch : Int) : UInt8 := .ofBitVec (BitVec.ofInt 8 ch)

/-- The output function that keeps what is added, as bytes. -/
def collect (out : List UInt8) (ch : Int) : List UInt8 × Bool := (out ++ [cut ch], false)

/-- The text of a number: spaces, its sign, zeros, and its digits. -/
def padded (spaces : Nat) (sign : List UInt8) (zeros : Nat) (number : List UInt8) : List UInt8 :=
  List.replicate spaces 32 ++ sign ++ List.replicate zeros 48 ++ number

def signBytes (sign : Option Int) : List UInt8 := sign.toList.map cut

section

variable {c : Config} {args : Args} {k : Nat} {out : List UInt8}

theorem cut_int (b : UInt8) : cut (c.int b) = b := by
  unfold Config.int
  split
  · exact UInt8.toBitVec_inj.mp (BitVec.ofInt_toInt (x := b.toBitVec))
  · refine UInt8.toBitVec_inj.mp ?_
    rw [cut, BitVec.ofInt_natCast]
    exact (BitVec.ofNat_toNat 8 b.toBitVec).trans (BitVec.setWidth_eq _)

theorem emit_collect (text : List Int) : emit collect text out = (out ++ text.map cut, false) := by
  induction text generalizing out with
  | nil => rw [emit, List.map_nil, List.append_nil]
  | cons ch text ih =>
    rw [emit, if_neg (by simp [collect]), ih]
    simp [collect]

theorem output_collect {text : List Int} {format : List UInt8} :
    output collect text format k out = .goOn format k (out ++ text.map cut) := by
  rw [output, emit_collect]
  rfl

/-- How many characters are added to reach the field width. -/
def fill (padWidth : Int) (sign : Option Int) (number : List UInt8) : Nat :=
  (padWidth - (if sign.isSome then (number.length : Int) + 1 else number.length)).toNat

/-- A number is put behind spaces, or behind its sign and zeros. -/
theorem conversionOutput_bytes {z : Bool} {padWidth : Int} {sign : Option Int} {number : List UInt8} :
    (conversionOutput c ⟨false, z, false, false⟩ padWidth (-1) sign number).map cut =
      padded (if z then 0 else fill padWidth sign number) (signBytes sign)
        (if z then fill padWidth sign number else 0) number := by
  have hnumber : (number.map c.int).map cut = number := by
    rw [List.map_map]
    exact (List.map_congr_left fun b _ => cut_int b).trans (List.map_id _)
  have hwhole : number.take (max (number.length : Int) padWidth).toNat = number := List.take_of_length_le (by omega)
  have hzero : cut (char '0') = 48 := by decide
  have hspace : cut (char ' ') = 32 := by decide
  unfold conversionOutput padded signBytes fill
  simp only [show (-1 : Int) < 0 by decide, if_true, Bool.false_eq_true, if_false, hwhole]
  cases z with
  | true =>
    simp only [if_true, List.map_append, List.map_replicate, hnumber, hzero, List.replicate_zero, List.nil_append]
  | false =>
    simp only [Bool.false_eq_true, if_false, List.map_append, List.map_replicate, hnumber, hspace, List.replicate_zero,
      List.append_nil]

/-! ### The run -/

theorem vfnprintf_literal {turns : Nat} {text format : List UInt8}
    (htext : ∀ b ∈ text, b.toNat < 128 ∧ b.toNat ≠ 0 ∧ b.toNat ≠ 37) :
    vfnprintf c args collect (text.length + turns) (text ++ format) k out =
      vfnprintf c args collect turns format k (out ++ text) := by
  induction text generalizing out with
  | nil => rw [List.length_nil, Nat.zero_add, List.nil_append, List.append_nil]
  | cons b text ih =>
    obtain ⟨hascii, hzero, hpercent⟩ := htext b List.mem_cons_self
    have hb : c.int b ≠ 0 := int_ne hascii (by omega)
    have hb' : c.int b ≠ char '%' := int_ne hascii (show (b.toNat : Int) ≠ 37 by omega)
    have hplain : formatChar c args collect (c.int b) k (text ++ format) out =
        .ok (.goOn (text ++ format) k (out ++ [b])) := by
      rw [formatChar, if_pos hb', output_collect, List.map_singleton, cut_int]
    rw [List.length_cons, Nat.add_right_comm, List.cons_append, vfnprintf_goOn hb hplain,
      ih fun x hx => htext x (List.mem_cons_of_mem b hx), List.append_assoc, List.singleton_append]

/-- The format `%` with zeros, a field width and a conversion character, and its terminator. -/
def numberFormat (zeros : Nat) (w : Width) (conv : UInt8) : List UInt8 :=
  37 :: (List.replicate zeros 48 ++ (w.format ++ [conv, 0]))

theorem formatChar_number {n : Nat} {w : Width} {conv : UInt8} (hw : w.Ok) (hargs : ∀ v, w = .star v → args.int 0 = v)
    (hconv : conv = 100 ∨ conv = 120) :
    formatChar c args collect (char '%') 0 (List.replicate n 48 ++ (w.format ++ [conv, 0])) out =
      printNumber c args collect (c.int conv) ⟨false, decide (0 < n), false, false⟩ w.value.toInt (-1) w.args.length [0]
        out := by
  cases hs : List.replicate n 48 ++ (w.format ++ [conv, 0]) with
  | nil => simp at hs
  | cons b s =>
    have hb := number_head hw hconv hs.symm
    have hpercent : c.int b ≠ char '%' := int_ne (by omega) (show (b.toNat : Int) ≠ 37 by omega)
    have hzero : c.int b ≠ 0 := int_ne (by omega) (by omega)
    have hc : c.int b ≠ char 'c' := int_ne (by omega) (show (b.toNat : Int) ≠ 99 by omega)
    have hnext : next c (b :: s) = .ok (c.int b, s) := rfl
    rw [formatChar, if_neg (not_not.mpr rfl), hnext]
    simp only [bind, Except.bind, if_neg hpercent, if_neg hzero, if_neg hc]
    rw [conversion_number hw hargs hconv hs.symm, Nat.zero_add]

theorem ofInts_width {w : Width} {v : CInt} :
    (∀ v', w = .star v' → (Args.ofInts (w.args ++ [v])).int 0 = v') ∧
      (Args.ofInts (w.args ++ [v])).int w.args.length = v := by
  cases w with
  | digits l =>
    refine ⟨?_, rfl⟩
    rintro v' ⟨⟩
  | star w =>
    refine ⟨?_, rfl⟩
    rintro v' ⟨⟩
    rfl

theorem printed_number {turns n : Nat} {w : Width} {v : CInt} {conv : UInt8} {sign : Option Int} {number : List UInt8}
    (hw : w.Ok) (hconv : conv = 100 ∨ conv = 120)
    (hprint : ∀ {args k z padWidth}, args.int k = v →
      printNumber c args collect (c.int conv) ⟨false, z, false, false⟩ padWidth
      (-1) k [0] out =
        .ok (output collect (conversionOutput c ⟨false, z, false, false⟩ padWidth (-1) sign number) [0] (k + 1) out)) :
    vfnprintf c (.ofInts (w.args ++ [v])) collect (turns + 2) (numberFormat n w conv) 0 out =
      .ok (false, out ++ padded (if 0 < n then 0 else fill w.value.toInt sign number) (signBytes sign)
        (if 0 < n then fill w.value.toInt sign number else 0) number) := by
  obtain ⟨hstar, hv⟩ := ofInts_width (w := w) (v := v)
  have hpercent : c.int 37 = char '%' := int_ascii (by decide)
  have hturn : formatChar c (.ofInts (w.args ++ [v])) collect (c.int 37) 0
    (List.replicate n 48 ++ (w.format ++ [conv, 0])) out =
      .ok (.goOn [0] (w.args.length + 1)
        (out ++ padded (if 0 < n then 0 else fill w.value.toInt sign number) (signBytes sign)
        (if 0 < n then fill w.value.toInt sign number else 0) number)) := by
    rw [hpercent, formatChar_number hw hstar hconv, hprint hv, output_collect, conversionOutput_bytes]
    simp only [decide_eq_true_eq]
  have hnext : next c [0] = .ok (0, []) := by
    rw [next, int_zero]
  rw [numberFormat, vfnprintf_goOn (by rw [hpercent]; decide) hturn, vfnprintf, hnext]
  rfl

theorem printed_d {turns n : Nat} {w : Width} {v : CInt} (hw : w.Ok) :
    vfnprintf c (.ofInts (w.args ++ [v])) collect (turns + 2) (numberFormat n w 100) 0 out =
      .ok (false, out ++ padded (if 0 < n then 0 else fill w.value.toInt (signOf v) (numberText 10 (magnitude v)))
        (signBytes (signOf v)) (if 0 < n then fill w.value.toInt (signOf v) (numberText 10 (magnitude v)) else 0)
        (numberText 10 (magnitude v))) := by
  refine printed_number hw (.inl rfl) fun hv => ?_
  rw [show c.int 100 = char 'd' from int_ascii (by decide), printNumber_d, hv]

theorem printed_x {turns n : Nat} {w : Width} {v : CInt} (hw : w.Ok) :
    vfnprintf c (.ofInts (w.args ++ [v])) collect (turns + 2) (numberFormat n w 120) 0 out =
      .ok (false, out ++ padded (if 0 < n then 0 else fill w.value.toInt none (numberText 16 v.toNat)) []
        (if 0 < n then fill w.value.toInt none (numberText 16 v.toNat) else 0) (numberText 16 v.toNat)) := by
  refine printed_number hw (.inr rfl) fun hv => ?_
  rw [show c.int 120 = char 'x' from int_ascii (by decide), printNumber_x, hv]

/-- `0x%x`, with zeros or a field that the digits fill. -/
theorem printed_prefix {turns n : Nat} {w : Width} {v : CInt} (hw : w.Ok)
    (hfill : 0 < n ∨ w.value.toInt ≤ (numberText 16 v.toNat).length) :
    vfnprintf c (.ofInts (w.args ++ [v])) collect (turns + 4) (48 :: 120 :: numberFormat n w 120) 0 [] =
      .ok (false, 48 :: 120 :: padded 0 [] (if 0 < n then fill w.value.toInt none (numberText 16 v.toNat) else 0)
        (numberText 16 v.toNat)) := by
  have hspaces : (if 0 < n then 0 else fill w.value.toInt none (numberText 16 v.toNat)) = 0 := by
    split
    · rfl
    · next hplain =>
      have hle := hfill.resolve_left hplain
      rw [fill, Option.isSome_none]
      simp only [Bool.false_eq_true, if_false]
      omega
  have hprefix : ∀ b ∈ ([48, 120] : List UInt8), b.toNat < 128 ∧ b.toNat ≠ 0 ∧ b.toNat ≠ 37 := by simp
  have hliteral : vfnprintf c (.ofInts (w.args ++ [v])) collect (([48, 120] : List UInt8).length + (turns + 2))
      ([48, 120] ++ numberFormat n w 120) 0 [] =
      vfnprintf c (.ofInts (w.args ++ [v])) collect (turns + 2) (numberFormat n w 120) 0 ([] ++ [48, 120]) :=
    vfnprintf_literal hprefix
  rw [printed_x hw, hspaces] at hliteral
  rw [show turns + 4 = ([48, 120] : List UInt8).length + (turns + 2) by simp; omega]
  exact hliteral

end

/-! ## Reading -/

section

variable {c : Config} {b f : UInt8} {s t : List UInt8} {base : Nat} {ds : List Nat}

theorem digitByte_toNat {d : Nat} (hd : d < 16) : (digitByte d).toNat = if d < 10 then 48 + d else 87 + d := by
  revert d
  decide

theorem int_digitByte {d : Nat} (hd : d < 16) : c.int (digitByte d) = if d < 10 then 48 + (d : Int) else 87 + d := by
  have hnat := digitByte_toNat hd
  have hlt : (digitByte d).toNat < 128 := by
    rw [hnat]
    split <;> omega
  rw [int_ascii hlt, hnat]
  split <;> rfl

theorem digitOf_digitByte {d : Nat} (hd : d < base) (hbase : base ≤ 16) :
    digitOf base (c.int (digitByte d)) = some (d : Int) := by
  rw [int_digitByte (by omega), digitOf, show char '0' = 48 from rfl,
    show char 'A' = 65 from rfl, show char 'a' = 97 from rfl]
  split
  · next hten =>
    rw [if_pos (by omega)]
    congr 1
    omega
  · next hten =>
    rw [if_neg (by omega), if_neg (by omega), if_pos (by omega)]
    congr 1
    omega

theorem addDigits (hds : ∀ d ∈ ds, d < base) (hbase : base ≤ 16) (n : Nat) :
    (ds.map digitByte).foldl (fun r x => addDigitOf base r (c.int x)) (BitVec.ofNat 32 n) =
      BitVec.ofNat 32 (ds.foldl (readDigit base) n) := by
  induction ds generalizing n with
  | nil => rfl
  | cons d ds ih =>
    have hdigit : addDigitOf base (BitVec.ofNat 32 n) (c.int (digitByte d)) = BitVec.ofNat 32 (readDigit base n d) := by
      rw [addDigitOf, digitOf_digitByte (hds d List.mem_cons_self) hbase, Option.getD_some, BitVec.ofInt_natCast,
        BitVec.ofInt_natCast, ← BitVec.ofNat_mul, ← BitVec.ofNat_add, readDigit]
    rw [List.map_cons, List.foldl_cons, List.foldl_cons, hdigit, ih fun d' hd' => hds d' (List.mem_cons_of_mem d hd')]

theorem readDigits (hds : ∀ d ∈ ds, d < base) (hbase : base ≤ 16) (hs : b :: s = ds.map digitByte ++ [0]) :
    scanWhile c (fun ch => ch ≠ 0 && (digitOf base ch).isSome) (addDigitOf base) (c.int b) 0 s =
      .ok (0, BitVec.ofNat 32 (ds.foldl (readDigit base) 0), []) := by
  have hdigit : ∀ x ∈ ds.map digitByte, (decide (c.int x ≠ 0) && (digitOf base (c.int x)).isSome) = true := by
    intro x hx
    obtain ⟨d, hd, rfl⟩ := List.mem_map.mp hx
    have hlt := hds d hd
    rw [digitOf_digitByte hlt hbase, int_digitByte (by omega)]
    simp only [ne_eq, Option.isSome_some, Bool.and_true, decide_not, Bool.not_eq_true', decide_eq_false_iff_not]
    split <;> omega
  have hend : (decide (c.int 0 ≠ 0) && (digitOf base (c.int 0)).isSome) = false := by
    rw [int_zero]
    rfl
  rw [scanWhile_run hs hdigit hend, int_zero]
  exact congrArg (fun r => Except.ok (0, r, [])) (addDigits hds hbase 0)

theorem skipSpaces_run {n : Nat} (hf : isspace (c.int f) = false) :
    skipSpaces c (List.replicate n 32 ++ f :: t) = .ok (c.int f, t) := by
  cases hs : List.replicate n 32 ++ f :: t with
  | nil => simp at hs
  | cons b s =>
    have hspaces : ∀ x ∈ List.replicate n (32 : UInt8), isspace (c.int x) = true := by
      intro x hx
      rw [List.eq_of_mem_replicate hx, int_ascii (by decide)]
      rfl
    have hnext : next c (b :: s) = .ok (c.int b, s) := rfl
    rw [skipSpaces, hnext]
    simp only [bind, Except.bind]
    rw [scanWhile_run hs.symm hspaces hf]

theorem readSign_none (hplus : b.toNat ≠ 43) (hminus : b.toNat ≠ 45) (hascii : b.toNat < 128) :
    readSign c (c.int b) s = .ok (false, c.int b, s) := by
  rw [int_ascii hascii, readSign, show char '+' = 43 from rfl, show char '-' = 45 from rfl,
    if_neg (by omega), if_neg (by omega)]

theorem readSign_minus : readSign c (c.int 45) (b :: s) = .ok (true, c.int b, s) := by
  rw [show c.int 45 = char '-' from int_ascii (by decide)]
  rfl

theorem paddedDigits {zeros n : Nat} : List.replicate zeros 48 ++ numberText base n =
    (List.replicate zeros 0 ++ numeral base n).map digitByte := by
  rw [numberText, List.map_append, List.map_replicate]
  rfl

theorem paddedDigits_lt (zeros n : Nat) (hbase : 1 < base) : ∀ d ∈ List.replicate zeros 0 ++ numeral base n, d < base := by
  intro d hd
  obtain hzero | hnumeral := List.mem_append.mp hd
  · rw [List.eq_of_mem_replicate hzero]
    omega
  · exact numeral_lt hbase d hnumeral

theorem paddedDigits_cons (zeros n : Nat) (hbase : 1 < base) :
    ∃ d ds', List.replicate zeros 0 ++ numeral base n = d :: ds' := by
  refine List.exists_cons_of_ne_nil ?_
  simp [numeral_ne_nil hbase]

theorem strtoi_digits {nptr rest rest' : List UInt8} {base₀ ch ch' : Int} {neg : Bool}
    (hskip : skipSpaces c nptr = .ok (ch, rest)) (hsign : readSign c ch rest = .ok (neg, ch', rest'))
    (hfind : findBase c base₀ ch' rest' = .ok ((base : Int), c.int b, s)) (hs : b :: s = ds.map digitByte ++ [0])
    (hds : ∀ d ∈ ds, d < base) (hbase : base ≤ 16) :
    strtoi c nptr base₀ =
      .ok (if neg then -BitVec.ofNat 32 (ds.foldl (readDigit base) 0) else BitVec.ofNat 32 (ds.foldl (readDigit base) 0),
        nptr.length - 1) := by
  rw [strtoi, hskip]
  simp only [bind, Except.bind, hsign, hfind]
  rw [readDigits hds hbase hs]
  rfl

theorem signed_value (v : CInt) :
    (if v.msb then -BitVec.ofNat 32 (magnitude v) else BitVec.ofNat 32 (magnitude v)) = v := by
  unfold magnitude
  cases hsign : v.msb with
  | false => simp
  | true =>
    simp only [if_true]
    refine BitVec.eq_of_toNat_eq ?_
    have hge : 2 ^ 31 ≤ v.toNat := by
      rw [BitVec.msb_eq_decide, decide_eq_true_eq] at hsign
      exact hsign
    rw [BitVec.toNat_neg, BitVec.toNat_ofNat, Nat.mod_eq_of_lt (by omega), Nat.mod_eq_of_lt (by omega)]
    omega

/-- The base that is found for a decimal number: 10, or 8 for the number 0. -/
theorem findBase_decimal {base₀ : Int} {zeros m : Nat} (hbase : base₀ = 10 ∨ base₀ = 0 ∧ zeros = 0)
    (hs : b :: s = (List.replicate zeros 0 ++ numeral 10 m).map digitByte ++ [0]) :
    ∃ base : Nat, findBase c base₀ (c.int b) s = .ok ((base : Int), c.int b, s) ∧
      (∀ d ∈ List.replicate zeros 0 ++ numeral 10 m, d < base) ∧ base ≤ 16 ∧
      (List.replicate zeros 0 ++ numeral 10 m).foldl (readDigit base) 0 = m := by
  obtain rfl | ⟨rfl, rfl⟩ := hbase
  · refine ⟨10, ?_, paddedDigits_lt _ _ (by decide), by decide, read_zeros_numeral⟩
    rw [findBase, if_neg (by simp)]
    rfl
  · by_cases hm : m = 0
    · subst hm
      obtain ⟨rfl, rfl⟩ := List.cons_eq_cons.mp (show b :: s = [48, 0] from hs)
      have hzero : c.int 48 = char '0' := int_ascii (by decide)
      have hnext : next c [0] = .ok (0, []) := by rw [next, int_zero]
      refine ⟨8, ?_, by simp [numeral_zero], by decide, by simp [numeral_zero, readDigit]⟩
      rw [findBase, if_pos ⟨.inl rfl, hzero⟩, hnext]
      simp only [bind, Except.bind]
      rw [if_neg (by decide)]
      simp only [if_true, if_pos hzero]
      rfl
    · obtain ⟨d, ds', hds⟩ := paddedDigits_cons 0 m (show 1 < 10 by decide)
      have hlt : ∀ d' ∈ List.replicate 0 0 ++ numeral 10 m, d' < 10 := paddedDigits_lt _ _ (by decide)
      have hd : d ≠ 0 := numeral_head (by simpa using hds) hm
      have hd10 : d < 10 := hlt d (by rw [hds]; exact List.mem_cons_self)
      have hb : c.int b ≠ char '0' := by
        rw [hds] at hs
        obtain ⟨rfl, -⟩ := List.cons_eq_cons.mp hs
        rw [int_digitByte (by omega), if_pos hd10, show char '0' = 48 from rfl]
        omega
      refine ⟨10, ?_, hlt, by decide, read_zeros_numeral⟩
      rw [findBase, if_neg (fun h => hb h.2), if_pos rfl, if_neg hb]
      rfl

theorem digit_plain {d : Nat} (hd : d < 16) :
    (digitByte d).toNat < 128 ∧ (digitByte d).toNat ≠ 43 ∧
      (digitByte d).toNat ≠ 45 ∧ isspace (c.int (digitByte d)) = false := by
  have hnat := digitByte_toNat hd
  have hint := int_digitByte (c := c) hd
  refine ⟨?_, ?_, ?_, ?_⟩
  · rw [hnat]
    split <;> omega
  · rw [hnat]
    split <;> omega
  · rw [hnat]
    split <;> omega
  · rw [hint, isspace, show char ' ' = 32 from rfl]
    split <;> simp <;> omega

theorem length_terminated {l : List UInt8} : (l ++ [0]).length - 1 = l.length := by simp

/-- The text of a number: its spaces, its sign, and what begins with a digit. -/
theorem padded_text (zeros n : Nat) (hbase : 1 < base) :
    ∃ d t, d < base ∧ digitByte d :: t = (List.replicate zeros 0 ++ numeral base n).map digitByte ++ [0] ∧
      ∀ spaces sign, padded spaces sign zeros (numberText base n) ++ [0] =
        List.replicate spaces 32 ++ (sign ++ digitByte d :: t) := by
  obtain ⟨d, ds', hds⟩ := paddedDigits_cons zeros n hbase
  have hd := paddedDigits_lt zeros n hbase d (by rw [hds]; exact List.mem_cons_self)
  have hs : digitByte d :: (ds'.map digitByte ++ [0]) =
      (List.replicate zeros 0 ++ numeral base n).map digitByte ++ [0] := by
    rw [hds]
    rfl
  refine ⟨d, _, hd, hs, ?_⟩
  intro spaces sign
  rw [hs, ← paddedDigits, padded]
  simp only [List.append_assoc]

/-- A decimal number, with spaces in front of its sign and zeros behind it, is read as the number. -/
theorem strtoi_decimal (v : CInt) (spaces zeros : Nat) {base₀ : Int} (hbase : base₀ = 10 ∨ base₀ = 0 ∧ zeros = 0) :
    strtoi c (padded spaces (signBytes (signOf v)) zeros (numberText 10 (magnitude v)) ++ [0]) base₀ =
      .ok (v, (padded spaces (signBytes (signOf v)) zeros (numberText 10 (magnitude v))).length) := by
  obtain ⟨d, t, hd, hs, hbody⟩ := padded_text zeros (magnitude v) (show 1 < 10 by decide)
  obtain ⟨hascii, hplus, hminus, hspace⟩ := digit_plain (c := c) (show d < 16 by omega)
  obtain ⟨base, hfind, hlt, hbase', hvalue⟩ := findBase_decimal (c := c) hbase hs
  have hsigned := signed_value v
  cases hsign : v.msb with
  | false =>
    have hnone : signBytes (signOf v) = [] := by
      rw [signOf, hsign]
      rfl
    rw [hsign] at hsigned
    rw [hnone]
    rw [strtoi_digits (by rw [hbody]; exact skipSpaces_run hspace)
      (readSign_none hplus hminus hascii) hfind hs hlt hbase', hvalue, length_terminated, hsigned]
  | true =>
    have hminus' : signBytes (signOf v) = [45] := by
      rw [signOf, hsign]
      rfl
    have hspace' : isspace (c.int 45) = false := by
      rw [int_ascii (by decide)]
      rfl
    rw [hsign] at hsigned
    rw [hminus']
    rw [strtoi_digits (by rw [hbody]; exact skipSpaces_run hspace') readSign_minus hfind hs hlt hbase',
      hvalue, length_terminated, hsigned]

theorem no_prefix (hds : ∀ d ∈ ds, d < 16) (hs : b :: s = ds.map digitByte ++ [0]) (hne : ds ≠ []) :
    ∃ x t, s = x :: t ∧ c.int x ≠ char 'x' ∧ c.int x ≠ char 'X' := by
  have hchar : ∀ x ∈ ds.map digitByte ++ [0], c.int x ≠ char 'x' ∧ c.int x ≠ char 'X' := by
    intro x hx
    rw [show char 'x' = 120 from rfl, show char 'X' = 88 from rfl]
    obtain hdigit | hend := List.mem_append.mp hx
    · obtain ⟨d, hd, rfl⟩ := List.mem_map.mp hdigit
      have hlt := hds d hd
      rw [int_digitByte hlt]
      split <;> omega
    · rw [List.mem_singleton.mp hend, int_zero]
      decide
  cases s with
  | nil =>
    have hlength := congrArg List.length hs
    have hpos := List.length_pos_of_ne_nil hne
    simp only [List.length_append, List.length_map, List.length_cons, List.length_nil] at hlength
    omega
  | cons x t =>
    refine ⟨x, t, rfl, hchar x ?_⟩
    rw [← hs]
    simp

/-- A number in hex, with spaces and zeros in front of it, is read in base 16. -/
theorem strtoi_hex (v : CInt) (spaces zeros : Nat) :
    strtoi c (padded spaces [] zeros (numberText 16 v.toNat) ++ [0]) 16 =
      .ok (v, (padded spaces [] zeros (numberText 16 v.toNat)).length) := by
  obtain ⟨d, t, hd, hs, hbody⟩ := padded_text zeros v.toNat (show 1 < 16 by decide)
  obtain ⟨hascii, hplus, hminus, hspace⟩ := digit_plain (c := c) hd
  have hfind : findBase c 16 (c.int (digitByte d)) t = .ok (((16 : Nat) : Int), c.int (digitByte d), t) := by
    rw [findBase]
    split
    · obtain ⟨x, t', rfl, hx, hX⟩ := no_prefix (c := c) (paddedDigits_lt _ _ (by decide)) hs (by simp [numeral_ne_nil])
      have hnext : next c (x :: t') = .ok (c.int x, t') := rfl
      rw [hnext]
      simp only [bind, Except.bind]
      rw [if_neg (by simp [hx, hX])]
      rfl
    · rfl
  rw [strtoi_digits (by rw [hbody]; exact skipSpaces_run hspace) (readSign_none hplus hminus hascii) hfind hs
    (paddedDigits_lt _ _ (by decide)) (by decide), read_zeros_numeral, length_terminated]
  simp

/-- A number in hex with its prefix, and zeros behind it, is read in base 16 although no base is given. -/
theorem strtoi_prefix (v : CInt) (zeros : Nat) :
    strtoi c (48 :: 120 :: padded 0 [] zeros (numberText 16 v.toNat) ++ [0]) 0 =
      .ok (v, (48 :: 120 :: padded 0 [] zeros (numberText 16 v.toNat)).length) := by
  obtain ⟨d, t, hd, hs, hbody⟩ := padded_text zeros v.toNat (show 1 < 16 by decide)
  have hzero : c.int 48 = char '0' := int_ascii (by decide)
  have hx : c.int 120 = char 'x' := int_ascii (by decide)
  have htext : 48 :: 120 :: padded 0 [] zeros (numberText 16 v.toNat) ++ [0] = 48 :: 120 :: digitByte d :: t :=
    congrArg (fun l => 48 :: 120 :: l) (hbody 0 [])
  have hskip : skipSpaces c (48 :: 120 :: digitByte d :: t) = .ok (c.int 48, 120 :: digitByte d :: t) :=
    skipSpaces_run (n := 0) (by rw [hzero]; rfl)
  have hfind : findBase c 0 (c.int 48) (120 :: digitByte d :: t) = .ok (((16 : Nat) : Int), c.int (digitByte d), t) := by
    have hnext : next c (120 :: digitByte d :: t) = .ok (char 'x', digitByte d :: t) := by rw [next, hx]
    rw [findBase, if_pos ⟨.inl rfl, hzero⟩, hnext]
    rfl
  rw [← length_terminated, htext, strtoi_digits hskip (readSign_none (by decide) (by decide) (by decide)) hfind hs
    (paddedDigits_lt _ _ (by decide)) (by decide), read_zeros_numeral]
  simp

end

/-! ## Round trip -/

/-- Whatever zeros and field width are given, `%d` is printed as text that is read as the number in base 10, and `%x`
in base 16; without zeros the base of the decimal number is found; and `0x%x` is read with its base found, if it
is filled with zeros or wide enough. -/
theorem print_parse (c : Config) (v : CInt) (zeros : Nat) (w : Width) (hw : w.Ok) :
    (∃ text, (∀ turns, vfnprintf c (.ofInts (w.args ++ [v])) collect (turns + 2) (numberFormat zeros w 100) 0 [] =
        .ok (false, text)) ∧
      strtoi c (text ++ [0]) 10 = .ok (v, text.length) ∧ (zeros = 0 → strtoi c (text ++ [0]) 0 = .ok (v, text.length))) ∧
    (∃ text, (∀ turns, vfnprintf c (.ofInts (w.args ++ [v])) collect (turns + 2) (numberFormat zeros w 120) 0 [] =
        .ok (false, text)) ∧ strtoi c (text ++ [0]) 16 = .ok (v, text.length)) ∧
    (0 < zeros ∨ w.value.toInt ≤ (numberText 16 v.toNat).length →
      ∃ text, (∀ turns, vfnprintf c (.ofInts (w.args ++ [v])) collect (turns + 4)
        (48 :: 120 :: numberFormat zeros w 120) 0 [] =
        .ok (false, text)) ∧ strtoi c (text ++ [0]) 0 = .ok (v, text.length)) := by
  refine ⟨?_, ?_, ?_⟩
  · refine ⟨_, fun turns => printed_d hw, ?_, ?_⟩
    · rw [List.nil_append]
      exact strtoi_decimal v _ _ (.inl rfl)
    · rintro rfl
      rw [List.nil_append, if_neg (by decide), if_neg (by decide)]
      exact strtoi_decimal v _ 0 (.inr ⟨rfl, rfl⟩)
  · refine ⟨_, fun turns => printed_x hw, ?_⟩
    rw [List.nil_append]
    exact strtoi_hex v _ _
  · intro hfill
    exact ⟨_, fun turns => printed_prefix hw hfill, strtoi_prefix v _⟩

/-- The smallest `int` with `%012d`. -/
theorem print_parse_example :
    vfnprintf ⟨true, false, false, false⟩ (.ofInts [0x80000000]) collect 2 (numberFormat 1 (.digits [49, 50]) 100) 0 [] =
        .ok (false, [45, 48, 50, 49, 52, 55, 52, 56, 51, 54, 52, 56]) ∧
      strtoi ⟨true, false, false, false⟩
        [45, 48, 50, 49, 52, 55, 52, 56, 51, 54, 52, 56, 0] 10 = .ok (0x80000000, 12) := by
  have hw : (Width.digits [49, 50]).Ok := by
    refine ⟨?_, by decide⟩
    rintro l ⟨⟩
    exact ⟨by simp, by decide⟩
  obtain ⟨⟨text, hprint, hread, -⟩, -⟩ := print_parse ⟨true, false, false, false⟩ 0x80000000 1 (.digits [49, 50]) hw
  have htext : vfnprintf ⟨true, false, false, false⟩ (.ofInts [0x80000000]) collect 2
      (numberFormat 1 (.digits [49, 50]) 100) 0 [] = .ok (false, [45, 48, 50, 49, 52, 55, 52, 56, 51, 54, 52, 56]) := rfl
  have heq : text = [45, 48, 50, 49, 52, 55, 52, 56, 51, 54, 52, 56] :=
    (Prod.mk.inj (Except.ok.inj ((hprint 0).symm.trans htext))).2
  subst heq
  exact ⟨htext, hread⟩

end ChromeEc.Printf
