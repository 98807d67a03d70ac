import ChromeEc.Lib.Outcome
import ChromeEc.Printf.Model

/- `vfnprintf` is safe on every format.

  While a format is read, either its terminator lies ahead or it was the last character read
  (`At`). Nothing is read after the terminator, because every loop and every optional part of a
  conversion goes on only after a character of its own, and a conversion that ends in the terminator is
  a bad one, after which `ERROR` is printed in place of the rest of the format. So a turn reads no
  byte that is not there (`formatChar_safe`), and every turn but one that finds an error leaves
  less of the format (`run_format`).

  A number fits `intbuf` because the digits behind the decimal point are as many as leave space
  for it (`uint64ToStr_some`); whatever the buffer, the base and the precision, nothing is written in
  front of the buffer (`uint64ToStr_safe`). -/
namespace ChromeEc.Printf
open Util Lib

def Safe {α : Type} (post : α → Prop) (m : Except Fault α) : Prop := Outcome (fun _ => False) post m

theorem Safe.ok {α : Type} {post : α → Prop} {a : α} (h : post a) : Safe post (.ok a) := Outcome.ok h

theorem Safe.mono {α : Type} {post post' : α → Prop} {m : Except Fault α} (h : Safe post m)
    (hpost : ∀ a, post a → post' a) : Safe post' m := Outcome.mono h hpost

theorem Safe.bind {α β : Type} {post : α → Prop} {goal : β → Prop} {m : Except Fault α} {f : α → Except Fault β}
    (h : Safe post m) (hf : ∀ a, post a → Safe goal (f a)) : Safe goal (m >>= f) := Outcome.bind h hf

theorem Safe.exists {α : Type} {post : α → Prop} {m : Except Fault α} (h : Safe post m) : ∃ a, m = .ok a ∧ post a := by
  cases m with
  | ok a => exact ⟨a, rfl, h⟩
  | error e => exact h.elim

/-! ## Numbers -/

section

variable {s : Tail} {val : BitVec 64} {base : CInt} {uppercase : Bool} {turns n : Nat} {b : UInt8}

theorem put_eq (h : 0 < s.str) : put b s = .ok ⟨s.str - 1, b :: s.text⟩ := if_neg (by omega)

theorem put_safe (h : 0 < s.str) : Safe (fun s' => s'.str = s.str - 1) (put b s) := by
  rw [put_eq h]
  exact Safe.ok rfl

theorem divmod_ten (val : BitVec 64) :
    (uint64divmod val 10).1.toNat = val.toNat / 10 ∧ (uint64divmod val 10).2.toNat = val.toNat % 10 :=
  uint64divmod_eq val (by decide) (by decide)

theorem fraction_safe (h : n ≤ s.str) :
    Safe (fun r => r.1.toNat = val.toNat / 10 ^ n ∧ r.2.str = s.str - n) (fraction n val s) := by
  induction n generalizing val s with
  | zero => exact Safe.ok ⟨by simp, rfl⟩
  | succ n ih =>
    rw [fraction]
    refine (put_safe (by omega)).bind ?_
    intro s' hs'
    refine (ih (by omega)).mono ?_
    rintro r ⟨hval, hstr⟩
    refine ⟨?_, by omega⟩
    rw [hval, (divmod_ten val).1, Nat.div_div_eq_div_mul, ← Nat.pow_succ']

theorem integer_safe (h : s.str < turns) : Safe (fun _ => True) (integer base uppercase turns val s) := by
  induction turns generalizing val s with
  | zero => omega
  | succ turns ih =>
    rw [integer]
    split
    · exact Safe.ok trivial
    split
    · exact Safe.ok trivial
    next hstr =>
    refine (put_safe (by omega)).bind ?_
    intro s' hs'
    exact ih (by omega)

theorem integer_some (hbase : 2 ≤ base.toNat) (hsmall : base.toNat ≤ 2 ^ 30) (h : s.str < turns)
    (hval : val.toNat < base.toNat ^ s.str) : Safe (fun r => r ≠ none) (integer base uppercase turns val s) := by
  induction turns generalizing val s with
  | zero => omega
  | succ turns ih =>
    rw [integer]
    split
    · exact Safe.ok (by simp)
    next hnonzero =>
    have hpos : 0 < s.str := by
      refine Nat.pos_of_ne_zero ?_
      intro hzero
      rw [hzero, Nat.pow_zero] at hval
      exact hnonzero (BitVec.eq_of_toNat_eq (by simpa using hval))
    rw [if_neg (by omega)]
    refine (put_safe hpos).bind ?_
    intro s' hs'
    refine ih (by omega) ?_
    rw [(uint64divmod_eq val (by omega) hsmall).1, hs']
    refine Nat.div_lt_of_lt_mul ?_
    rwa [← Nat.pow_succ', Nat.succ_eq_add_one, Nat.sub_add_cancel hpos]

theorem fitPrecision_le {bufLen precision precision' : Int} (h : fitPrecision bufLen precision = some precision') :
    precision' ≤ bufLen - 3 := by
  unfold fitPrecision at h
  split at h
  · split at h
    · cases h
    · exact Int.le_of_eq (Option.some_inj.mp h).symm
  · have heq := Option.some_inj.mp h
    omega

/-- Where `str` is when the digits on the right of the point have been written, with the point. -/
def pointOffset (bufLen precision : Int) : Nat :=
  if precision ≥ 0 then (bufLen - 2 - precision).toNat else (bufLen - 1).toNat

theorem decimals_safe {bufLen precision : Int} (hlen : 1 < bufLen) (hfit : precision ≤ bufLen - 3) :
    Safe (fun r => r.1.toNat = val.toNat / 10 ^ precision.toNat ∧ r.2.str < bufLen.toNat ∧
        (r.1 ≠ 0 → r.2.str = pointOffset bufLen precision))
      (decimals precision val ⟨(bufLen - 1).toNat, []⟩) := by
  have hroom : precision.toNat ≤ (bufLen - 1).toNat := by omega
  have hoffset : 0 < pointOffset bufLen precision ∧ pointOffset bufLen precision < bufLen.toNat := by
    unfold pointOffset
    split <;> omega
  refine (fraction_safe hroom).bind ?_
  rintro ⟨val', s₁⟩ ⟨hval, hstr⟩
  have hpoint : Safe (fun s : Tail => s.str = pointOffset bufLen precision) (putIf (precision ≥ 0) 46 s₁) := by
    simp only at hstr
    unfold pointOffset putIf
    split
    · refine (put_safe (by omega)).mono ?_
      intro s hs
      omega
    · refine Safe.ok ?_
      omega
  refine hpoint.bind ?_
  intro s₂ hs₂
  have hdigit : Safe (fun s : Tail => s.str < bufLen.toNat ∧ (val' ≠ 0 → s.str = pointOffset bufLen precision))
      (putIf (val' = 0) 48 s₂) := by
    unfold putIf
    split
    · next hzero =>
      refine (put_safe (by omega)).mono ?_
      intro s hs
      exact ⟨by omega, fun hnonzero => absurd hzero hnonzero⟩
    · exact Safe.ok ⟨by omega, fun _ => hs₂⟩
  refine hdigit.bind ?_
  intro s₃ hs₃
  exact Safe.ok ⟨hval, hs₃⟩

/-- Nothing is written outside the buffer, whatever its length, the precision and the base. -/
theorem uint64ToStr_safe (bufLen : Int) (val : BitVec 64) (precision : Int) (base : CInt) (uppercase : Bool) :
    Safe (fun _ => True) (uint64ToStr bufLen val precision base uppercase) := by
  unfold uint64ToStr
  split
  · exact Safe.ok trivial
  split
  · exact Safe.ok trivial
  split
  · exact Safe.ok trivial
  next precision' hfit =>
  refine (decimals_safe (by omega) (fitPrecision_le hfit)).bind ?_
  rintro ⟨val', s⟩ ⟨-, hstr, -⟩
  refine (integer_safe hstr).bind ?_
  intro str _
  exact Safe.ok trivial

theorem offset_enough {precision : Int} (hbase : 10 ≤ base.toNat) (hle : precision ≤ 31) :
    val.toNat / 10 ^ precision.toNat < base.toNat ^ pointOffset 34 precision := by
  have hpow : ∀ k, 10 ^ k ≤ base.toNat ^ k := fun k => Nat.pow_le_pow_left hbase k
  unfold pointOffset
  split
  · next hpoint =>
    have hdigits : val.toNat < 10 ^ precision.toNat * 10 ^ (34 - 2 - precision).toNat := by
      rw [← Nat.pow_add, show precision.toNat + (34 - 2 - precision).toNat = 32 by omega]
      exact Nat.lt_of_lt_of_le val.isLt (by decide)
    calc val.toNat / 10 ^ precision.toNat < 10 ^ (34 - 2 - precision).toNat := Nat.div_lt_of_lt_mul hdigits
      _ ≤ base.toNat ^ (34 - 2 - precision).toNat := hpow _
  · rw [show precision.toNat = 0 by omega, Nat.pow_zero, Nat.div_one]
    calc val.toNat < 2 ^ 64 := val.isLt
      _ ≤ 10 ^ 33 := by decide
      _ ≤ base.toNat ^ (34 - 1 : Int).toNat := hpow 33

/-- A number always fits `intbuf`. -/
theorem uint64ToStr_some {precision : Int} (hbase : 10 ≤ base.toNat) (hsmall : base.toNat ≤ 2 ^ 30) :
    Safe (fun r => r ≠ none) (uint64ToStr 34 val precision base uppercase) := by
  have hint : base.toInt = base.toNat := BitVec.toInt_eq_toNat_of_lt (by omega)
  unfold uint64ToStr
  rw [if_neg (by decide), if_neg (by omega)]
  split
  · next hfit =>
    unfold fitPrecision at hfit
    split at hfit
    · simp at hfit
    · cases hfit
  next precision' hfit =>
  have hle := fitPrecision_le hfit
  refine (decimals_safe (by decide) hle).bind ?_
  rintro ⟨val', s⟩ ⟨hval, hstr, hoffset⟩
  refine Safe.bind (integer_some (by omega) hsmall hstr ?_) ?_
  · by_cases hzero : val' = 0
    · rw [hzero]
      exact Nat.pow_pos (by omega)
    · rw [hoffset hzero, hval]
      exact offset_enough hbase hle
  · intro str hsome
    refine Safe.ok ?_
    simpa using hsome

end

/-! ## Formats -/

/-- The terminator lies ahead. -/
def Ahead (format : List UInt8) : Prop := ∃ text, format = text ++ [0]

/-- The character has been read, and the terminator lies ahead unless it is this character. -/
def At (ch : Int) (format : List UInt8) : Prop := ch = 0 ∧ format = [] ∨ Ahead format

theorem At.ahead {ch : Int} {format : List UInt8} (h : At ch format) (hch : ch ≠ 0) : Ahead format :=
  h.resolve_left fun hend => hch hend.1

section

variable {c : Config} {ch : Int} {k : Nat} {format : List UInt8}

@[simp] theorem int_zero : c.int 0 = 0 := by
  unfold Config.int
  split <;> rfl

theorem int_ascii {b : UInt8} (h : b.toNat < 128) : c.int b = b.toNat := by
  have hsigned : b.toInt8.toInt = b.toBitVec.toInt := rfl
  unfold Config.int
  split
  · rw [hsigned]
    exact BitVec.toInt_eq_toNat_of_lt (by omega : 2 * b.toNat < 2 ^ 8)
  · rfl

theorem int_ne {b : UInt8} {ch : Int} (h : b.toNat < 128) (hne : (b.toNat : Int) ≠ ch) : c.int b ≠ ch := by
  rwa [int_ascii h]

theorem next_safe (h : Ahead format) : Safe (fun r => At r.1 r.2 ∧ r.2.length < format.length) (next c format) := by
  obtain ⟨text, rfl⟩ := h
  cases text with
  | nil => exact Safe.ok ⟨.inl ⟨int_zero, rfl⟩, Nat.zero_lt_one⟩
  | cons b text => exact Safe.ok ⟨.inr ⟨text, rfl⟩, Nat.lt_succ_self _⟩

theorem scanWhile_safe {α : Type} {p : Int → Bool} {f : α → Int → α} {a : α} (hp : p 0 = false) (h : At ch format) :
    Safe (fun r => At r.1 r.2.2 ∧ r.2.2.length ≤ format.length) (scanWhile c p f ch a format) := by
  induction format generalizing ch a with
  | nil =>
    rw [scanWhile]
    split
    · next hloop =>
      obtain ⟨hch, -⟩ | ⟨text, hnil⟩ := h
      · rw [hch, hp] at hloop
        cases hloop
      · simp at hnil
    · exact Safe.ok ⟨h, Nat.le_refl _⟩
  | cons b format ih =>
    rw [scanWhile]
    split
    · next hloop =>
      have hch : ch ≠ 0 := by
        rintro rfl
        rw [hp] at hloop
        cases hloop
      have hnext : At (c.int b) format := by
        obtain ⟨text, heq⟩ := h.ahead hch
        cases text with
        | nil =>
          obtain ⟨rfl, rfl⟩ := List.cons_eq_cons.mp heq
          exact .inl ⟨int_zero, rfl⟩
        | cons b' text => exact .inr ⟨text, (List.cons_eq_cons.mp heq).2⟩
      refine (ih hnext).mono ?_
      rintro r ⟨hat, hlength⟩
      exact ⟨hat, Nat.le_succ_of_le hlength⟩
    · exact Safe.ok ⟨h, Nat.le_refl _⟩

variable {args : Args} {flags : Flags}

theorem numberOrStar_safe (h : At ch format) :
    Safe (fun r => At r.2.1 r.2.2.2 ∧ r.2.2.2.length ≤ format.length) (numberOrStar c args ch k format) := by
  unfold numberOrStar
  split
  · next hstar =>
    refine (next_safe (h.ahead (by rw [hstar]; decide))).bind ?_
    rintro ⟨ch', format'⟩ ⟨hat, hlength⟩
    exact Safe.ok ⟨hat, Nat.le_of_lt hlength⟩
  · refine (scanWhile_safe (by decide) h).bind ?_
    rintro ⟨ch', w, format'⟩ ⟨hat, hlength⟩
    exact Safe.ok ⟨hat, hlength⟩

theorem precisionField_safe (h : At ch format) :
    Safe (fun r => At r.2.1 r.2.2.2 ∧ r.2.2.2.length ≤ format.length) (precisionField c args ch k format) := by
  unfold precisionField
  split
  · next hpoint =>
    refine (next_safe (h.ahead (by rw [hpoint]; decide))).bind ?_
    rintro ⟨ch', format'⟩ ⟨hat, hlength⟩
    refine (numberOrStar_safe hat).bind ?_
    rintro ⟨w, ch'', k', format''⟩ ⟨hat', hlength'⟩
    exact Safe.ok ⟨hat', Nat.le_trans hlength' (Nat.le_of_lt hlength)⟩
  · exact Safe.ok ⟨h, Nat.le_refl _⟩

theorem longLong_safe (h : At ch format) :
    Safe (fun r => At r.2.1 r.2.2 ∧ r.2.2.length ≤ format.length) (longLong c ch flags format) := by
  unfold longLong
  split
  · next hl =>
    refine (next_safe (h.ahead (by rw [hl]; decide))).bind ?_
    rintro ⟨ch', format'⟩ ⟨hat, hlength⟩
    exact Safe.ok ⟨hat, Nat.le_of_lt hlength⟩
  · exact Safe.ok ⟨h, Nat.le_refl _⟩

theorem lengthModifier_safe (h : At ch format) :
    Safe (fun r => At r.2.1 r.2.2 ∧ r.2.2.length ≤ format.length) (lengthModifier c ch flags format) := by
  unfold lengthModifier
  split
  · next hl =>
    refine (next_safe (h.ahead (by rw [hl]; decide))).bind ?_
    rintro ⟨ch', format'⟩ ⟨hat, hlength⟩
    refine (longLong_safe hat).bind ?_
    rintro ⟨flags', ch'', format''⟩ ⟨hat', hlength'⟩
    exact Safe.ok ⟨hat', Nat.le_trans hlength' (Nat.le_of_lt hlength)⟩
  split
  · next hz =>
    refine (next_safe (h.ahead (by rw [hz]; decide))).bind ?_
    rintro ⟨ch', format'⟩ ⟨hat, hlength⟩
    exact Safe.ok ⟨hat, Nat.le_of_lt hlength⟩
  · exact Safe.ok ⟨h, Nat.le_refl _⟩

theorem interpret_zero {v : BitVec 64} {base : CInt} : interpret c 0 flags v base = none := rfl

theorem fetchValue_zero : (fetchValue c args 0 flags k).1 = 0 := by
  unfold fetchValue
  rw [if_neg (by decide)]
  split <;> rfl

theorem fetchValue_base : (fetchValue c args ch flags k).2.2.1 = 10 ∨ (fetchValue c args ch flags k).2.2.1 = 16 := by
  unfold fetchValue
  split
  · exact .inr rfl
  split
  · exact .inl rfl
  · exact .inl rfl

/-- A good format specifier is printed in base 10 or 16. -/
theorem interpret_base {v v' : BitVec 64} {base base' : CInt} {sign : Option Int} (hbase : base = 10 ∨ base = 16)
    (h : interpret c ch flags v base = some (sign, v', base')) : base' = 10 ∨ base' = 16 := by
  unfold interpret at h
  split at h
  · cases h
    exact hbase
  split at h
  · cases h
    exact hbase
  split at h
  · cases h
    exact .inr rfl
  split at h
  · cases h
    exact hbase
  · cases h

end

/-! ## Turns -/

section

variable {c : Config} {args : Args} {σ : Type} {addchar : σ → Int → σ × Bool} {ch : Int} {k : Nat}
  {format : List UInt8} {ctx : σ} {flags : Flags} {padWidth precision : Int}

/-- How a turn may end: what is left of the format still has its terminator, or `ERROR` takes its place. -/
def Turn.Ends (format : List UInt8) : Turn σ → Prop
  | .done _ _ => True
  | .goOn format' _ _ => format' = errorStr ∨ Ahead format' ∧ format'.length ≤ format.length

theorem Turn.Ends.mono {format' : List UInt8} {t : Turn σ} (h : Turn.Ends format t)
    (hle : format.length ≤ format'.length) :
    Turn.Ends format' t := by
  cases t with
  | done overflow ctx => trivial
  | goOn f k ctx =>
    obtain herror | ⟨hahead, hlength⟩ := h
    · exact .inl herror
    · exact .inr ⟨hahead, Nat.le_trans hlength hle⟩

theorem output_ends {text : List Int} (h : Ahead format) : Turn.Ends format (output addchar text format k ctx) := by
  unfold output
  split
  · trivial
  · exact .inr ⟨h, Nat.le_refl _⟩

theorem error_ends : Turn.Ends format (.goOn errorStr k ctx) := .inl rfl

theorem printNumber_safe (h : At ch format) :
    Safe (Turn.Ends format) (printNumber c args addchar ch flags padWidth precision k format ctx) := by
  refine (lengthModifier_safe h).bind ?_
  rintro ⟨modified, ch', format'⟩ ⟨hat, hlength⟩
  simp only at hat hlength ⊢
  split
  · exact Safe.ok error_ends
  next flags' =>
  have hbase : (fetchValue c args ch' flags' k).2.2.1 = 10 ∨ (fetchValue c args ch' flags' k).2.2.1 = 16 := fetchValue_base
  split
  · exact Safe.ok error_ends
  next sign v base hinterpret =>
  have hch : ch' ≠ 0 := by
    rintro rfl
    rw [fetchValue_zero, interpret_zero] at hinterpret
    cases hinterpret
  have hbase' : 10 ≤ base.toNat ∧ base.toNat ≤ 2 ^ 30 := by
    obtain rfl | rfl := interpret_base hbase hinterpret <;> decide
  refine (uint64ToStr_some hbase'.1 hbase'.2).bind ?_
  intro str hsome
  cases str with
  | none => exact absurd rfl hsome
  | some vstr => exact Safe.ok ((output_ends (hat.ahead hch)).mono hlength)

theorem conversion_safe (h : At ch format) : Safe (Turn.Ends format) (conversion c args addchar ch k format ctx) := by
  refine (scanWhile_safe (by decide) h).bind ?_
  rintro ⟨ch₁, flags₁, format₁⟩ ⟨hat₁, hlength₁⟩
  refine (scanWhile_safe (by decide) hat₁).bind ?_
  rintro ⟨ch₂, flags₂, format₂⟩ ⟨hat₂, hlength₂⟩
  refine (numberOrStar_safe hat₂).bind ?_
  rintro ⟨padWidth, ch₃, k₃, format₃⟩ ⟨hat₃, hlength₃⟩
  simp only at hlength₁ hlength₂ hlength₃ hat₃ ⊢
  split
  · exact Safe.ok error_ends
  refine (precisionField_safe hat₃).bind ?_
  rintro ⟨precision, ch₄, k₄, format₄⟩ ⟨hat₄, hlength₄⟩
  simp only at hlength₄ hat₄ ⊢
  have hle : format₄.length ≤ format.length := by omega
  split
  · exact Safe.ok error_ends
  split
  · next hs => exact Safe.ok ((output_ends (hat₄.ahead (by rw [hs]; decide))).mono hle)
  · exact (printNumber_safe hat₄).mono fun t ht => ht.mono hle

/-- A turn reads no byte that is not there, and fails no assertion. -/
theorem formatChar_safe (h : Ahead format) : Safe (Turn.Ends format) (formatChar c args addchar ch k format ctx) := by
  unfold formatChar
  split
  · exact Safe.ok (output_ends h)
  refine (next_safe h).bind ?_
  rintro ⟨ch', format'⟩ ⟨hat, hlength⟩
  have hle : format'.length ≤ format.length := Nat.le_of_lt hlength
  simp only at hat ⊢
  split
  · next hpercent => exact Safe.ok ((output_ends (hat.ahead (by rw [hpercent]; decide))).mono hle)
  split
  · exact Safe.ok trivial
  next hch =>
  split
  · exact Safe.ok ((output_ends (hat.ahead hch)).mono hle)
  · exact (conversion_safe hat).mono fun t ht => ht.mono hle

/-! ## Runs -/

/-- With enough turns there is a result, and it does not depend on how many they are. -/
def Returns (c : Config) (args : Args) (addchar : σ → Int → σ × Bool) (n : Nat) (format : List UInt8) (k : Nat) (ctx : σ) :
    Prop := ∃ r, ∀ turns, n ≤ turns → vfnprintf c args addchar turns format k ctx = .ok r

theorem vfnprintf_done {turns : Nat} {b : UInt8} {overflow : Bool} {ctx' : σ} (hb : c.int b ≠ 0)
    (ht : formatChar c args addchar (c.int b) k format ctx = .ok (.done overflow ctx')) :
    vfnprintf c args addchar (turns + 1) (b :: format) k ctx = .ok (overflow, ctx') := by
  have hnext : next c (b :: format) = .ok (c.int b, format) := rfl
  rw [vfnprintf, hnext]
  simp only [bind, Except.bind, if_neg hb, ht]

theorem vfnprintf_goOn {turns k' : Nat} {b : UInt8} {format' : List UInt8} {ctx' : σ} (hb : c.int b ≠ 0)
    (ht : formatChar c args addchar (c.int b) k format ctx = .ok (.goOn format' k' ctx')) :
    vfnprintf c args addchar (turns + 1) (b :: format) k ctx = vfnprintf c args addchar turns format' k' ctx' := by
  have hnext : next c (b :: format) = .ok (c.int b, format) := rfl
  rw [vfnprintf, hnext]
  simp only [bind, Except.bind, if_neg hb, ht]

theorem vfnprintf_end {turns : Nat} {b : UInt8} (hb : c.int b = 0) :
    vfnprintf c args addchar (turns + 1) (b :: format) k ctx = .ok (false, ctx) := by
  have hnext : next c (b :: format) = .ok (c.int b, format) := rfl
  rw [vfnprintf, hnext]
  simp only [bind, Except.bind, if_pos hb]

theorem returns_at_end {b : UInt8} (hb : c.int b = 0) : Returns c args addchar 1 (b :: format) k ctx := by
  refine ⟨(false, ctx), ?_⟩
  intro turns hturns
  obtain ⟨turns, rfl⟩ := Nat.exists_eq_succ_of_ne_zero (Nat.ne_of_gt hturns)
  exact vfnprintf_end hb

theorem Returns.mono {n n' : Nat} (h : Returns c args addchar n format k ctx) (hle : n ≤ n') :
    Returns c args addchar n' format k ctx := by
  obtain ⟨r, hr⟩ := h
  exact ⟨r, fun turns hturns => hr turns (Nat.le_trans hle hturns)⟩

theorem returns_of_turn {n : Nat} {b : UInt8} {post : Turn σ → Prop}
    (hturn : Safe post (formatChar c args addchar (c.int b) k format ctx))
    (hrest : ∀ format' k' ctx', post (.goOn format' k' ctx') → Returns c args addchar n format' k' ctx') :
    Returns c args addchar (n + 1) (b :: format) k ctx := by
  by_cases hb : c.int b = 0
  · exact (returns_at_end hb).mono (Nat.le_add_left 1 n)
  obtain ⟨t, ht, hpost⟩ := hturn.exists
  have hstep : ∀ turns, n + 1 ≤ turns → ∃ turns', n ≤ turns' ∧ turns = turns' + 1 := by
    intro turns hturns
    exact ⟨turns - 1, by omega, by omega⟩
  cases t with
  | done overflow ctx' =>
    refine ⟨(overflow, ctx'), ?_⟩
    intro turns hturns
    obtain ⟨turns', -, rfl⟩ := hstep turns hturns
    exact vfnprintf_done hb ht
  | goOn format' k' ctx' =>
    obtain ⟨r, hr⟩ := hrest format' k' ctx' hpost
    refine ⟨r, ?_⟩
    intro turns hturns
    obtain ⟨turns', hle, rfl⟩ := hstep turns hturns
    exact (vfnprintf_goOn hb ht).trans (hr turns' hle)

theorem returns_literal {text : List UInt8} (htext : ∀ b ∈ text, c.int b ≠ char '%') :
    Returns c args addchar (text.length + 1) (text ++ [0]) k ctx := by
  induction text generalizing k ctx with
  | nil => exact returns_at_end int_zero
  | cons b text ih =>
    have hplain : Safe (fun t => ∀ format' k' ctx', t = .goOn format' k' ctx' → format' = text ++ [0])
        (formatChar c args addchar (c.int b) k (text ++ [0]) ctx) := by
      rw [formatChar, if_pos (htext b List.mem_cons_self)]
      refine Safe.ok ?_
      intro format' k' ctx' heq
      unfold output at heq
      split at heq
      · cases heq
      · cases heq
        rfl
    refine returns_of_turn hplain ?_
    intro format' k' ctx' hpost
    rw [hpost format' k' ctx' rfl]
    exact ih fun b' hb' => htext b' (List.mem_cons_of_mem b hb')

theorem returns_error : Returns c args addchar 6 errorStr k ctx := by
  have hplain : ∀ b ∈ ([69, 82, 82, 79, 82] : List UInt8), b.toNat < 128 ∧ (b.toNat : Int) ≠ char '%' := by
    simp [show char '%' = 37 from rfl]
  have hcopied : Returns c args addchar (([69, 82, 82, 79, 82] : List UInt8).length + 1)
      ([69, 82, 82, 79, 82] ++ [0]) k ctx := by
    refine returns_literal ?_
    intro b hb
    exact int_ne (hplain b hb).1 (hplain b hb).2
  exact hcopied

theorem returns_format {n : Nat} {text : List UInt8} (hn : text.length ≤ n) :
    Returns c args addchar (n + 7) (text ++ [0]) k ctx := by
  induction n generalizing text k ctx with
  | zero =>
    rw [List.eq_nil_of_length_eq_zero (Nat.le_zero.mp hn)]
    exact (returns_at_end int_zero).mono (by decide)
  | succ n ih =>
    cases text with
    | nil => exact (returns_at_end int_zero).mono (by omega)
    | cons b text =>
      refine returns_of_turn (formatChar_safe ⟨text, rfl⟩) ?_
      intro format' k' ctx' hends
      obtain rfl | ⟨⟨text', rfl⟩, hlength⟩ := hends
      · exact returns_error.mono (by omega)
      · have hle : text'.length ≤ text.length := by simpa using hlength
        rw [List.length_cons] at hn
        exact ih (by omega)

end

/-- On every format `vfnprintf` returns, with no byte read behind the terminator and no assertion failed, whatever the
arguments are and whatever the output function does; and `uint64_to_str` writes nothing outside its buffer. -/
theorem vfnprintf_safe :
    (∀ (c : Config) (args : Args) (σ : Type) (addchar : σ → Int → σ × Bool) (text : List UInt8) (k : Nat) (ctx : σ),
      ∃ r, ∀ turns, text.length + 7 ≤ turns → vfnprintf c args addchar turns (text ++ [0]) k ctx = .ok r) ∧
    ∀ (bufLen : Int) (val : BitVec 64) (precision : Int) (base : CInt) (uppercase : Bool),
      ∃ r, uint64ToStr bufLen val precision base uppercase = .ok r := by
  refine ⟨?_, ?_⟩
  · intro c args σ addchar text k ctx
    exact returns_format (Nat.le_refl _)
  · intro bufLen val precision base uppercase
    obtain ⟨r, hr, -⟩ := (uint64ToStr_safe bufLen val precision base uppercase).exists
    exact ⟨r, hr⟩

/-- A conversion that there is not: `%q`. -/
theorem vfnprintf_safe_unknown :
    vfnprintf ⟨true, false, false, false⟩ ⟨fun _ => 0, fun _ => 0, fun _ => 0, fun _ => none⟩
      (fun out ch => (out ++ [ch], false)) 9 [37, 113, 0] 0 [] = .ok (false, [69, 82, 82, 79, 82]) := by
  obtain ⟨r, hr⟩ := vfnprintf_safe.1 ⟨true, false, false, false⟩ ⟨fun _ => 0, fun _ => 0, fun _ => 0, fun _ => none⟩
    (List Int) (fun out ch => (out ++ [ch], false)) [37, 113] 0 []
  have hprinted : vfnprintf ⟨true, false, false, false⟩ ⟨fun _ => 0, fun _ => 0, fun _ => 0, fun _ => none⟩
      (fun out ch => (out ++ [ch], false)) 10 [37, 113, 0] 0 [] = .ok (false, [69, 82, 82, 79, 82]) := rfl
  exact (hr 9 (Nat.le_refl 9)).trans ((hr 10 (Nat.le_succ 9)).symm.trans hprinted)

end ChromeEc.Printf
