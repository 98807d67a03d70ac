import ChromeEc.Printf.RoundTrip

/- `crec_vsnprintf` of `builtin/stdlib.c`.

  What `vfnprintf` has to say does not depend on the output function: there is one text that it
  hands to each of them, until it is refused (`vfnprintf_hands`). That of `crec_vsnprintf` refuses
  what no longer fits.

  Correspondence (C ↔ Lean):
    `struct snprintf_context` ↔ the bytes before `str`, and `size`
    `snprintf_addchar` ↔ `snprintfAddchar`
    `crec_vsnprintf` ↔ `crecVsnprintf`, with the bytes that it writes, for sizes up to `2 ^ 31` -/
namespace ChromeEc.Printf

def ecErrorOverflow : Int := 3
def ecErrorInval : Int := 5

def snprintfAddchar (ctx : List UInt8 × Nat) (ch : Int) : (List UInt8 × Nat) × Bool :=
  if ctx.2 = 0 then (ctx, true) else ((ctx.1 ++ [cut ch], ctx.2 - 1), false)

def crecVsnprintf (c : Config) (args : Args) (turns size : Nat) (format : List UInt8) : Except Fault (Int × List UInt8) :=
  if size = 0 then .ok (-ecErrorInval, [])
  else do
    let (overflow, str, _) ← vfnprintf c args snprintfAddchar turns format 0 ([], size - 1)
    .ok (if overflow then -ecErrorOverflow else str.length, str ++ [0])

/-! ## The text of a turn -/

abbrev AnyTurn := (σ : Type) → (σ → Int → σ × Bool) → σ → Except Fault (Turn σ)

/-- The turn hands on a text, and goes on with a format and an argument unless the output ends there. -/
def takes (text : List Int) (rest : Option (List UInt8 × Nat)) : AnyTurn := fun _ addchar ctx =>
  .ok (match rest with
    | some (format, k) => output addchar text format k ctx
    | none => .done (emit addchar text ctx).2 (emit addchar text ctx).1)

/-- Which text it is does not depend on the output function, nor does whether there is one. -/
def Blind (turn : AnyTurn) : Prop := (∃ text rest, turn = takes text rest) ∨ ∃ e, turn = fun _ _ _ => .error e

section

variable {c : Config} {args : Args} {ch : Int} {k : Nat} {format : List UInt8} {turn turn' : AnyTurn}

theorem blind_output {text : List Int} : Blind fun _ addchar ctx => .ok (output addchar text format k ctx) :=
  .inl ⟨text, some (format, k), rfl⟩

theorem blind_error : Blind fun _ _ ctx => .ok (.goOn errorStr k ctx) := .inl ⟨[], some (errorStr, k), rfl⟩

theorem blind_bind {α : Type} {m : Except Fault α} {turn : α → AnyTurn} (h : ∀ a, Blind (turn a)) :
    Blind fun σ addchar ctx => m >>= fun a => turn a σ addchar ctx := by
  cases m with
  | error e => exact .inr ⟨e, rfl⟩
  | ok a => exact h a

theorem blind_ite {p : Prop} [Decidable p] (h : Blind turn) (h' : Blind turn') :
    Blind fun σ addchar ctx => if p then turn σ addchar ctx else turn' σ addchar ctx := by
  split
  · exact h
  · exact h'

theorem printNumber_blind {flags : Flags} {padWidth precision : Int} :
    Blind fun _ addchar ctx => printNumber c args addchar ch flags padWidth precision k format ctx := by
  unfold printNumber
  refine blind_bind fun ⟨modified, ch, format⟩ => ?_
  cases modified with
  | none => exact blind_error
  | some flags =>
    dsimp only
    split
    · exact blind_error
    · refine blind_bind fun vstr => ?_
      cases vstr with
      | none => exact .inr ⟨.assertFailed, rfl⟩
      | some vstr => exact blind_output

theorem conversion_blind : Blind fun _ addchar ctx => conversion c args addchar ch k format ctx := by
  unfold conversion
  refine blind_bind fun ⟨ch, flags, format⟩ => blind_bind fun ⟨ch, flags, format⟩ => ?_
  refine blind_bind fun ⟨padWidth, ch, k, format⟩ =>
    blind_ite blind_error (blind_bind fun ⟨precision, ch, k, format⟩ => ?_)
  cases precision with
  | none => exact blind_error
  | some precision => exact blind_ite blind_output printNumber_blind

theorem formatChar_blind : Blind fun _ addchar ctx => formatChar c args addchar ch k format ctx := by
  unfold formatChar
  refine blind_ite blind_output (blind_bind fun ⟨ch, format⟩ => ?_)
  refine blind_ite blind_output (blind_ite ?_ (blind_ite blind_output conversion_blind))
  -- a single % at the end of the format
  refine .inl ⟨[char '%'], none, ?_⟩
  funext σ addchar ctx
  simp only [takes, emit]
  split
  · rfl
  · rename_i htaken
    rw [Bool.not_eq_true] at htaken
    rw [htaken]

/-! ## The whole text -/

theorem emit_append {σ : Type} {addchar : σ → Int → σ × Bool} (text text' : List Int) (ctx : σ) :
    emit addchar (text ++ text') ctx =
      if (emit addchar text ctx).2 then emit addchar text ctx else emit addchar text' (emit addchar text ctx).1 := by
  induction text generalizing ctx with
  | nil => rfl
  | cons ch text ih =>
    rw [List.cons_append, emit, emit]
    by_cases hrefused : (addchar ctx ch).2
    · rw [if_pos hrefused, if_pos hrefused, if_pos hrefused]
    · rw [if_neg hrefused, if_neg hrefused]
      exact ih _

/-- What is handed to an output function that refuses nothing is handed to each, from its beginning on. -/
theorem vfnprintf_hands {turns : Nat} {r : Bool × List UInt8} {out : List UInt8}
    (h : vfnprintf c args collect turns format k out = .ok r) :
    ∃ text, r = (false, out ++ text.map cut) ∧ ∀ (σ : Type) (addchar : σ → Int → σ × Bool) (ctx : σ),
      vfnprintf c args addchar turns format k ctx = .ok (emit addchar text ctx).swap := by
  induction turns generalizing format k out with
  | zero => cases h
  | succ turns ih =>
    cases format with
    | nil => cases h
    | cons b format =>
      by_cases hb : c.int b = 0
      · refine ⟨[], ?_, fun σ addchar ctx => vfnprintf_end hb⟩
        rw [vfnprintf_end hb] at h
        rw [List.map_nil, List.append_nil, Except.ok.inj h]
      obtain ⟨text, rest, hturn⟩ | ⟨e, hturn⟩ := @formatChar_blind c args (c.int b) k format
      · have hturn (σ addchar) (ctx : σ) :
            formatChar c args addchar (c.int b) k format ctx = takes text rest σ addchar ctx :=
          congrFun (congrFun (congrFun hturn σ) addchar) ctx
        cases rest with
        | none =>
          rw [vfnprintf_done hb (hturn _ collect out), emit_collect] at h
          exact ⟨text, (Except.ok.inj h).symm, fun σ addchar ctx => vfnprintf_done hb (hturn σ addchar ctx)⟩
        | some next =>
          rw [vfnprintf_goOn hb ((hturn _ collect out).trans (congrArg Except.ok output_collect))] at h
          obtain ⟨text', rfl, hrest⟩ := ih h
          refine ⟨text ++ text', by rw [List.map_append, List.append_assoc], fun σ addchar ctx => ?_⟩
          have hone : _ = Except.ok (output addchar text next.1 next.2 ctx) := hturn σ addchar ctx
          rw [emit_append]
          by_cases hrefused : (emit addchar text ctx).2
          · rw [output, if_pos hrefused] at hone
            rw [vfnprintf_done hb hone, if_pos hrefused]
            exact congrArg (fun r => Except.ok (r, _)) hrefused.symm
          · rw [output, if_neg hrefused] at hone
            rw [vfnprintf_goOn hb hone, if_neg hrefused, hrest]
      · have hfault : formatChar c args collect (c.int b) k format out = .error e :=
          congrFun (congrFun (congrFun hturn _) collect) out
        have hnext : next c (b :: format) = .ok (c.int b, format) := rfl
        rw [vfnprintf, hnext] at h
        simp [bind, Except.bind, hb, hfault] at h

theorem emit_snprintf (text : List Int) (str : List UInt8) (room : Nat) :
    emit snprintfAddchar text (str, room) =
      ((str ++ (text.take room).map cut, room - text.length), decide (room < text.length)) := by
  induction text generalizing str room with
  | nil => simp [emit]
  | cons ch text ih =>
    rw [emit, snprintfAddchar]
    cases room with
    | zero => simp
    | succ room =>
      simp [ih]

/-- For each format and all arguments there is a text that is handed to whatever takes the output, and `crec_vsnprintf`
leaves as much of it as fits in front of a terminator. -/
theorem crecVsnprintf_text (c : Config) (args : Args) (format : List UInt8) (turns : Nat) :
    ∃ text : List Int,
      (∀ (σ : Type) (addchar : σ → Int → σ × Bool) (ctx : σ),
        vfnprintf c args addchar (format.length + 7 + turns) (format ++ [0]) 0 ctx = .ok (emit addchar text ctx).swap) ∧
      ∀ size, crecVsnprintf c args (format.length + 7 + turns) size (format ++ [0]) =
        .ok (if size = 0 then (-ecErrorInval, [])
          else (if text.length < size then text.length else -ecErrorOverflow, (text.take (size - 1)).map cut ++ [0])) := by
  obtain ⟨r, hr⟩ : Returns c args collect (format.length + 7) (format ++ [0]) 0 [] := returns_format (Nat.le_refl _)
  obtain ⟨text, -, hhands⟩ := vfnprintf_hands (hr _ (Nat.le_add_right _ turns))
  refine ⟨text, hhands, fun size => ?_⟩
  rw [crecVsnprintf]
  by_cases hzero : size = 0
  · rw [if_pos hzero, if_pos hzero]
  · rw [if_neg hzero, if_neg hzero, hhands, emit_snprintf]
    by_cases hfits : text.length < size
    · have hroom : ¬size - 1 < text.length := by omega
      simp [bind, Except.bind, hfits, hroom, List.take_of_length_le (Nat.le_of_not_lt hroom)]
    · have hroom : size - 1 < text.length := by omega
      simp [bind, Except.bind, hfits, hroom]

end

end ChromeEc.Printf
