import Mathlib.Data.List.Basic

/- Runs of a system that takes labelled steps.

  A step may be impossible in a state. A run is kept with the state before each step, so
  that a condition on the steps of a run can be stated.

  What is proved: what holds at the start and is kept by every step that is allowed holds
  after every run of allowed steps (`Run.invariant`, and `Run.holds` where every step is
  allowed, and `Run.holds_iff` where no other step keeps it), so does a relation to the state of an
  abstract system that takes the same labels (`Run.refines`) or to what an observer makes of
  the steps (`Run.observed`), two conditions that agree as long as one of them has held agree
  over runs (`Run.forall_iff`, `Run.always_iff`), what comes before a step of a run is a run (`Run.cut`), and a
  list of labels that can be followed is a run (`Run.of_trace`, `exists_run`). -/
namespace ChromeEc.Lib.Steps

variable {σ ι : Type}

/-- A run from `start`, with the state before each step. -/
inductive Run (step : ι → σ → Option σ) (start : σ) : List (σ × ι) → σ → Prop where
  | start : Run step start [] start
  | step {l : List (σ × ι)} {s s' : σ} {i : ι} (run : Run step start l s) (h : step i s = some s') :
    Run step start (l ++ [(s, i)]) s'

variable {step : ι → σ → Option σ} {start s s' : σ} {l : List (σ × ι)}

theorem Run.invariant {P : σ → Prop} {ok : σ × ι → Prop} (hstart : P start)
    (hstep : ∀ s i s', P s → ok (s, i) → step i s = some s' → P s') (h : Run step start l s) (hok : ∀ x ∈ l, ok x) :
    P s := by
  induction h with
  | start => exact hstart
  | @step l s s' i run hnext ih =>
    have hs : P s := ih fun x hx => hok x (List.mem_append_left _ hx)
    exact hstep s i s' hs (hok _ (List.mem_append_right _ (List.mem_singleton_self _))) hnext

theorem Run.holds {P : σ → Prop} (hstart : P start) (hstep : ∀ s i s', P s → step i s = some s' → P s')
    (h : Run step start l s) : P s := by
  induction h with
  | start => exact hstart
  | @step l s s' i run hnext ih => exact hstep s i s' ih hnext

/-- What the labels do in an abstract system is followed by what the steps do. -/
theorem Run.refines {α : Type} {R : σ → α → Prop} {f : ι → α → α} {a : α} {ok : σ × ι → Prop} (hstart : R start a)
    (hstep : ∀ s i s' a, R s a → ok (s, i) → step i s = some s' → R s' (f i a)) (h : Run step start l s)
    (hok : ∀ x ∈ l, ok x) : R s (l.foldl (fun a x => f x.2 a) a) := by
  induction h with
  | start => exact hstart
  | @step l s s' i run hnext ih =>
    have hs := ih fun x hx => hok x (List.mem_append_left _ hx)
    rw [List.foldl_append]
    exact hstep s i s' _ hs (hok _ (List.mem_append_right _ (List.mem_singleton_self _))) hnext

/-- What a step keeps under one condition on it, and under no other. -/
theorem Run.holds_iff {P : σ → Prop} {ok : σ × ι → Prop}
    (hstep : ∀ s i s', step i s = some s' → (P s' ↔ P s ∧ ok (s, i))) (h : Run step start l s) :
    P s ↔ P start ∧ ∀ x ∈ l, ok x := by
  induction h with
  | start => simp
  | @step l s s' i run hnext ih =>
    rw [hstep s i s' hnext, ih, List.forall_mem_append, List.forall_mem_singleton, and_assoc]

/-- The steps of a list one after the other, if they can be taken. -/
def trace (step : ι → σ → Option σ) : List ι → List (σ × ι) × σ → Option (List (σ × ι) × σ)
  | [], r => some r
  | i :: rest, r =>
    match step i r.2 with
    | none => none
    | some s' => trace step rest (r.1 ++ [(r.2, i)], s')

theorem trace_labels {steps : List ι} {r r' : List (σ × ι) × σ} (h : trace step steps r = some r') :
    r'.1.map Prod.snd = r.1.map Prod.snd ++ steps := by
  induction steps generalizing r with
  | nil =>
    cases h
    simp
  | cons i rest ih =>
    rw [trace] at h
    split at h
    · cases h
    · rw [ih h]
      simp

theorem Run.of_trace {steps : List ι} {r r' : List (σ × ι) × σ} (h : Run step start r.1 r.2)
    (htrace : trace step steps r = some r') : Run step start r'.1 r'.2 := by
  induction steps generalizing r with
  | nil =>
    cases htrace
    exact h
  | cons i rest ih =>
    rw [trace] at htrace
    split at htrace
    · cases htrace
    · rename_i s' hstep
      exact ih (.step h hstep) htrace

/-- A list of labels that can be followed, with what is decided of the run. -/
theorem exists_run {steps : List ι} {p : List (σ × ι) × σ → Prop} [DecidablePred p]
    (h : (trace step steps ([], start)).any fun r => decide (p r)) :
    ∃ l s, Run step start l s ∧ l.map Prod.snd = steps ∧ p (l, s) := by
  obtain ⟨r, hr, hdone⟩ := (Option.any_eq_true _ _).mp h
  exact ⟨r.1, r.2, .of_trace .start hr, trace_labels hr, of_decide_eq_true hdone⟩

/-! ## Parts of a run -/

theorem Run.cut {k : List (σ × ι)} {t : σ} {i : ι} (h : Run step start (l ++ (t, i) :: k) s) : Run step start l t := by
  generalize hall : l ++ (t, i) :: k = all at h
  induction h generalizing k with
  | start => simp at hall
  | @step l' u u' j run hnext ih =>
    rcases List.eq_nil_or_concat k with rfl | ⟨front, last, rfl⟩
    · obtain ⟨rfl, hlast⟩ := List.append_inj' hall rfl
      cases hlast
      exact run
    · rw [List.concat_eq_append, ← List.cons_append, ← List.append_assoc] at hall
      exact ih (List.append_inj' hall rfl).1

/-! ## Observers -/

variable {α : Type} {observe : α → σ × ι → α} {ok : α → σ × ι → Prop} {a : α}

/-- Every step meets a condition that may depend on what was observed before it. -/
def Always (observe : α → σ × ι → α) (ok : α → σ × ι → Prop) : α → List (σ × ι) → Prop
  | _, [] => True
  | a, x :: l => ok a x ∧ Always observe ok (observe a x) l

instance [h : ∀ a x, Decidable (ok a x)] : ∀ a l, Decidable (Always observe ok a l)
  | _, [] => isTrue trivial
  | a, x :: l =>
    have := instDecidableAlways (observe a x) l
    inferInstanceAs (Decidable (ok a x ∧ Always observe ok (observe a x) l))

theorem always_append {k : List (σ × ι)} :
    Always observe ok a (l ++ k) ↔ Always observe ok a l ∧ Always observe ok (l.foldl observe a) k := by
  induction l generalizing a with
  | nil => simp [Always]
  | cons x l ih => simp [Always, ih, and_assoc]

theorem always_congr {ok' : α → σ × ι → Prop} (h : ∀ a x, ok a x ↔ ok' a x) :
    Always observe ok a l ↔ Always observe ok' a l := by
  induction l generalizing a with
  | nil => exact Iff.rfl
  | cons x l ih => exact and_congr (h a x) ih

theorem Always.imp {ok' : α → σ × ι → Prop} (h : ∀ a x, ok a x → ok' a x) (hok : Always observe ok a l) :
    Always observe ok' a l := by
  induction l generalizing a with
  | nil => exact trivial
  | cons x l ih => exact ⟨h a x hok.1, ih hok.2⟩

theorem always_iff_forall {p : σ × ι → Prop} : Always observe (fun _ x => p x) a l ↔ ∀ x ∈ l, p x := by
  induction l generalizing a with
  | nil => exact iff_of_true trivial fun x hx => absurd hx List.not_mem_nil
  | cons x l ih => rw [Always, ih, List.forall_mem_cons]

/-- A relation between the state and what was observed holds after every run of allowed steps. -/
theorem Run.observed {R : σ → α → Prop} (hstart : R start a)
    (hstep : ∀ s i s' a, R s a → ok a (s, i) → step i s = some s' → R s' (observe a (s, i))) (h : Run step start l s)
    (hok : Always observe ok a l) : R s (l.foldl observe a) := by
  induction h with
  | start => exact hstart
  | @step l s s' i run hnext ih =>
    obtain ⟨hbefore, hlast, -⟩ := always_append.mp hok
    rw [List.foldl_append]
    exact hstep s i s' _ (ih hbefore) hlast hnext

/-- Two conditions on the steps are the same over a run if they are the same where a relation holds, which is kept by
the steps that meet one of them. -/
theorem Run.always_iff {R : σ → α → Prop} {good : α → σ × ι → Prop} (hstart : R start a)
    (hstep : ∀ s i s' a, R s a → ok a (s, i) → step i s = some s' → R s' (observe a (s, i)))
    (hiff : ∀ s i s' a, R s a → step i s = some s' → (good a (s, i) ↔ ok a (s, i))) (h : Run step start l s) :
    Always observe good a l ↔ Always observe ok a l := by
  induction h with
  | start => exact Iff.rfl
  | @step l s s' i run hnext ih =>
    rw [always_append, always_append, ih]
    refine and_congr_right fun hok => ?_
    have hs : R s (l.foldl observe a) := Run.observed hstart hstep run hok
    exact and_congr_left fun _ => hiff s i s' _ hs hnext

/-- What holds of the steps that meet a condition holds over a run of such steps. -/
theorem Run.always_of {R : σ → α → Prop} {good : α → σ × ι → Prop} (hstart : R start a)
    (hstep : ∀ s i s' a, R s a → ok a (s, i) → step i s = some s' → R s' (observe a (s, i)))
    (hgood : ∀ s i s' a, R s a → ok a (s, i) → step i s = some s' → good a (s, i)) (h : Run step start l s)
    (hok : Always observe ok a l) : Always observe good a l := by
  have hboth : Always observe (fun a x => ok a x ∧ good a x) a l :=
    (Run.always_iff hstart hstep
      (fun s i s' a hs hnext => and_iff_left_of_imp fun h => hgood s i s' a hs h hnext) h).mpr hok
  exact hboth.imp fun _ _ h => h.2

theorem Run.forall_iff {P : σ → Prop} {good ok : σ × ι → Prop} (hstart : P start)
    (hstep : ∀ s i s', P s → ok (s, i) → step i s = some s' → P s')
    (hiff : ∀ s i s', P s → step i s = some s' → (good (s, i) ↔ ok (s, i))) (h : Run step start l s) :
    (∀ x ∈ l, good x) ↔ ∀ x ∈ l, ok x := by
  induction h with
  | start => exact iff_of_true (by simp) (by simp)
  | @step l s s' i run hnext ih =>
    rw [List.forall_mem_append, List.forall_mem_append, ih, List.forall_mem_singleton, List.forall_mem_singleton]
    refine and_congr_right fun hok => hiff s i s' ?_ hnext
    exact Run.invariant hstart hstep run hok

end ChromeEc.Lib.Steps
