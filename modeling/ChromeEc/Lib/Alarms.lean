import Mathlib.Data.List.Basic

/- Alarms that are set, put off, cancelled and ring.

  For each key there is at most one alarm pending: setting one again replaces it. A log of what
  happened, the latest event first, says what is pending (`pending`). It is in order if an alarm
  rings only while it is pending and not before its deadline (`InOrder`); then every alarm set
  has rung once, was dropped for a later call, or is pending (`InOrder.conserved`). -/
namespace ChromeEc.Lib.Alarms

variable {κ : Type} [DecidableEq κ]

inductive Event (κ : Type) where
  | set (k : κ) (deadline : Int)
  | cancel (k : κ)
  | ring (k : κ) (time : Int)
  deriving DecidableEq

def Event.key : Event κ → κ
  | .set k _ => k
  | .cancel k => k
  | .ring k _ => k

def pending (k : κ) : List (Event κ) → Option Int
  | [] => none
  | .set k' d :: before => if k' = k then some d else pending k before
  | .cancel k' :: before => if k' = k then none else pending k before
  | .ring k' _ :: before => if k' = k then none else pending k before

def InOrder : List (Event κ) → Prop
  | [] => True
  | .ring k t :: before => (∃ d, pending k before = some d ∧ d ≤ t) ∧ InOrder before
  | .set _ _ :: before => InOrder before
  | .cancel _ :: before => InOrder before

def sets (k : κ) (log : List (Event κ)) : Nat := log.countP fun e => match e with | .set k' _ => k' = k | _ => false

def rings (k : κ) (log : List (Event κ)) : Nat := log.countP fun e => match e with | .ring k' _ => k' = k | _ => false

/-- The number of alarms for a key that a later call has replaced or cancelled while they were pending. -/
def dropped (k : κ) : List (Event κ) → Nat
  | [] => 0
  | .set k' _ :: before => (if k' = k ∧ (pending k before).isSome then 1 else 0) + dropped k before
  | .cancel k' :: before => (if k' = k ∧ (pending k before).isSome then 1 else 0) + dropped k before
  | .ring _ _ :: before => dropped k before

variable {k : κ} {d t : Int} {log new : List (Event κ)}

theorem pending_set (k' k : κ) (d : Int) (log : List (Event κ)) :
    pending k (.set k' d :: log) = if k' = k then some d else pending k log := rfl

theorem pending_cancel (k' k : κ) (log : List (Event κ)) :
    pending k (.cancel k' :: log) = if k' = k then none else pending k log := rfl

theorem pending_ring (k' k : κ) (t : Int) (log : List (Event κ)) :
    pending k (.ring k' t :: log) = if k' = k then none else pending k log := rfl

theorem pending_append (h : ∀ e ∈ new, e.key ≠ k) : pending k (new ++ log) = pending k log := by
  induction new with
  | nil => rfl
  | cons e new ih =>
    have hrest := ih fun e' he => h e' (List.mem_cons_of_mem e he)
    have hne := h e (List.mem_cons_self ..)
    cases e with
    | set k' d => exact (if_neg hne).trans hrest
    | cancel k' => exact (if_neg hne).trans hrest
    | ring k' t => exact (if_neg hne).trans hrest

/-- An alarm that is set rings once, is dropped or is pending. -/
theorem InOrder.conserved (h : InOrder log) (k : κ) :
    sets k log = rings k log + dropped k log + (pending k log).toList.length := by
  induction log with
  | nil => rfl
  | cons e before ih =>
    cases e with
    | set k' d =>
      have hrest := ih h
      simp only [sets, rings, dropped, List.countP_cons, pending_set] at hrest ⊢
      by_cases hk : k' = k
      · cases hp : pending k before <;> simp [hk, hp] at hrest ⊢ <;> omega
      · simp [hk] at hrest ⊢
        omega
    | cancel k' =>
      have hrest := ih h
      simp only [sets, rings, dropped, List.countP_cons, pending_cancel] at hrest ⊢
      by_cases hk : k' = k
      · cases hp : pending k before <;> simp [hk, hp] at hrest ⊢ <;> omega
      · simp [hk] at hrest ⊢
        omega
    | ring k' t =>
      obtain ⟨⟨d, hp, -⟩, hbefore⟩ := h
      have hrest := ih hbefore
      simp only [sets, rings, dropped, List.countP_cons, pending_ring] at hrest ⊢
      by_cases hk : k' = k
      · subst hk
        simp [hp] at hrest ⊢
        omega
      · simp [hk] at hrest ⊢
        omega

end ChromeEc.Lib.Alarms
