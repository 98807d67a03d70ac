import Mathlib.Data.List.Basic

/- A scan that keeps the best candidate so far.

  `select take` keeps the best one or takes the next one instead. If `take` follows a
  preorder, that is if what it takes is not worse and what it leaves is not better, then
  the result of a scan is a greatest candidate. It is enough that it does so for a candidate
  and one behind it in the list (`FollowsAlong`), so the preorder may have regard to the
  place of the candidates.

  `prefer` keeps the best one unless the next is strictly better, or as good as the same and
  wanted. If better is a strict weak order, each step keeps that the best one is not worse than
  any candidate seen, and that it is wanted if one that is the same is (`Kept.step`). What each
  step keeps of the candidates seen holds after the scan (`foldl_seen`). -/
namespace ChromeEc.Lib

variable {α : Type}

theorem foldl_seen {β : Type} {P : List α → β → Prop} {f : β → α → β} {seen : List α} {b : β}
    (hstep : ∀ seen b x, P seen b → P (seen ++ [x]) (f b x)) (h : P seen b) (xs : List α) :
    P (seen ++ xs) (xs.foldl f b) := by
  induction xs generalizing seen b with
  | nil => rwa [List.append_nil]
  | cons x xs ih =>
    have hrest := ih (hstep seen b x h)
    rwa [List.append_assoc] at hrest

def select (take : α → α → Bool) (best : Option α) (x : α) : Option α :=
  match best with
  | none => some x
  | some b => if take x b then some x else some b

/-- A preorder that `take` follows when it compares with one that came before. -/
structure FollowsAlong (before : α → α → Prop) (take : α → α → Bool) (le : α → α → Prop) : Prop where
  refl : ∀ x, le x x
  trans : ∀ {x y z}, le x y → le y z → le x z
  taken : ∀ {x b}, before b x → take x b = true → le b x
  left : ∀ {x b}, before b x → take x b = false → le x b

/-- A preorder that `take` follows. -/
structure Follows (take : α → α → Bool) (le : α → α → Prop) : Prop where
  refl : ∀ x, le x x
  trans : ∀ {x y z}, le x y → le y z → le x z
  taken : ∀ {x b}, take x b = true → le b x
  left : ∀ {x b}, take x b = false → le x b

section

variable {take : α → α → Bool} {le before : α → α → Prop}

/-- The result comes from the list or was there before, and is as good as any. -/
structure Greatest (le : α → α → Prop) (best : Option α) (xs : List α) (r : α) : Prop where
  mem : best = some r ∨ r ∈ xs
  best : ∀ b, best = some b → le b r
  all : ∀ x ∈ xs, le x r

theorem foldl_select_greatest_along (h : FollowsAlong before take le) (xs : List α) {best : Option α} {r : α}
    (horder : (best.toList ++ xs).Pairwise before) (hr : xs.foldl (select take) best = some r) :
    Greatest le best xs r := by
  induction xs generalizing best with
  | nil =>
    have hbest : best = some r := hr
    refine ⟨.inl hbest, ?_, by simp⟩
    intro b hb
    obtain rfl : b = r := Option.some.inj (hb.symm.trans hbest)
    exact h.refl b
  | cons x xs ih =>
    have hstep : ∃ b, select take best x = some b ∧ (best = some b ∨ b = x) ∧ le x b ∧
        ∀ b', best = some b' → le b' b := by
      cases best with
      | none => exact ⟨x, rfl, .inr rfl, h.refl x, by simp⟩
      | some b =>
        have hbx : before b x := List.rel_of_pairwise_cons horder (List.mem_cons_self ..)
        cases htake : take x b with
        | false =>
          refine ⟨b, by simp [select, htake], .inl rfl, h.left hbx htake, ?_⟩
          intro b' hb'
          rw [← Option.some.inj hb']
          exact h.refl b
        | true =>
          refine ⟨x, by simp [select, htake], .inr rfl, h.refl x, ?_⟩
          intro b' hb'
          rw [← Option.some.inj hb']
          exact h.taken hbx htake
    obtain ⟨b, hsel, hmem, hx, hbest⟩ := hstep
    have hnext : ((select take best x).toList ++ xs).Pairwise before := by
      rw [hsel]
      have hsub : ([b] ++ xs).Sublist (best.toList ++ x :: xs) := by
        rcases hmem with rfl | rfl
        · exact List.Sublist.append_left (List.sublist_cons_self x xs) [b]
        · exact List.sublist_append_right best.toList _
      exact horder.sublist hsub
    have hrest := ih hnext hr
    have hbr := hrest.best b hsel
    refine ⟨?_, fun b' hb' => h.trans (hbest b' hb') hbr, ?_⟩
    · obtain heq | hin := hrest.mem
      · rw [hsel] at heq
        obtain rfl := Option.some.inj heq
        obtain hb | rfl := hmem
        · exact .inl hb
        · exact .inr (List.mem_cons_self ..)
      · exact .inr (List.mem_cons_of_mem x hin)
    · intro y hy
      obtain rfl | hy := List.mem_cons.mp hy
      · exact h.trans hx hbr
      · exact hrest.all y hy

theorem foldl_select_greatest (h : Follows take le) (xs : List α) {best : Option α} {r : α}
    (hr : xs.foldl (select take) best = some r) : Greatest le best xs r := by
  have halong : FollowsAlong (fun _ _ => True) take le := ⟨h.refl, h.trans, fun _ => h.taken, fun _ => h.left⟩
  exact foldl_select_greatest_along halong xs (List.pairwise_of_forall fun _ _ => trivial) hr

theorem foldl_select_none {xs : List α} {best : Option α}
    (hr : xs.foldl (select take) best = none) : best = none ∧ xs = [] := by
  induction xs generalizing best with
  | nil => exact ⟨hr, rfl⟩
  | cons x xs ih =>
    have hnone := (ih hr).1
    cases best with
    | none => cases hnone
    | some b =>
      simp only [select] at hnone
      split at hnone
      · cases hnone
      · cases hnone

end

/-! ## Candidates that are the same -/

section

variable {better same : α → α → Bool} {wanted : α → Bool} {seen xs : List α} {best x : α}

def prefer (better same : α → α → Bool) (wanted : α → Bool) (best x : α) : α :=
  let best := if better x best = true then x else best
  if (same x best && wanted x) = true then x else best

/-- A strict weak order that does not tell those apart that are the same. -/
structure Strict (better same : α → α → Bool) : Prop where
  asymm : ∀ {x y}, better x y = true → better y x = false
  trans : ∀ {x y z}, better x y = false → better y z = false → better x z = false
  refl : ∀ x, same x x = true
  same_right : ∀ {x y} z, same x y = true → better z x = better z y
  same_left : ∀ {x y} z, same x y = true → better x z = better y z

theorem Strict.irrefl (h : Strict better same) (x : α) : better x x = false := by
  cases hx : better x x with
  | false => rfl
  | true => exact hx.symm.trans (h.asymm hx)

/-- None of those seen is better, and if one that is the same is wanted, so is the best. -/
structure Kept (better same : α → α → Bool) (wanted : α → Bool) (seen : List α) (best : α) : Prop where
  notBetter : ∀ y ∈ seen, better y best = false
  kind : ∀ y ∈ seen, same y best = true → wanted y = true → wanted best = true

theorem prefer_or : prefer better same wanted best x = x ∨ prefer better same wanted best x = best := by
  simp only [prefer]
  split
  · exact Or.inl (ite_self _)
  · split
    · exact Or.inl rfl
    · exact Or.inr rfl

theorem prefer_better (h : Strict better same) (hx : better x best = true) : prefer better same wanted best x = x := by
  simp only [prefer, if_pos hx, h.refl, ite_self]

theorem prefer_not_better (hx : better x best = false) :
    prefer better same wanted best x = if (same x best && wanted x) = true then x else best := by
  simp only [prefer, hx, Bool.false_eq_true, if_false]

theorem Kept.step (h : Strict better same) (hk : Kept better same wanted seen best) (x : α) :
    Kept better same wanted (seen ++ [x]) (prefer better same wanted best x) := by
  cases hx : better x best with
  | true =>
    rw [prefer_better h hx]
    constructor
    · intro y hy
      rcases List.mem_append.mp hy with hy | hy
      · exact h.trans (hk.notBetter y hy) (h.asymm hx)
      · rw [List.mem_singleton.mp hy, h.irrefl]
    · intro y hy hsame hwanted
      rcases List.mem_append.mp hy with hy | hy
      · -- One seen before that is the same would be better than the best.
        have hbetter := hk.notBetter y hy
        rw [h.same_left best hsame, hx] at hbetter
        cases hbetter
      · rwa [List.mem_singleton.mp hy] at hwanted
  | false =>
    rw [prefer_not_better hx]
    split
    · rename_i hboth
      rw [Bool.and_eq_true] at hboth
      constructor
      · intro y hy
        rcases List.mem_append.mp hy with hy | hy
        · rw [h.same_right y hboth.1]
          exact hk.notBetter y hy
        · rw [List.mem_singleton.mp hy, h.irrefl]
      · exact fun _ _ _ _ => hboth.2
    · rename_i hnot
      constructor
      · intro y hy
        rcases List.mem_append.mp hy with hy | hy
        · exact hk.notBetter y hy
        · rw [List.mem_singleton.mp hy]
          exact hx
      · intro y hy hsame hwanted
        rcases List.mem_append.mp hy with hy | hy
        · exact hk.kind y hy hsame hwanted
        · rw [List.mem_singleton.mp hy] at hsame hwanted
          exact absurd (by rw [hsame, hwanted]; rfl) hnot

end

end ChromeEc.Lib
