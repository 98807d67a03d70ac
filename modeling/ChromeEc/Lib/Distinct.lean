import Mathlib.Data.List.Nodup

/- The different values of a list, in the order in which they first came.

  `addNew table values` appends to a table those of the values that are not in it yet.

  What is proved: the table only grows at its end (`prefix_addNew`), it has the values and no
  others (`mem_addNew`), and a table that has stopped after some of the values agrees with the one
  for all of them, cut to `n` places, exactly when it has at most `n` and is full or the others
  bring nothing new (`take_addNew_iff`). -/
namespace ChromeEc.Lib.Distinct

variable {α : Type} [DecidableEq α] {table xs ys values : List α} {v x : α} {n : Nat}

def addNew (table values : List α) : List α :=
  values.foldl (fun table v => if v ∈ table then table else table ++ [v]) table

@[simp] theorem addNew_nil : addNew table [] = table := rfl

theorem addNew_cons : addNew table (v :: values) = addNew (addNew table [v]) values := rfl

theorem addNew_append : addNew table (xs ++ ys) = addNew (addNew table xs) ys := List.foldl_append

theorem addNew_mem (h : v ∈ table) : addNew table [v] = table := if_pos h

theorem addNew_not_mem (h : v ∉ table) : addNew table [v] = table ++ [v] := if_neg h

theorem prefix_addNew : table <+: addNew table values := by
  induction values generalizing table with
  | nil => exact List.prefix_refl table
  | cons v values ih =>
    have hone : table <+: addNew table [v] := by
      by_cases h : v ∈ table
      · exact (addNew_mem h).symm ▸ List.prefix_refl table
      · rw [addNew_not_mem h]
        exact List.prefix_append table [v]
    exact hone.trans ih

theorem mem_addNew : x ∈ addNew table values ↔ x ∈ table ∨ x ∈ values := by
  induction values generalizing table with
  | nil => simp
  | cons v values ih =>
    rw [addNew_cons, ih, List.mem_cons]
    by_cases h : v ∈ table
    · rw [addNew_mem h]
      constructor
      · exact Or.imp_right Or.inr
      · rintro (hx | rfl | hx)
        · exact Or.inl hx
        · exact Or.inl h
        · exact Or.inr hx
    · rw [addNew_not_mem h, List.mem_append, List.mem_singleton, or_assoc]

theorem addNew_eq_self : addNew table values = table ↔ ∀ v ∈ values, v ∈ table := by
  constructor
  · intro h v hv
    rw [← h]
    exact mem_addNew.mpr (Or.inr hv)
  · intro h
    induction values with
    | nil => rfl
    | cons v values ih =>
      rw [addNew_cons, addNew_mem (h v (List.mem_cons_self ..))]
      exact ih fun w hw => h w (List.mem_cons_of_mem v hw)

theorem length_le_addNew : table.length ≤ (addNew table values).length := prefix_addNew.length_le

/-- A table agrees with the first places of a later one when it is full, or when nothing was added. -/
theorem take_addNew_iff :
    table = (addNew table values).take n ↔ table.length ≤ n ∧ (table.length = n ∨ ∀ v ∈ values, v ∈ table) := by
  rw [← addNew_eq_self]
  constructor
  · intro h
    have hlen := congrArg List.length h
    rw [List.length_take] at hlen
    refine ⟨by omega, ?_⟩
    by_cases hfull : table.length = n
    · exact Or.inl hfull
    · refine Or.inr ?_
      rw [List.take_of_length_le (by omega)] at h
      exact h.symm
  · rintro ⟨hle, hfull | hsame⟩
    · rw [← hfull]
      exact List.prefix_iff_eq_take.mp prefix_addNew
    · rw [hsame, List.take_of_length_le hle]

end ChromeEc.Lib.Distinct
