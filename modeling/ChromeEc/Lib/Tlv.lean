import Mathlib.Algebra.GroupWithZero.Nat
import Mathlib.Data.List.Nodup
import Mathlib.Logic.Function.Basic

/- Entries of a key, the number of cells of the value, and the value, one behind the other.

  A value is stored over one of the same length, or the entry is taken out and a new one
  put behind the others (`Put`).

  What is proved: how long the encoding is (`length_encode`) and what it is for entries
  one behind the other (`encode_append`); and that either way of storing a value changes
  the store as a map at the one key (`Put.lookup`) and keeps the keys apart
  (`Put.nodup`). -/
namespace ChromeEc.Lib.Tlv

variable {β : Type} {count : Nat → β} {k j : β} {v old : List β} {l l' pre post : List (β × List β)}

/-! ## The encoding -/

def encode (count : Nat → β) : List (β × List β) → List β
  | [] => []
  | (k, v) :: l => k :: count v.length :: (v ++ encode count l)

theorem encode_append : encode count (pre ++ post) = encode count pre ++ encode count post := by
  induction pre with
  | nil => rfl
  | cons e pre ih => simp [encode, ih]

theorem encode_singleton : encode count [(k, v)] = k :: count v.length :: v := by simp [encode]

theorem length_encode_cons : (encode count ((k, v) :: l)).length = 2 + v.length + (encode count l).length := by
  simp only [encode, List.length_cons, List.length_append]
  omega

theorem length_encode : (encode count l).length = (l.map fun e => 2 + e.2.length).sum := by
  induction l with
  | nil => rfl
  | cons e l ih => rw [length_encode_cons, ih, List.map_cons, List.sum_cons]

/-! ## Storing a value -/

/-- What the entries become when a value is stored under a key. -/
inductive Put (k : β) (v : List β) : List (β × List β) → List (β × List β) → Prop where
  | append {l : List (β × List β)} (habsent : k ∉ l.map Prod.fst) : Put k v l (l ++ [(k, v)])
  | overwrite {pre post : List (β × List β)} {old : List β} (hlength : old.length = v.length)
      (hfirst : k ∉ pre.map Prod.fst) : Put k v (pre ++ (k, old) :: post) (pre ++ (k, v) :: post)
  | replace {pre post : List (β × List β)} {old : List β} (hfirst : k ∉ pre.map Prod.fst) :
      Put k v (pre ++ (k, old) :: post) (pre ++ post ++ [(k, v)])

theorem Put.nodup (h : Put k v l l') (hnodup : (l.map Prod.fst).Nodup) : (l'.map Prod.fst).Nodup := by
  cases h with
  | append habsent =>
    rw [List.map_append, List.map_singleton, ← List.concat_eq_append]
    exact hnodup.concat habsent
  | overwrite => simpa using hnodup
  | replace hfirst =>
    rename_i pre post old
    rw [List.map_append, List.map_cons] at hnodup
    have hapart := List.nodup_middle.mp hnodup
    rw [List.nodup_cons] at hapart
    rw [List.map_append, List.map_append, List.map_singleton, ← List.concat_eq_append]
    exact hapart.2.concat hapart.1

variable [DecidableEq β]

theorem lookup_eq_none (h : k ∉ l.map Prod.fst) : l.lookup k = none := by
  rw [List.lookup_eq_none_iff]
  intro e he
  have hne : k ≠ e.1 := fun heq => h (heq ▸ List.mem_map_of_mem he)
  simpa using hne

theorem lookup_split (hfirst : k ∉ pre.map Prod.fst) : (pre ++ (k, v) :: post).lookup k = some v := by
  rw [List.lookup_append, lookup_eq_none hfirst, Option.none_or, List.lookup_cons_self]

theorem exists_split (h : l.lookup k = some v) : ∃ pre post, l = pre ++ (k, v) :: post ∧ k ∉ pre.map Prod.fst := by
  obtain ⟨pre, post, hsplit, hfirst⟩ := List.lookup_eq_some_iff.mp h
  refine ⟨pre, post, hsplit, fun hmem => ?_⟩
  obtain ⟨e, he, hkey⟩ := List.mem_map.mp hmem
  have hne := hfirst e he
  rw [hkey] at hne
  simp at hne

theorem lookup_cons_of_ne (h : j ≠ k) : ((k, v) :: l).lookup j = l.lookup j := by
  rw [List.lookup_cons, beq_false_of_ne h]

theorem Put.lookup (h : Put k v l l') (hnodup : (l.map Prod.fst).Nodup) :
    (fun j => l'.lookup j) = Function.update (fun j => l.lookup j) k (some v) := by
  funext j
  cases h with
  | append habsent =>
    by_cases hkey : j = k
    · rw [hkey, Function.update_self, lookup_split habsent]
    · rw [Function.update_of_ne hkey, List.lookup_append, lookup_cons_of_ne hkey, List.lookup_nil, Option.or_none]
  | overwrite _ hfirst =>
    by_cases hkey : j = k
    · rw [hkey, Function.update_self, lookup_split hfirst]
    · rw [Function.update_of_ne hkey, List.lookup_append, List.lookup_append, lookup_cons_of_ne hkey,
        lookup_cons_of_ne hkey]
  | replace hfirst =>
    rename_i pre post old
    rw [List.map_append, List.map_cons] at hnodup
    have hapart := (List.nodup_cons.mp (List.nodup_middle.mp hnodup)).1
    by_cases hkey : j = k
    · rw [hkey, Function.update_self]
      exact lookup_split (by rwa [List.map_append])
    · rw [Function.update_of_ne hkey, List.lookup_append, List.lookup_append, List.lookup_append,
        lookup_cons_of_ne hkey, lookup_cons_of_ne hkey, List.lookup_nil, Option.or_none]

end ChromeEc.Lib.Tlv
