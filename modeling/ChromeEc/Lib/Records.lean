import ChromeEc.Lib.Tiling

/- Records of several sizes one after the other, from an address on up to `top`.

  `stored t x` says that record `x` is to be found at `t`. A record in front of the others
  is a new head of the list, so that the list is a stack that grows downwards.

  What is proved: the records tile the addresses from the first on (`Laid.tiles`), each is
  stored where its span says (`Laid.spans`), and they do not depend on anything in front of
  them (`Laid.mono`). -/
namespace ChromeEc.Lib

variable {α : Type} {stored stored' : Nat → α → Prop} {size : α → Nat} {top t : Nat} {x : α} {xs : List α}

def Laid (stored : Nat → α → Prop) (size : α → Nat) (top : Nat) : Nat → List α → Prop
  | t, [] => t = top
  | t, x :: xs => stored t x ∧ Laid stored size top (t + size x) xs

def spans (size : α → Nat) : Nat → List α → List Span
  | _, [] => []
  | t, x :: xs => (t, size x) :: spans size (t + size x) xs

theorem Laid.le (h : Laid stored size top t xs) : t ≤ top := by
  induction xs generalizing t with
  | nil => exact Nat.le_of_eq h
  | cons x xs ih => exact Nat.le_trans (Nat.le_add_right _ _) (ih h.2)

theorem Laid.length_le (hpos : ∀ x, 0 < size x) (h : Laid stored size top t xs) : t + xs.length ≤ top := by
  induction xs generalizing t with
  | nil => exact Nat.le_of_eq h
  | cons x xs ih =>
    have hrest := ih h.2
    have hx := hpos x
    rw [List.length_cons]
    omega

theorem Laid.mono (h : Laid stored size top t xs)
    (hkept : ∀ u y, t ≤ u → u + size y ≤ top → stored u y → stored' u y) : Laid stored' size top t xs := by
  induction xs generalizing t with
  | nil => exact h
  | cons x xs ih =>
    refine ⟨hkept t x (Nat.le_refl t) h.2.le h.1, ih h.2 ?_⟩
    intro u y hu htop
    exact hkept u y (Nat.le_trans (Nat.le_add_right _ _) hu) htop

theorem Laid.spans (h : Laid stored size top t xs) :
    List.Forall₂ (fun (c : Span) x => stored c.1 x ∧ c.2 = size x) (spans size t xs) xs := by
  induction xs generalizing t with
  | nil => exact .nil
  | cons x xs ih => exact .cons ⟨h.1, rfl⟩ (ih h.2)

theorem Laid.tiles (hpos : ∀ x, 0 < size x) (h : Laid stored size top t xs) :
    Tiles t (top - t) (Lib.spans size t xs) := by
  induction xs generalizing t with
  | nil =>
    obtain rfl : t = top := h
    rw [Nat.sub_self]
    exact ⟨.nil, fun _ hc => absurd hc List.not_mem_nil, fun _ hc => absurd hc List.not_mem_nil, rfl⟩
  | cons x xs ih =>
    have hle := h.2.le
    obtain ⟨hapart, hinside, hnonempty, htotal⟩ := ih h.2
    refine ⟨?_, ?_, ?_, ?_⟩
    · refine List.pairwise_cons.mpr ⟨?_, hapart⟩
      intro c hc
      exact .inl (hinside c hc).1
    · intro c hc
      rcases List.mem_cons.mp hc with rfl | hc
      · exact ⟨Nat.le_refl t, by dsimp only; omega⟩
      · have hc := hinside c hc
        omega
    · intro c hc
      rcases List.mem_cons.mp hc with rfl | hc
      · exact hpos x
      · exact hnonempty c hc
    · rw [Lib.spans, List.map_cons, List.sum_cons, htotal]
      omega

end ChromeEc.Lib
