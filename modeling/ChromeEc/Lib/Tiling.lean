import Mathlib.Algebra.BigOperators.Group.Finset.Basic
import Mathlib.Algebra.BigOperators.Group.List.Basic
import Mathlib.Algebra.GroupWithZero.Nat
import Mathlib.Order.Interval.Finset.Nat

/- Tilings of an interval of addresses by chunks.

  A chunk is a start address and a length. `Tiles lo len cs` says that the
  chunks of `cs` are nonempty, lie in `[lo, lo + len)`, are pairwise disjoint,
  and have lengths that add up to `len`. The order of the chunks does not
  matter (`Tiles.perm`), two chunks that touch may be exchanged for their union
  and back (`tiles_merge`), and every address of the interval lies in exactly
  one chunk (`Tiles.exists_unique`). -/
namespace ChromeEc.Lib

/-- A chunk: its first address and its length. -/
abbrev Span := Nat × Nat

/-- The two chunks share no address. -/
def Apart (c d : Span) : Prop := c.1 + c.2 ≤ d.1 ∨ d.1 + d.2 ≤ c.1

instance (c d : Span) : Decidable (Apart c d) := inferInstanceAs (Decidable (_ ∨ _))

theorem Apart.symm {c d : Span} (h : Apart c d) : Apart d c := Or.symm h

instance : Std.Symm Apart := ⟨fun _ _ => Apart.symm⟩

/-- The chunks tile `[lo, lo + len)`. -/
structure Tiles (lo len : Nat) (cs : List Span) : Prop where
  apart : cs.Pairwise Apart
  inside : ∀ c ∈ cs, lo ≤ c.1 ∧ c.1 + c.2 ≤ lo + len
  pos : ∀ c ∈ cs, 0 < c.2
  total : (cs.map Prod.snd).sum = len

theorem Tiles.perm {lo len : Nat} {cs ds : List Span} (t : Tiles lo len cs) (h : cs.Perm ds) :
    Tiles lo len ds where
  apart := t.apart.perm h Apart.symm
  inside c hc := t.inside c (h.mem_iff.mpr hc)
  pos c hc := t.pos c (h.mem_iff.mpr hc)
  total := by rw [← t.total]; exact ((h.map Prod.snd).sum_eq).symm

theorem tiles_merge {lo len a n m : Nat} {cs : List Span} (hn : 0 < n) (hm : 0 < m) :
    Tiles lo len ((a, n) :: (a + n, m) :: cs) ↔ Tiles lo len ((a, n + m) :: cs) := by
  constructor
  · intro t
    have hp := List.pairwise_cons.mp t.apart
    have hq := List.pairwise_cons.mp hp.2
    refine ⟨List.pairwise_cons.mpr ⟨?_, hq.2⟩, ?_, ?_, ?_⟩
    · intro c hc
      have h₁ := hp.1 c (List.mem_cons_of_mem _ hc)
      have h₂ := hq.1 c hc
      have h₀ := t.pos c (List.mem_cons_of_mem _ (List.mem_cons_of_mem _ hc))
      simp only [Apart] at h₁ h₂ ⊢
      omega
    · intro c hc
      rcases List.mem_cons.mp hc with rfl | hc
      · have h₁ := t.inside (a, n) (by simp)
        have h₂ := t.inside (a + n, m) (by simp)
        simp only at h₁ h₂ ⊢
        omega
      · exact t.inside c (by simp [hc])
    · intro c hc
      rcases List.mem_cons.mp hc with rfl | hc
      · simp only; omega
      · exact t.pos c (by simp [hc])
    · have h := t.total
      simp only [List.map_cons, List.sum_cons] at h ⊢
      omega
  · intro t
    have hp := List.pairwise_cons.mp t.apart
    have hi := t.inside (a, n + m) (by simp)
    simp only at hi
    refine ⟨?_, ?_, ?_, ?_⟩
    · refine List.pairwise_cons.mpr ⟨?_, List.pairwise_cons.mpr ⟨?_, hp.2⟩⟩
      · intro c hc
        rcases List.mem_cons.mp hc with rfl | hc
        · exact Or.inl (Nat.le_refl _)
        · have h := hp.1 c hc
          simp only [Apart] at h ⊢
          omega
      · intro c hc
        have h := hp.1 c hc
        simp only [Apart] at h ⊢
        omega
    · intro c hc
      simp only [List.mem_cons] at hc
      rcases hc with rfl | rfl | hc
      · simp only; omega
      · simp only; omega
      · exact t.inside c (by simp [hc])
    · intro c hc
      simp only [List.mem_cons] at hc
      rcases hc with rfl | rfl | hc
      · exact hn
      · exact hm
      · exact t.pos c (by simp [hc])
    · have h := t.total
      simp only [List.map_cons, List.sum_cons] at h ⊢
      omega

def covered : List Span → Finset Nat
  | [] => ∅
  | c :: cs => Finset.Ico c.1 (c.1 + c.2) ∪ covered cs

theorem mem_covered {x : Nat} {cs : List Span} :
    x ∈ covered cs ↔ ∃ c ∈ cs, c.1 ≤ x ∧ x < c.1 + c.2 := by
  induction cs with
  | nil => simp [covered]
  | cons c cs ih => simp [covered, ih]

theorem card_covered {cs : List Span} (h : cs.Pairwise Apart) :
    (covered cs).card = (cs.map Prod.snd).sum := by
  induction cs with
  | nil => rfl
  | cons c cs ih =>
    obtain ⟨hc, hcs⟩ := List.pairwise_cons.mp h
    have hd : Disjoint (Finset.Ico c.1 (c.1 + c.2)) (covered cs) := by
      rw [Finset.disjoint_left]
      intro x hx hx'
      obtain ⟨d, hd, hdx⟩ := mem_covered.mp hx'
      have hx := Finset.mem_Ico.mp hx
      have ha := hc d hd
      simp only [Apart] at ha
      omega
    rw [covered, Finset.card_union_of_disjoint hd, ih hcs, Nat.card_Ico]
    simp

/-- Every address of the interval lies in exactly one chunk of the tiling. -/
theorem Tiles.exists_unique {lo len : Nat} {cs : List Span} (t : Tiles lo len cs) {x : Nat}
    (hlo : lo ≤ x) (hhi : x < lo + len) : ∃! c, c ∈ cs ∧ c.1 ≤ x ∧ x < c.1 + c.2 := by
  have hsub : covered cs ⊆ Finset.Ico lo (lo + len) := by
    intro y hy
    obtain ⟨c, hc, hcy⟩ := mem_covered.mp hy
    have hi := t.inside c hc
    rw [Finset.mem_Ico]
    omega
  have heq : covered cs = Finset.Ico lo (lo + len) := by
    apply Finset.eq_of_subset_of_card_le hsub
    rw [card_covered t.apart, t.total, Nat.card_Ico]
    omega
  have hx : x ∈ covered cs := by
    rw [heq, Finset.mem_Ico]
    exact ⟨hlo, hhi⟩
  obtain ⟨c, hc, hcx⟩ := mem_covered.mp hx
  refine ⟨c, ⟨hc, hcx⟩, ?_⟩
  rintro d ⟨hd, hdx⟩
  by_contra hne
  have ha := t.apart.forall hd hc hne
  simp only [Apart] at ha
  omega

/-- Where no two chunks touch there is only one. -/
theorem Tiles.single {lo len : Nat} {cs : List Span} (t : Tiles lo len cs) (hlen : 0 < len)
    (hgaps : ∀ c ∈ cs, ∀ d ∈ cs, c.1 + c.2 ≠ d.1) : cs = [(lo, len)] := by
  obtain ⟨c, ⟨hc, hlow, hhigh⟩, -⟩ := t.exists_unique (x := lo) (Nat.le_refl lo) (by omega)
  have hinside := t.inside c hc
  have hall : c.2 = len := by
    by_contra hne
    -- the chunk behind `c` touches it
    obtain ⟨d, ⟨hd, hdlow, hdhigh⟩, -⟩ := t.exists_unique (x := c.1 + c.2) (by omega) (by omega)
    have happart := t.apart.forall hc hd (by rintro rfl; omega)
    have hgap := hgaps c hc d hd
    simp only [Apart] at happart
    omega
  have hone : ∀ d ∈ cs, d = c := by
    intro d hd
    by_contra hne
    have happart := t.apart.forall hd hc hne
    have hdinside := t.inside d hd
    have hpos := t.pos d hd
    simp only [Apart] at happart
    omega
  obtain rfl : c = (lo, len) := Prod.ext (Nat.le_antisymm hlow hinside.1) hall
  rw [List.eq_replicate_of_mem hone] at t ⊢
  have htotal := t.total
  rw [List.map_replicate, List.sum_replicate_nat, Nat.mul_eq_right (Nat.ne_of_gt hlen)] at htotal
  rw [htotal]
  rfl

end ChromeEc.Lib
