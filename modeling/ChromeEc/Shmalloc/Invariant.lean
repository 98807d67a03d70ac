import ChromeEc.Lib.Tiling
import ChromeEc.Shmalloc.Model

/- The heap invariant of the shared-memory allocator.

  `HeapOk base len s frees allocs` says that the free chain runs through the
  chunks `frees` and the allocated chain through `allocs`, that the free chunks
  ascend with a gap between any two of them, and that all chunks together tile
  the arena. A chunk that is on its way between the chains belongs to neither;
  `Detached` is the invariant of that moment. The two halves of `do_release` and
  `do_acquire` meet there: `take…` detaches a chunk (`takeAllocced_spec`,
  `takeFree_spec`), `bringBack_spec` and `HeapOk.push` attach it. -/
namespace ChromeEc.Shmalloc
open Lib Links

/-- The arena: not at address 0, room for more than one header, a multiple of
`sizeof(int)`, below the headroom of `do_acquire`, and its end is an address. -/
structure Arena (base len : Nat) : Prop where
  base_pos : 0 < base
  header_lt : headerSize < len
  aligned : 4 ∣ len
  lt_headroom : len < maxHeadroom
  end_lt : base + len < addrSpace

def chunksOf (size : Nat → Nat) (l : List Nat) : List Span := l.map fun a => (a, size a)

/-- The chunks ascend by address, and there is a gap between any two of them. -/
def Ascends (size : Nat → Nat) (l : List Nat) : Prop := l.Pairwise fun a b => a + size a < b

structure HeapOk (base len : Nat) (s : Shm) (frees allocs : List Nat) : Prop where
  free : Chain s.links NULL s.freeBufChain frees
  allocced : Chain s.links NULL s.alloccedBufChain allocs
  ascending : Ascends s.bufferSize frees
  tiles : Tiles base len (chunksOf s.bufferSize (frees ++ allocs))
  holdsHeader : ∀ a ∈ frees ++ allocs, headerSize ≤ s.bufferSize a ∧ 4 ∣ s.bufferSize a

/-- The invariant while the chunk `ptr` is on neither chain. -/
structure Detached (base len : Nat) (s : Shm) (frees allocs : List Nat) (ptr : Nat) : Prop where
  free : Chain s.links NULL s.freeBufChain frees
  allocced : Chain s.links NULL s.alloccedBufChain allocs
  ascending : Ascends s.bufferSize frees
  tiles : Tiles base len (chunksOf s.bufferSize (ptr :: (frees ++ allocs)))
  holdsHeader : ∀ a ∈ ptr :: (frees ++ allocs), headerSize ≤ s.bufferSize a ∧ 4 ∣ s.bufferSize a

/-! ## Chunks and sizes -/

theorem mem_chunksOf {size : Nat → Nat} {l : List Nat} {a : Nat} (ha : a ∈ l) :
    (a, size a) ∈ chunksOf size l :=
  List.mem_map.mpr ⟨a, ha, rfl⟩

theorem chunksOf_update {size : Nat → Nat} {l : List Nat} {a v : Nat} (ha : a ∉ l) :
    chunksOf (Function.update size a v) l = chunksOf size l := by
  apply List.map_congr_left
  intro b hb
  rw [Function.update_of_ne (ne_of_mem_of_not_mem hb ha)]

theorem chunksOf_perm {size : Nat → Nat} {l m : List Nat} (h : l.Perm m) :
    (chunksOf size l).Perm (chunksOf size m) := h.map _

section Tiled
variable {base len : Nat} {size : Nat → Nat} {l : List Nat}

theorem tiles_nodup (t : Tiles base len (chunksOf size l)) : l.Nodup := by
  rw [List.nodup_iff_pairwise_ne]
  have h := List.pairwise_map.mp t.apart
  refine h.imp_of_mem ?_
  rintro a b ha _ hab rfl
  have hp := t.pos _ (mem_chunksOf ha)
  simp only [Apart] at hab hp
  omega

theorem tiles_apart (t : Tiles base len (chunksOf size l)) {a b : Nat} (ha : a ∈ l) (hb : b ∈ l)
    (hne : a ≠ b) : a + size a ≤ b ∨ b + size b ≤ a :=
  t.apart.forall (mem_chunksOf ha) (mem_chunksOf hb) (by simp [hne])

theorem tiles_inside (t : Tiles base len (chunksOf size l)) {a : Nat} (ha : a ∈ l) :
    base ≤ a ∧ a + size a ≤ base + len :=
  t.inside _ (mem_chunksOf ha)

theorem tiles_pos (t : Tiles base len (chunksOf size l)) {a : Nat} (ha : a ∈ l) : 0 < size a :=
  t.pos _ (mem_chunksOf ha)

theorem tiles_length (t : Tiles base len (chunksOf size l)) : l.length ≤ len := by
  have h : l.length ≤ ((chunksOf size l).map Prod.snd).sum := by
    have hpos := t.pos
    clear t
    induction l with
    | nil => simp
    | cons a l ih =>
      have ha := hpos (a, size a) (by simp [chunksOf])
      have ih := ih (fun c hc => hpos c (by simp only [chunksOf, List.map_cons]; exact List.mem_cons_of_mem _ hc))
      simp only [chunksOf, List.map_cons, List.sum_cons, List.length_cons] at ih ha ⊢
      omega
  exact h.trans (le_of_eq t.total)

/-- In an arena no chunk is at address 0 and no chunk's end wraps. -/
theorem chunk_facts (ar : Arena base len) (t : Tiles base len (chunksOf size l)) {a : Nat}
    (ha : a ∈ l) : a ≠ NULL ∧ wadd a (size a) = a + size a ∧ a + size a < addrSpace := by
  have hi := tiles_inside t ha
  have hb := ar.base_pos
  have he := ar.end_lt
  refine ⟨?_, Nat.mod_eq_of_lt (by omega), by omega⟩
  show a ≠ 0
  omega

end Tiled

section Sorted
variable {size : Nat → Nat} {l l₁ l₂ : List Nat} {k v : Nat}

theorem ascends_append : Ascends size (l₁ ++ l₂) ↔
    Ascends size l₁ ∧ Ascends size l₂ ∧ ∀ a ∈ l₁, ∀ b ∈ l₂, a + size a < b :=
  List.pairwise_append

theorem ascends_cons {a : Nat} : Ascends size (a :: l) ↔
    (∀ b ∈ l, a + size a < b) ∧ Ascends size l :=
  List.pairwise_cons

theorem ascends_update (h : Ascends size l) (hk : k ∉ l) : Ascends (Function.update size k v) l := by
  refine h.imp_of_mem ?_
  intro a b ha _ hab
  rwa [Function.update_of_ne (ne_of_mem_of_not_mem ha hk)]

theorem ascends_split (h : Ascends size l) (hk : k ∉ l) :
    ∃ l₁ l₂, l = l₁ ++ l₂ ∧ (∀ a ∈ l₁, a < k) ∧ ∀ a ∈ l₂, k < a := by
  induction l with
  | nil => exact ⟨[], [], by simp⟩
  | cons a l ih =>
    obtain ⟨ha, hl⟩ := ascends_cons.mp h
    simp only [List.mem_cons, not_or] at hk
    by_cases hak : a < k
    · obtain ⟨l₁, l₂, rfl, h₁, h₂⟩ := ih hl hk.2
      exact ⟨a :: l₁, l₂, rfl, by simpa [hak] using h₁, h₂⟩
    · refine ⟨[], a :: l, rfl, by simp, ?_⟩
      intro b hb
      rcases List.mem_cons.mp hb with rfl | hb
      · omega
      · have := ha b hb
        omega

theorem ascends_above (h : Ascends size l) (hk : ∀ a ∈ l, k ≤ a) (hne : l.headD NULL ≠ k) :
    ∀ a ∈ l, k < a := by
  cases l with
  | nil => simp
  | cons b l =>
    have hb := hk b List.mem_cons_self
    have hne : b ≠ k := hne
    intro a ha
    rcases List.mem_cons.mp ha with rfl | ha
    · omega
    · have := (ascends_cons.mp h).1 a ha
      omega

theorem ascends_below {b : Nat} (h : Ascends size (l ++ [b])) (hk : ∀ a ∈ l ++ [b], a + size a ≤ k)
    (hne : b + size b ≠ k) : ∀ a ∈ l ++ [b], a + size a < k := by
  have hb := hk b (by simp)
  intro a ha
  rcases List.mem_append.mp ha with ha | ha
  · have := (ascends_append.mp h).2.2 a ha b (by simp)
    omega
  · simp only [List.mem_singleton] at ha
    subst ha
    omega

theorem ascends_around (h₁ : Ascends size l₁) (h₂ : Ascends size l₂)
    (hlo : ∀ a ∈ l₁, a + size a < k) (hhi : ∀ b ∈ l₂, k + v < b) :
    Ascends (Function.update size k v) (l₁ ++ k :: l₂) := by
  have hn₁ : k ∉ l₁ := fun h => absurd (hlo k h) (by omega)
  have hn₂ : k ∉ l₂ := fun h => absurd (hhi k h) (by omega)
  refine ascends_append.mpr
    ⟨ascends_update h₁ hn₁, ascends_cons.mpr ⟨?_, ascends_update h₂ hn₂⟩, ?_⟩
  · intro b hb
    rw [Function.update_self]
    exact hhi b hb
  · intro a ha b hb
    rw [Function.update_of_ne (ne_of_mem_of_not_mem ha hn₁)]
    have hak := hlo a ha
    rcases List.mem_cons.mp hb with rfl | hb
    · exact hak
    · have := hhi b hb
      omega

theorem tiles_absorb {base len a b : Nat} (t : Tiles base len (chunksOf size (a :: b :: l)))
    (hab : a + size a = b) :
    Tiles base len (chunksOf (Function.update size a (size a + size b)) (a :: l)) := by
  have hnd := tiles_nodup t
  simp only [List.nodup_cons, List.mem_cons, not_or] at hnd
  have hpa : 0 < size a := tiles_pos t (by simp)
  have hpb : 0 < size b := tiles_pos t (by simp)
  have he : chunksOf (Function.update size a (size a + size b)) (a :: l) =
      (a, size a + size b) :: chunksOf size l := by
    rw [← chunksOf_update (v := size a + size b) hnd.1.2]
    simp [chunksOf]
  rw [he, ← tiles_merge hpa hpb, hab]
  exact t

end Sorted

/-! ## Following and writing fields of a chunk -/

section Fields
variable {s : Shm} {p v : Nat}

theorem next_of_ne (h : p ≠ NULL) : s.next p = pure (s.links.next p) := if_neg h

theorem prev_of_ne (h : p ≠ NULL) : s.prev p = pure (s.links.prev p) := if_neg h

theorem size_of_ne (h : p ≠ NULL) : s.size p = pure (s.bufferSize p) := if_neg h

theorem setNext_of_ne (h : p ≠ NULL) :
    s.setNext p v = pure { s with links := s.links.setNext p v } := if_neg h

theorem setPrev_of_ne (h : p ≠ NULL) :
    s.setPrev p v = pure { s with links := s.links.setPrev p v } := if_neg h

theorem setSize_of_ne (h : p ≠ NULL) :
    s.setSize p v = pure { s with bufferSize := Function.update s.bufferSize p v } := if_neg h

theorem setPrevIf_headD {l : List Nat} (h : NULL ∉ l) :
    s.setPrevIf (l.headD NULL) v = pure { s with links := s.links.backTo l v } := by
  cases l with
  | nil => simp [Shm.setPrevIf]
  | cons a l =>
    have ha : a ≠ NULL := fun e => h (by simp [e])
    simp [Shm.setPrevIf, ha, setPrev_of_ne ha]

end Fields

end ChromeEc.Shmalloc
