import Mathlib.Logic.Function.Basic
import Mathlib.Data.List.Nodup

/- Doubly linked chains in a pointer heap.

  A heap of cells with a forward and a backward link is two total functions
  from addresses to addresses. `Seg h p l e` says that the cells of `l` are
  linked in order, that the first one points back to `p` and that the last one
  points forward to `e`; `Chain` is the closed case, where both ends are the
  null address and a head pointer names the first cell. Editing a chain in
  place is editing two segments and joining them again (`seg_join`): the last
  cell of the left segment is pointed at the right one (`linkTo`), the first
  cell of the right segment is pointed back (`backTo`). -/
namespace ChromeEc.Lib

structure Links (A : Type) where
  next : A → A
  prev : A → A

namespace Links
variable {A : Type}

/-- The cells of `l` are linked in order, from `p` behind the first one to `e`
after the last one. -/
def Seg (h : Links A) : A → List A → A → Prop
  | _, [], _ => True
  | p, a :: l, e => h.prev a = p ∧ h.next a = l.headD e ∧ Seg h a l e

theorem seg_append {h : Links A} {p e : A} {l₁ l₂ : List A} :
    Seg h p (l₁ ++ l₂) e ↔ Seg h p l₁ (l₂.headD e) ∧ Seg h (l₁.getLastD p) l₂ e := by
  induction l₁ generalizing p with
  | nil => simp [Seg]
  | cons a l ih =>
    have hd : (l ++ l₂).headD e = l.headD (l₂.headD e) := by cases l <;> simp
    simp only [List.cons_append, Seg, ih, hd, List.getLastD_cons]
    tauto

theorem headD_append_cons (l x y : List A) (a e : A) :
    (l ++ a :: x).headD e = (l ++ a :: y).headD e := by
  cases l <;> rfl

theorem seg_congr {h h' : Links A} {p e : A} {l : List A}
    (hn : ∀ a ∈ l, h'.next a = h.next a) (hp : ∀ a ∈ l, h'.prev a = h.prev a) :
    Seg h' p l e ↔ Seg h p l e := by
  induction l generalizing p with
  | nil => simp [Seg]
  | cons a l ih =>
    simp only [Seg, hn a List.mem_cons_self, hp a List.mem_cons_self]
    rw [ih (fun b hb => hn b (List.mem_cons_of_mem a hb))
      (fun b hb => hp b (List.mem_cons_of_mem a hb))]

/-- A closed chain: `hd` names the first cell, no cell is the null address, no
cell occurs twice, and the links run through `l` in order, null at both ends. -/
structure Chain (h : Links A) (null hd : A) (l : List A) : Prop where
  head : hd = l.headD null
  null_notMem : null ∉ l
  nodup : l.Nodup
  seg : Seg h null l null

theorem Chain.prev_next {h : Links A} {null hd : A} {l : List A} (c : Chain h null hd l) {a : A}
    (ha : a ∈ l) (hn : h.next a ≠ null) : h.next a ∈ l ∧ h.prev (h.next a) = a := by
  obtain ⟨l₁, l₂, rfl⟩ := List.append_of_mem ha
  have hs := (seg_append.mp c.seg).2
  cases l₂ with
  | nil => exact absurd hs.2.1 hn
  | cons b l₂ =>
    have hb : h.next a = b := hs.2.1
    rw [hb]
    exact ⟨by simp, hs.2.2.1⟩

theorem Chain.next_prev {h : Links A} {null hd : A} {l : List A} (c : Chain h null hd l) {a : A}
    (ha : a ∈ l) (hp : h.prev a ≠ null) : h.prev a ∈ l ∧ h.next (h.prev a) = a := by
  obtain ⟨l₁, l₂, rfl⟩ := List.append_of_mem ha
  have hs := seg_append.mp c.seg
  rcases List.eq_nil_or_concat l₁ with rfl | ⟨l', b, rfl⟩
  · exact absurd hs.2.1 hp
  · rw [List.concat_eq_append] at hs ⊢
    have hb : h.prev a = b := by simpa using hs.2.1
    rw [hb]
    exact ⟨by simp, (seg_append.mp hs.1).2.2.1⟩

theorem Chain.head_prev {h : Links A} {null hd : A} {l : List A} (c : Chain h null hd l)
    (hne : hd ≠ null) : h.prev hd = null := by
  cases l with
  | nil => exact absurd c.head hne
  | cons a l =>
    have ha : hd = a := c.head
    rw [ha]
    exact c.seg.1

theorem Chain.ne_null {h : Links A} {null hd : A} {l : List A} (c : Chain h null hd l) {a : A}
    (ha : a ∈ l) : a ≠ null :=
  ne_of_mem_of_not_mem ha c.null_notMem

/-! ## Editing links in place -/

variable [DecidableEq A]

def setNext (h : Links A) (a v : A) : Links A := { h with next := Function.update h.next a v }

def setPrev (h : Links A) (a v : A) : Links A := { h with prev := Function.update h.prev a v }

@[simp] theorem setNext_prev (h : Links A) (a v : A) : (h.setNext a v).prev = h.prev := rfl

@[simp] theorem setPrev_next (h : Links A) (a v : A) : (h.setPrev a v).next = h.next := rfl

@[simp] theorem setNext_self (h : Links A) (a v : A) : (h.setNext a v).next a = v := by
  simp [setNext]

@[simp] theorem setPrev_self (h : Links A) (a v : A) : (h.setPrev a v).prev a = v := by
  simp [setPrev]

theorem setNext_other (h : Links A) {a b : A} (v : A) (hb : b ≠ a) :
    (h.setNext a v).next b = h.next b := by
  simp [setNext, hb]

theorem setPrev_other (h : Links A) {a b : A} (v : A) (hb : b ≠ a) :
    (h.setPrev a v).prev b = h.prev b := by
  simp [setPrev, hb]

@[simp] theorem setPrev_setPrev (h : Links A) (a v w : A) :
    (h.setPrev a v).setPrev a w = h.setPrev a w := by
  simp [setPrev]

theorem setPrev_comm (h : Links A) {a b : A} (v w : A) (hab : a ≠ b) :
    (h.setPrev a v).setPrev b w = (h.setPrev b w).setPrev a v := by
  simp [setPrev, Function.update_comm hab]

theorem seg_setNext_of_notMem {h : Links A} {p e a v : A} {l : List A} (ha : a ∉ l) :
    Seg (h.setNext a v) p l e ↔ Seg h p l e :=
  seg_congr (fun _ hb => setNext_other h v (ne_of_mem_of_not_mem hb ha)) (fun _ _ => rfl)

theorem seg_setPrev_of_notMem {h : Links A} {p e a v : A} {l : List A} (ha : a ∉ l) :
    Seg (h.setPrev a v) p l e ↔ Seg h p l e :=
  seg_congr (fun _ _ => rfl) (fun _ hb => setPrev_other h v (ne_of_mem_of_not_mem hb ha))

/-- Point the last cell of `l`, if there is one, forward at `v`. -/
def linkTo (h : Links A) (l : List A) (v : A) : Links A :=
  match l.getLast? with
  | none => h
  | some a => h.setNext a v

/-- Point the first cell of `l`, if there is one, back at `v`. -/
def backTo (h : Links A) (l : List A) (v : A) : Links A :=
  match l with
  | [] => h
  | a :: _ => h.setPrev a v

@[simp] theorem linkTo_nil (h : Links A) (v : A) : h.linkTo [] v = h := rfl

@[simp] theorem backTo_nil (h : Links A) (v : A) : h.backTo [] v = h := rfl

@[simp] theorem linkTo_concat (h : Links A) (l : List A) (a v : A) :
    h.linkTo (l ++ [a]) v = h.setNext a v := by
  simp [linkTo]

@[simp] theorem backTo_cons (h : Links A) (l : List A) (a v : A) :
    h.backTo (a :: l) v = h.setPrev a v := rfl

@[simp] theorem linkTo_prev (h : Links A) (l : List A) (v : A) : (h.linkTo l v).prev = h.prev := by
  unfold linkTo
  cases l.getLast? <;> rfl

@[simp] theorem backTo_next (h : Links A) (l : List A) (v : A) : (h.backTo l v).next = h.next := by
  cases l <;> rfl

theorem linkTo_next_of_notMem (h : Links A) {l : List A} (v : A) {b : A} (hb : b ∉ l) :
    (h.linkTo l v).next b = h.next b := by
  rcases List.eq_nil_or_concat l with rfl | ⟨l', a, rfl⟩
  · rfl
  · rw [List.concat_eq_append] at hb ⊢
    rw [linkTo_concat]
    exact setNext_other h v (by simp at hb; exact hb.2)

theorem backTo_prev_of_notMem (h : Links A) {l : List A} (v : A) {b : A} (hb : b ∉ l) :
    (h.backTo l v).prev b = h.prev b := by
  cases l with
  | nil => rfl
  | cons a l => exact setPrev_other h v (by simp at hb; exact hb.1)

theorem backTo_setPrev_comm (h : Links A) {l : List A} {a : A} (v w : A) (ha : a ∉ l) :
    (h.backTo l v).setPrev a w = (h.setPrev a w).backTo l v := by
  cases l with
  | nil => rfl
  | cons b l => exact setPrev_comm h v w (fun e => ha (by simp [e]))

theorem backTo_setNext (h : Links A) (l : List A) (a v w : A) :
    (h.setNext a v).backTo l w = (h.backTo l w).setNext a v := by
  cases l <;> rfl

theorem seg_linkTo {h : Links A} {p e e' : A} {l : List A} (hs : Seg h p l e) (hd : l.Nodup) :
    Seg (h.linkTo l e') p l e' := by
  rcases List.eq_nil_or_concat l with rfl | ⟨l', a, rfl⟩
  · trivial
  · rw [List.concat_eq_append] at hs hd ⊢
    have ha : a ∉ l' := fun hm => (List.disjoint_of_nodup_append hd) hm (by simp)
    rw [linkTo_concat]
    rw [seg_append] at hs ⊢
    refine ⟨(seg_setNext_of_notMem ha).mpr hs.1, ?_⟩
    exact ⟨hs.2.1, by simp, trivial⟩

theorem seg_backTo {h : Links A} {p p' e : A} {l : List A} (hs : Seg h p l e) (hd : l.Nodup) :
    Seg (h.backTo l p') p' l e := by
  cases l with
  | nil => trivial
  | cons a l =>
    refine ⟨by simp, hs.2.1, ?_⟩
    exact (seg_setPrev_of_notMem (List.nodup_cons.mp hd).1).mpr hs.2.2

theorem seg_linkTo_of_disjoint {h : Links A} {p e v : A} {l m : List A} (hs : Seg h p l e)
    (hd : l.Disjoint m) : Seg (h.linkTo m v) p l e :=
  (seg_congr (fun _ ha => linkTo_next_of_notMem h v (hd ha)) (fun _ _ => by simp)).mpr hs

theorem seg_backTo_of_disjoint {h : Links A} {p e v : A} {l m : List A} (hs : Seg h p l e)
    (hd : l.Disjoint m) : Seg (h.backTo m v) p l e :=
  (seg_congr (fun _ _ => by simp) (fun _ ha => backTo_prev_of_notMem h v (hd ha))).mpr hs

/-- Two segments joined: the left one is pointed at the right one and the right
one back at the left one. -/
theorem seg_join {h : Links A} {p q e e₁ : A} {l₁ l₂ : List A} (h₁ : Seg h p l₁ e₁)
    (h₂ : Seg h q l₂ e) (hd : (l₁ ++ l₂).Nodup) :
    Seg ((h.linkTo l₁ (l₂.headD e)).backTo l₂ (l₁.getLastD p)) p (l₁ ++ l₂) e := by
  obtain ⟨d₁, d₂, d₁₂⟩ := List.nodup_append'.mp hd
  rw [seg_append]
  exact ⟨seg_backTo_of_disjoint (seg_linkTo h₁ d₁) d₁₂,
    seg_backTo (seg_linkTo_of_disjoint h₂ (List.disjoint_comm.mp d₁₂)) d₂⟩

theorem Chain.setNext_frame {h : Links A} {null hd a v : A} {l : List A} (c : Chain h null hd l)
    (ha : a ∉ l) : Chain (h.setNext a v) null hd l :=
  ⟨c.head, c.null_notMem, c.nodup, (seg_setNext_of_notMem ha).mpr c.seg⟩

theorem Chain.setPrev_frame {h : Links A} {null hd a v : A} {l : List A} (c : Chain h null hd l)
    (ha : a ∉ l) : Chain (h.setPrev a v) null hd l :=
  ⟨c.head, c.null_notMem, c.nodup, (seg_setPrev_of_notMem ha).mpr c.seg⟩

theorem Chain.linkTo_frame {h : Links A} {null hd v : A} {l m : List A} (c : Chain h null hd l)
    (hm : l.Disjoint m) : Chain (h.linkTo m v) null hd l :=
  ⟨c.head, c.null_notMem, c.nodup, seg_linkTo_of_disjoint c.seg hm⟩

theorem Chain.backTo_frame {h : Links A} {null hd v : A} {l m : List A} (c : Chain h null hd l)
    (hm : l.Disjoint m) : Chain (h.backTo m v) null hd l :=
  ⟨c.head, c.null_notMem, c.nodup, seg_backTo_of_disjoint c.seg hm⟩

/-- What was between `l₁` and `l₂` is taken out of the chain. -/
theorem chain_join {h : Links A} {null q e : A} {l₁ l₂ : List A} (h₁ : Seg h null l₁ e)
    (h₂ : Seg h q l₂ null) (hd : (l₁ ++ l₂).Nodup) (hnull : null ∉ l₁ ++ l₂) :
    Chain ((h.linkTo l₁ (l₂.headD null)).backTo l₂ (l₁.getLastD null)) null
      ((l₁ ++ l₂).headD null) (l₁ ++ l₂) :=
  ⟨rfl, hnull, hd, seg_join h₁ h₂ hd⟩

/-- The links with the cell `a` put between `l₁` and `l₂`. -/
def insert (h : Links A) (null : A) (l₁ : List A) (a : A) (l₂ : List A) : Links A :=
  (((h.setNext a (l₂.headD null)).setPrev a (l₁.getLastD null)).backTo l₂ a).linkTo l₁ a

theorem Chain.insert_frame {h : Links A} {null hd a : A} {l l₁ l₂ : List A}
    (c : Chain h null hd l) (ha : a ∉ l) (h₁ : l.Disjoint l₁) (h₂ : l.Disjoint l₂) :
    Chain (h.insert null l₁ a l₂) null hd l :=
  (((c.setNext_frame ha).setPrev_frame ha).backTo_frame h₂).linkTo_frame h₁

/-- The cell `a` takes the place of what was between `l₁` and `l₂`. -/
theorem chain_insert {h : Links A} {null q e a : A} {l₁ l₂ : List A} (h₁ : Seg h null l₁ e)
    (h₂ : Seg h q l₂ null) (hd : (l₁ ++ a :: l₂).Nodup) (hnull : null ∉ l₁ ++ a :: l₂) :
    Chain (h.insert null l₁ a l₂) null ((l₁ ++ a :: l₂).headD null) (l₁ ++ a :: l₂) := by
  obtain ⟨d₁, d₂, d₁₂⟩ := List.nodup_append'.mp hd
  have ha₁ : a ∉ l₁ := fun hm => d₁₂ hm List.mem_cons_self
  have ha₂ : a ∉ l₂ := (List.nodup_cons.mp d₂).1
  have dl : l₁.Disjoint l₂ := fun _ hx hy => d₁₂ hx (List.mem_cons_of_mem a hy)
  -- The new cell's own links are set first; the neighbours' links do not touch them.
  have s₁ : Seg ((h.setNext a (l₂.headD null)).setPrev a (l₁.getLastD null)) null l₁ e :=
    (seg_setPrev_of_notMem ha₁).mpr ((seg_setNext_of_notMem ha₁).mpr h₁)
  have s₂ : Seg ((h.setNext a (l₂.headD null)).setPrev a (l₁.getLastD null)) q l₂ null :=
    (seg_setPrev_of_notMem ha₂).mpr ((seg_setNext_of_notMem ha₂).mpr h₂)
  refine ⟨rfl, hnull, hd, ?_⟩
  rw [seg_append]
  refine ⟨seg_linkTo (seg_backTo_of_disjoint s₁ dl) d₁, ?_, ?_, ?_⟩
  · simp only [insert, linkTo_prev]
    rw [backTo_prev_of_notMem _ _ ha₂]
    simp
  · simp only [insert]
    rw [linkTo_next_of_notMem _ _ ha₁]
    simp
  · exact seg_linkTo_of_disjoint (seg_backTo s₂ (List.nodup_cons.mp d₂).2)
      (List.disjoint_comm.mp dl)

end Links
end ChromeEc.Lib
