import Mathlib.Data.List.Basic
import Mathlib.Data.List.Count
import Mathlib.Data.List.Range

/- Where the entries of a buffer are.

  Entries are numbered in the order in which they are written. Each is staged, then
  committed, then returned to the reader; the oldest one that is not returned yet may be
  dropped, which makes it lost. From time to time the losses are put away. A `Belt` has
  the numbers of the entries in each place.

  What is proved: whatever moves there are, each number is in exactly one place, and what
  is returned, committed and staged is in the order of writing (`Sound`). -/
namespace ChromeEc.Lib

structure Belt where
  returned : List Nat
  committed : List Nat
  staged : List Nat
  lost : List Nat
  /-- The losses that were put away together. -/
  archive : List (List Nat)

namespace Belt

def empty : Belt := ⟨[], [], [], [], []⟩

/-- The entries that have not been returned, oldest first. -/
def waiting (b : Belt) : List Nat := b.committed ++ b.staged

/-- The entries that have not been dropped, oldest first. -/
def line (b : Belt) : List Nat := b.returned ++ b.waiting

def dropped (b : Belt) : List Nat := b.lost ++ b.archive.flatten

/-- Of `n` entries each one is somewhere, and nowhere else. -/
structure Sound (n : Nat) (b : Belt) : Prop where
  order : b.line.Pairwise (· < ·)
  all : (b.line ++ b.dropped).Perm (List.range n)

def write (b : Belt) (n : Nat) : Belt := { b with staged := b.staged ++ [n] }

def drop (b : Belt) : Belt :=
  match b.committed, b.staged with
  | i :: is, _ => { b with committed := is, lost := b.lost ++ [i] }
  | [], i :: is => { b with staged := is, lost := b.lost ++ [i] }
  | [], [] => b

def commit (b : Belt) : Belt := { b with committed := b.committed ++ b.staged, staged := [] }

def read (b : Belt) (k : Nat) : Belt :=
  { b with returned := b.returned ++ b.committed.take k, committed := b.committed.drop k }

def putAway (b : Belt) : Belt := { b with lost := [], archive := b.archive ++ [b.lost] }

variable {n : Nat} {b : Belt}

theorem line_write : (b.write n).line = b.line ++ [n] := by simp [line, write, waiting]

theorem line_commit : b.commit.line = b.line := by simp [line, commit, waiting]

theorem line_read (k : Nat) : (b.read k).line = b.line := by
  rw [line, line, waiting, waiting, read, List.append_assoc, ← List.append_assoc (b.committed.take k),
    List.take_append_drop]

theorem drop_committed {i : Nat} {is : List Nat} (h : b.committed = i :: is) :
    b.drop = { b with committed := is, lost := b.lost ++ [i] } := by
  simp only [drop, h]

theorem drop_staged {i : Nat} {is : List Nat} (h : b.committed = []) (h' : b.staged = i :: is) :
    b.drop = { b with staged := is, lost := b.lost ++ [i] } := by
  simp only [drop, h, h']

/-- The oldest entry that waits, if there is one, is the last that is lost. -/
theorem drop_cases : (b.waiting = [] ∧ b.drop = b) ∨
    ∃ i, b.waiting = i :: b.drop.waiting ∧ b.drop.returned = b.returned ∧
      b.drop.lost = b.lost ++ [i] ∧ b.drop.archive = b.archive := by
  cases hc : b.committed with
  | cons i is =>
    refine .inr ⟨i, ?_⟩
    rw [drop_committed hc]
    exact ⟨by rw [waiting, hc]; rfl, rfl, rfl, rfl⟩
  | nil =>
    cases hs : b.staged with
    | cons i is =>
      refine .inr ⟨i, ?_⟩
      rw [drop_staged hc hs]
      exact ⟨by rw [waiting, waiting, hc, hs]; rfl, rfl, rfl, rfl⟩
    | nil => exact .inl ⟨by rw [waiting, hc, hs]; rfl, by simp only [drop, hc, hs]⟩

theorem drops (k : Nat) :
    (Belt.drop^[k] b).returned = b.returned ∧ (Belt.drop^[k] b).waiting = b.waiting.drop k := by
  induction k generalizing b with
  | zero => exact ⟨rfl, rfl⟩
  | succ k ih =>
    rw [Function.iterate_succ_apply]
    obtain ⟨hreturned, hwaiting⟩ := ih (b := b.drop)
    obtain ⟨hnil, heq⟩ | ⟨i, hcons, hsame, -, -⟩ := drop_cases (b := b)
    · rw [heq, hnil, List.drop_nil] at hwaiting
      rw [heq] at hreturned ⊢
      exact ⟨hreturned, by rw [hwaiting, hnil, List.drop_nil]⟩
    · exact ⟨hreturned.trans hsame, by rw [hwaiting, hcons, List.drop_succ_cons]⟩

/-! ## Every move keeps the order -/

theorem sound_empty : Sound 0 empty := ⟨.nil, .nil⟩

theorem Sound.lt (h : Sound n b) {i : Nat} (hi : i ∈ b.line ++ b.dropped) : i < n :=
  List.mem_range.mp (h.all.mem_iff.mp hi)

theorem Sound.write (h : Sound n b) : Sound (n + 1) (b.write n) := by
  refine ⟨?_, ?_⟩
  · rw [line_write, List.pairwise_append]
    refine ⟨h.order, List.pairwise_singleton _ n, ?_⟩
    intro i hi j hj
    rw [List.mem_singleton.mp hj]
    exact h.lt (List.mem_append_left _ hi)
  · have hlast : (b.line ++ [n] ++ b.dropped).Perm (b.line ++ b.dropped ++ [n]) := by
      rw [List.append_assoc, List.append_assoc]
      exact List.perm_append_comm.append_left _
    rw [line_write, List.range_succ]
    exact hlast.trans (h.all.append_right [n])

theorem Sound.drop (h : Sound n b) : Sound n b.drop := by
  obtain ⟨-, heq⟩ | ⟨i, hwaiting, hreturned, hlost, harchive⟩ := drop_cases (b := b)
  · rw [heq]
    exact h
  · refine ⟨?_, ?_⟩
    · refine List.Pairwise.sublist ?_ h.order
      rw [line, line, hreturned, hwaiting]
      exact List.Sublist.append_left (.cons _ (List.Sublist.refl _)) _
    · refine List.Perm.trans ?_ h.all
      rw [List.perm_iff_count]
      intro j
      simp only [line, dropped, hreturned, hwaiting, hlost, harchive, List.count_append,
        List.count_cons, List.count_nil]
      omega

theorem Sound.commit (h : Sound n b) : Sound n b.commit :=
  ⟨by rw [line_commit]; exact h.order, by rw [line_commit]; exact h.all⟩

theorem Sound.read (h : Sound n b) (k : Nat) : Sound n (b.read k) :=
  ⟨by rw [line_read]; exact h.order, by rw [line_read]; exact h.all⟩

theorem Sound.putAway (h : Sound n b) : Sound n b.putAway := by
  refine ⟨h.order, List.Perm.trans (List.Perm.append_left _ ?_) h.all⟩
  rw [dropped, dropped, Belt.putAway, List.flatten_append, List.flatten_singleton, List.nil_append]
  exact List.perm_append_comm

end Belt

/-! ## Entries that follow another -/

section

variable {α : Type} {leads : α → Prop} {follows : α → α → Prop}

/-- Each entry is one that leads or follows the entry right before it. -/
structure Tied (leads : α → Prop) (follows : α → α → Prop) (l : List α) : Prop where
  head : ∀ a ∈ l.head?, leads a
  chain : l.IsChain fun a b => leads b ∨ follows a b

variable {l l₁ l₂ : List α}

theorem tied_nil : Tied leads follows [] := ⟨by simp, .nil⟩

theorem Tied.mono {leads' : α → Prop} {follows' : α → α → Prop} (h : Tied leads follows l)
    (hl : ∀ a, leads a → leads' a) (hf : ∀ a b, follows a b → follows' a b) : Tied leads' follows' l :=
  ⟨fun a ha => hl a (h.head a ha), h.chain.imp fun a b hab => hab.imp (hl b) (hf a b)⟩

theorem Tied.left (h : Tied leads follows (l₁ ++ l₂)) : Tied leads follows l₁ := by
  refine ⟨?_, (List.isChain_append.mp h.chain).1⟩
  intro a ha
  apply h.head
  rw [List.head?_append_of_ne_nil]
  · exact ha
  · rintro rfl
    cases ha

theorem Tied.right (h : Tied leads follows (l₁ ++ l₂)) (hl : ∀ a ∈ l₂.head?, leads a) :
    Tied leads follows l₂ := ⟨hl, (List.isChain_append.mp h.chain).2.1⟩

theorem Tied.cut {xs : List α} (h : Tied leads follows (l₁ ++ (xs ++ l₂))) (hl : ∀ a ∈ l₂.head?, leads a) :
    Tied leads follows (l₁ ++ l₂) := by
  obtain ⟨h₁, hrest, -⟩ := List.isChain_append.mp h.chain
  obtain ⟨-, h₂, -⟩ := List.isChain_append.mp hrest
  refine ⟨?_, List.isChain_append.mpr ⟨h₁, h₂, fun _ _ b hb => .inl (hl b hb)⟩⟩
  cases l₁ with
  | nil => exact hl
  | cons a l₁ => exact h.head

theorem Tied.snoc (h : Tied leads follows l) {b : α} (hb : leads b ∨ ∃ a ∈ l.getLast?, follows a b) :
    Tied leads follows (l ++ [b]) := by
  refine ⟨?_, List.isChain_append.mpr ⟨h.chain, .singleton b, ?_⟩⟩
  · cases l with
    | nil =>
      obtain hb | ⟨a, ha, -⟩ := hb
      · simpa using hb
      · cases ha
    | cons a l => exact h.head
  · intro a ha b' hb'
    cases hb'
    obtain hb | ⟨a', ha', hb⟩ := hb
    · exact .inl hb
    · cases Option.some.inj (ha.symm.trans ha')
      exact .inr hb

theorem Tied.before (h : Tied leads follows l) {j : Nat} {b : α} (hb : l[j]? = some b) (hne : ¬leads b) :
    ∃ i a, j = i + 1 ∧ l[i]? = some a ∧ follows a b := by
  cases j with
  | zero => exact absurd (h.head b (by rw [List.head?_eq_getElem?]; exact hb)) hne
  | succ i =>
    obtain ⟨hlt, rfl⟩ := List.getElem?_eq_some_iff.mp hb
    have hi : i < l.length := Nat.lt_of_succ_lt hlt
    refine ⟨i, l[i], rfl, List.getElem?_eq_getElem hi, ?_⟩
    exact (List.isChain_iff_getElem.mp h.chain i hlt).resolve_left hne

end

end ChromeEc.Lib
