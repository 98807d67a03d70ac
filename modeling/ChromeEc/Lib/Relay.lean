import Mathlib.Data.List.Sort
import Mathlib.Data.List.Chain
import Mathlib.Data.List.Perm.Subperm

/- A link on which the message under way is repeated until an acknowledgement of it arrives.

  Messages are numbered in the order in which they are queued. The copies that have not
  arrived are in a line: what was sent is before what is being repeated, and that is before
  what is still queued. Copies get lost, but they do not overtake one another. The receiver
  takes what arrives into a second queue and hands it on from there, and it tells a copy of the
  message before by a tag, which messages may share. It forgets that message when it starts
  again, and what waits with it.

  What is proved: each of these steps keeps `Sound`, under a condition on the state before it
  where the tag, the room in the queue or a fresh start can go wrong. In a sound state the
  messages handed on are some of those queued, in their order (`Sound.handed_sublist`), and
  each message that was given up as acknowledged was handed on or waits (`Sound.retired`). -/
namespace ChromeEc.Lib.Relay

variable {α : Type}

/-- What a message carries: its number, which its copies share, and the tag the receiver looks at. A control message is not
for the user of the receiver. -/
structure Labels (α : Type) where
  no : α → ℕ
  tag : α → ℤ
  control : α → Bool

structure Link (α : Type) where
  queued : List α
  line : List α
  /-- The numbers in the acknowledgements that are on their way or have not been looked at. -/
  acked : List ℕ
  retired : List α
  waiting : List α
  handed : List α
  /-- The message that a copy is told by. -/
  last : Option α

namespace Link

/-- Copies and acknowledgements get lost, or a copy is put behind itself. -/
def relabel (k : Link α) (line : List α) (acked : List ℕ) : Link α := { k with line := line, acked := acked }

def enqueue (k : Link α) (m : α) : Link α := { k with queued := k.queued ++ [m], line := k.line ++ [m] }

def retire (k : Link α) (m : α) : Link α := { k with retired := k.retired ++ [m] }

def take (k : Link α) (m : α) : Link α := { k with waiting := k.waiting ++ [m] }

def answer (k : Link α) (n : ℕ) : Link α := { k with acked := n :: k.acked }

def restart (k : Link α) : Link α := { k with waiting := [], last := none }

/-- The first message that waits is handed on, unless it counts as a copy. -/
def hand (L : Labels α) (k : Link α) : Link α :=
  match k.waiting with
  | [] => k
  | m :: rest =>
    if k.last.map L.tag = some (L.tag m) then { k with waiting := rest }
    else { k with waiting := rest, handed := k.handed ++ [m], last := some m }

def recent (k : Link α) : Option α := (k.last.toList ++ k.waiting).getLast?

end Link

variable {L : Labels α} {k : Link α} {line rest : List α} {acked : List ℕ} {m : α}

theorem Link.hand_copy (hwaiting : k.waiting = m :: rest) (htag : k.last.map L.tag = some (L.tag m)) :
    k.hand L = { k with waiting := rest } := by
  simp only [Link.hand, hwaiting]
  exact if_pos htag

theorem Link.hand_new (hwaiting : k.waiting = m :: rest) (htag : k.last.map L.tag ≠ some (L.tag m)) :
    k.hand L = { k with waiting := rest, handed := k.handed ++ [m], last := some m } := by
  simp only [Link.hand, hwaiting]
  exact if_neg htag

structure Link.Sound (L : Labels α) (k : Link α) : Prop where
  numbered : k.queued.Pairwise fun a b => L.no a < L.no b
  below : ∀ m ∈ k.queued, L.no m < k.queued.length
  ordered : (k.waiting ++ k.line).Pairwise fun a b => L.no a ≤ L.no b
  known : ∀ m ∈ k.waiting ++ k.line, m ∈ k.queued
  handedKnown : ∀ m ∈ k.handed, m ∈ k.queued
  plain : ∀ m ∈ k.waiting ++ k.handed, L.control m = false
  rising : k.handed.Pairwise fun a b => L.no a < L.no b
  /-- A message handed on has no copy on its way, except the one that copies are told by. -/
  ahead : ∀ h ∈ k.handed, ∀ m ∈ k.waiting ++ k.line, L.no h < L.no m ∨ k.last = some m
  lastHanded : ∀ p ∈ k.last, p ∈ k.handed
  told : (k.last.toList ++ k.waiting).IsChain fun p m => L.tag p = L.tag m → p = m
  ackedBelow : ∀ n ∈ k.acked, n < k.queued.length
  acked : ∀ n ∈ k.acked, ∀ m ∈ k.queued, L.no m = n → L.control m = false → m ∈ k.handed ∨ m ∈ k.waiting
  retired : ∀ m ∈ k.retired, m ∈ k.handed ∨ m ∈ k.waiting

def Link.empty : Link α := ⟨[], [], [], [], [], [], none⟩

theorem sound_empty : (Link.empty : Link α).Sound L := by
  constructor <;> simp [Link.empty]

namespace Link.Sound

variable (h : k.Sound L)
include h

theorem eq_of_no {a b : α} (ha : a ∈ k.queued) (hb : b ∈ k.queued) (hno : L.no a = L.no b) : a = b := by
  have hnodup : (k.queued.map L.no).Nodup := (List.pairwise_map.mpr h.numbered).imp fun hlt => ne_of_lt hlt
  exact List.inj_on_of_nodup_map hnodup ha hb hno

/-! ## What each step keeps -/

theorem thin (hline : line.Sublist k.line) (hacked : acked ⊆ k.acked) : (k.relabel line acked).Sound L where
  numbered := h.numbered
  below := h.below
  ordered := h.ordered.sublist (hline.append_left _)
  known := fun m hm => h.known m ((hline.append_left _).subset hm)
  handedKnown := h.handedKnown
  plain := h.plain
  rising := h.rising
  ahead := fun a ha m hm => h.ahead a ha m ((hline.append_left _).subset hm)
  lastHanded := h.lastHanded
  told := h.told
  ackedBelow := fun n hn => h.ackedBelow n (hacked hn)
  acked := fun n hn => h.acked n (hacked hn)
  retired := h.retired

theorem again {before after : List α} (hline : k.line = before ++ m :: after) :
    (k.relabel (before ++ m :: m :: after) k.acked).Sound L := by
  have hmem : ∀ x, x ∈ k.waiting ++ (before ++ m :: m :: after) ↔ x ∈ k.waiting ++ k.line := by
    intro x
    simp [hline]
  have hord := h.ordered
  refine { h with ordered := ?_, known := ?_, ahead := ?_ }
  · rw [hline, ← List.append_assoc, List.pairwise_append, List.pairwise_cons] at hord
    obtain ⟨hbefore, ⟨hm, hafter⟩, hcross⟩ := hord
    show List.Pairwise _ (k.waiting ++ (before ++ m :: m :: after))
    rw [← List.append_assoc, List.pairwise_append, List.pairwise_cons, List.pairwise_cons]
    refine ⟨hbefore, ⟨fun x hx => ?_, hm, hafter⟩, fun a ha x hx => hcross a ha x ?_⟩
    · rcases List.mem_cons.mp hx with rfl | hx
      · exact le_refl _
      · exact hm x hx
    · simpa using hx
  · exact fun x hx => h.known x ((hmem x).mp hx)
  · exact fun a ha x hx => h.ahead a ha x ((hmem x).mp hx)

theorem enqueue (hno : L.no m = k.queued.length) : (k.enqueue m).Sound L := by
  have hnew : ∀ x ∈ k.queued, L.no x < L.no m := fun x hx => hno ▸ h.below x hx
  have hsplit : ∀ x, x ∈ k.waiting ++ (k.line ++ [m]) → x ∈ k.waiting ++ k.line ∨ x = m := by
    intro x hx
    simpa [or_assoc] using hx
  have hgrows : (k.enqueue m).queued.length = k.queued.length + 1 := List.length_append
  refine { h with
    numbered := ?_, below := ?_, ordered := ?_, known := ?_, handedKnown := ?_,
    ahead := ?_, ackedBelow := ?_, acked := ?_ }
  · refine List.pairwise_append.mpr ⟨h.numbered, List.pairwise_singleton _ _, fun a ha b hb => ?_⟩
    rw [List.mem_singleton.mp hb]
    exact hnew a ha
  · intro x hx
    rw [hgrows]
    rcases List.mem_append.mp hx with hx | hx
    · exact (h.below x hx).trans (Nat.lt_succ_self _)
    · rw [List.mem_singleton.mp hx, hno]
      exact Nat.lt_succ_self _
  · show List.Pairwise _ (k.waiting ++ (k.line ++ [m]))
    rw [← List.append_assoc]
    refine List.pairwise_append.mpr ⟨h.ordered, List.pairwise_singleton _ _, fun a ha b hb => ?_⟩
    rw [List.mem_singleton.mp hb]
    exact (hnew a (h.known a ha)).le
  · intro x hx
    rcases hsplit x hx with hx | rfl
    · exact List.mem_append_left _ (h.known x hx)
    · exact List.mem_append_right _ (List.mem_singleton_self _)
  · exact fun x hx => List.mem_append_left _ (h.handedKnown x hx)
  · intro a ha x hx
    rcases hsplit x hx with hx | rfl
    · exact h.ahead a ha x hx
    · exact Or.inl (hnew a (h.handedKnown a ha))
  · intro n hn
    rw [hgrows]
    exact (h.ackedBelow n hn).trans (Nat.lt_succ_self _)
  · intro n hn x hx hxn hx'
    rcases List.mem_append.mp hx with hx | hx
    · exact h.acked n hn x hx hxn hx'
    · rw [List.mem_singleton.mp hx, hno] at hxn
      exact absurd hxn (h.ackedBelow n hn).ne'

theorem retire (hm : m ∈ k.queued) (hplain : L.control m = false) (hack : L.no m ∈ k.acked) : (k.retire m).Sound L := by
  refine { h with retired := fun x hx => ?_ }
  rcases List.mem_append.mp hx with hx | hx
  · exact h.retired x hx
  · rw [List.mem_singleton.mp hx]
    exact h.acked _ hack m hm rfl hplain

/-- The message that arrives is taken, and its copies are told by its tag. -/
theorem take (hline : k.line = m :: rest) (hplain : L.control m = false)
    (htag : ∀ p ∈ k.recent, L.tag p = L.tag m → p = m) : ((k.take m).relabel rest k.acked).Sound L := by
  have hwhole : (k.waiting ++ [m]) ++ rest = k.waiting ++ k.line := by rw [hline, List.append_assoc, List.singleton_append]
  refine { h with ordered := ?_, known := ?_, plain := ?_, ahead := ?_, told := ?_, acked := ?_, retired := ?_ }
  · show List.Pairwise _ ((k.waiting ++ [m]) ++ rest)
    rw [hwhole]
    exact h.ordered
  · intro x hx
    exact h.known x (hwhole ▸ hx)
  · intro x hx
    rcases List.mem_append.mp hx with hx | hx
    · rcases List.mem_append.mp hx with hx | hx
      · exact h.plain x (List.mem_append_left _ hx)
      · rw [List.mem_singleton.mp hx]
        exact hplain
    · exact h.plain x (List.mem_append_right _ hx)
  · intro a ha x hx
    exact h.ahead a ha x (hwhole ▸ hx)
  · show List.IsChain _ (k.last.toList ++ (k.waiting ++ [m]))
    rw [← List.append_assoc]
    refine h.told.append (List.isChain_singleton m) fun p hp x hx => ?_
    obtain rfl : m = x := by simpa using hx
    exact htag p hp
  · intro n hn x hx hxn hx'
    exact (h.acked n hn x hx hxn hx').imp_right fun hw => List.mem_append_left _ hw
  · intro x hx
    exact (h.retired x hx).imp_right fun hw => List.mem_append_left _ hw

theorem answer (hm : m ∈ k.queued) (htaken : L.control m = false → m ∈ k.handed ∨ m ∈ k.waiting) :
    (k.answer (L.no m)).Sound L := by
  refine { h with ackedBelow := fun n hn => ?_, acked := fun n hn x hx hxn hx' => ?_ }
  · rcases List.mem_cons.mp hn with rfl | hn
    · exact h.below m hm
    · exact h.ackedBelow n hn
  · rcases List.mem_cons.mp hn with rfl | hn
    · obtain rfl := h.eq_of_no hx hm hxn
      exact htaken hx'
    · exact h.acked n hn x hx hxn hx'

/-- The receiver starts again: what waits had been handed on before or was not acknowledged, and nothing that was handed on
comes once more. -/
theorem restart (hwaiting : ∀ m ∈ k.waiting, m ∈ k.handed ∨ m ∉ k.retired ∧ L.no m ∉ k.acked)
    (hfresh : ∀ a ∈ k.handed, ∀ m ∈ k.line, L.no a < L.no m) : k.restart.Sound L := by
  have hline : k.line.Sublist (k.waiting ++ k.line) := List.sublist_append_right _ _
  refine { h with
    ordered := h.ordered.sublist hline, known := fun x hx => h.known x (hline.subset hx), plain := ?_, ahead := ?_,
    lastHanded := ?_, told := ?_, acked := ?_, retired := ?_ }
  · exact fun x hx => h.plain x (List.mem_append_right _ hx)
  · exact fun a ha x hx => Or.inl (hfresh a ha x hx)
  · exact fun p hp => absurd hp (Option.not_mem_none p)
  · exact List.isChain_nil
  · intro n hn x hx hxn hx'
    rcases h.acked n hn x hx hxn hx' with hh | hw
    · exact Or.inl hh
    · exact (hwaiting x hw).imp_right fun hnot => absurd (hxn ▸ hn) hnot.2
  · intro x hx
    rcases h.retired x hx with hh | hw
    · exact Or.inl hh
    · exact (hwaiting x hw).imp_right fun hnot => absurd hx hnot.1

theorem fresh_of_not_handed (hnot : ∀ m ∈ k.line, m ∉ k.handed) : ∀ a ∈ k.handed, ∀ m ∈ k.line, L.no a < L.no m := by
  intro a ha m hm
  rcases h.ahead a ha m (List.mem_append_right _ hm) with hlt | hlast
  · exact hlt
  · exact absurd (h.lastHanded m hlast) (hnot m hm)

/-- What comes behind a control message was not handed on before. -/
theorem fresh_behind (hline : k.line = m :: rest) (hcontrol : L.control m = true) :
    ∀ a ∈ k.handed, ∀ x ∈ rest, L.no a < L.no x := by
  intro a ha x hx
  have hm : m ∈ k.waiting ++ k.line := by simp [hline]
  have hle : L.no m ≤ L.no x := by
    have hord := (List.pairwise_append.mp h.ordered).2.1
    rw [hline, List.pairwise_cons] at hord
    exact hord.1 x hx
  rcases h.ahead a ha m hm with hlt | hlast
  · exact hlt.trans_le hle
  · have hplain := h.plain m (List.mem_append_right _ (h.lastHanded m hlast))
    rw [hcontrol] at hplain
    cases hplain

theorem hand : (k.hand L).Sound L := by
  rw [Link.hand]
  split
  · exact h
  · rename_i m rest hwaiting
    have hord := h.ordered
    have htold := h.told
    rw [hwaiting] at hord htold
    have hrest : rest ++ k.line ⊆ k.waiting ++ k.line := by
      rw [hwaiting]
      exact List.subset_cons_self _ _
    have hm : m ∈ k.waiting ++ k.line := by simp [hwaiting]
    have hkeep : ∀ {handed : List α}, m ∈ handed → ∀ x, x ∈ handed ∨ x ∈ k.waiting → x ∈ handed ∨ x ∈ rest := by
      intro handed hhanded x hx
      rw [hwaiting, List.mem_cons] at hx
      rcases hx with hx | rfl | hx
      · exact Or.inl hx
      · exact Or.inl hhanded
      · exact Or.inr hx
    split
    · -- a copy: it is the message that copies are told by, which was handed on
      rename_i hcopy
      obtain ⟨p, hlast, htag⟩ := Option.map_eq_some_iff.mp hcopy
      rw [hlast] at htold
      obtain rfl : p = m := (List.isChain_cons_cons.mp htold).1 htag
      have hp : p ∈ k.handed := h.lastHanded p hlast
      refine { h with
        ordered := hord.of_cons, known := fun x hx => h.known x (hrest hx), plain := ?_, ahead := ?_, told := ?_,
        acked := ?_, retired := ?_ }
      · intro x hx
        refine h.plain x ?_
        rw [hwaiting]
        exact List.mem_cons_of_mem _ hx
      · exact fun a ha x hx => h.ahead a ha x (hrest hx)
      · show List.IsChain _ (k.last.toList ++ rest)
        rw [hlast]
        exact (List.isChain_cons_cons.mp htold).2
      · exact fun n hn x hx hxn hx' => hkeep hp x (h.acked n hn x hx hxn hx')
      · exact fun x hx => hkeep hp x (h.retired x hx)
    · rename_i hnew
      have hahead : ∀ a ∈ k.handed, L.no a < L.no m := by
        intro a ha
        rcases h.ahead a ha m hm with hlt | hlast
        · exact hlt
        · rw [hlast] at hnew
          exact absurd rfl hnew
      have hlast : m ∈ k.handed ++ [m] := List.mem_append_right _ (List.mem_singleton_self m)
      have hold : ∀ x, x ∈ k.handed ∨ x ∈ k.waiting → x ∈ k.handed ++ [m] ∨ x ∈ rest := fun x hx =>
        (hkeep hlast x (hx.imp_left fun hh => List.mem_append_left _ hh))
      refine { h with
        ordered := hord.of_cons, known := fun x hx => h.known x (hrest hx), handedKnown := ?_, plain := ?_, rising := ?_,
        ahead := ?_, lastHanded := ?_, told := ?_, acked := ?_, retired := ?_ }
      · intro x hx
        rcases List.mem_append.mp hx with hx | hx
        · exact h.handedKnown x hx
        · exact List.mem_singleton.mp hx ▸ h.known m hm
      · intro x hx
        refine h.plain x ?_
        rw [hwaiting]
        simp only [List.mem_append, List.mem_cons, List.not_mem_nil, or_false] at hx ⊢
        tauto
      · refine List.pairwise_append.mpr ⟨h.rising, List.pairwise_singleton _ _, fun a ha x hx => ?_⟩
        rw [List.mem_singleton.mp hx]
        exact hahead a ha
      · intro a ha x hx
        have hle : L.no m ≤ L.no x := List.rel_of_pairwise_cons hord hx
        rcases List.mem_append.mp ha with ha | ha
        · exact Or.inl ((hahead a ha).trans_le hle)
        · obtain rfl := List.mem_singleton.mp ha
          rcases hle.lt_or_eq with hlt | heq
          · exact Or.inl hlt
          · exact Or.inr (congrArg some (h.eq_of_no (h.known a hm) (h.known x (hrest hx)) heq))
      · intro p hp
        cases hp
        exact hlast
      · exact (htold.right_of_append : List.IsChain _ (m :: rest))
      · exact fun n hn x hx hxn hx' => hold x (h.acked n hn x hx hxn hx')
      · exact fun x hx => hold x (h.retired x hx)

/-! ## What holds in a sound state -/

theorem nodup_queued : k.queued.Nodup := h.numbered.imp fun hlt heq => absurd (heq ▸ hlt) (lt_irrefl _)

theorem nodup_handed : k.handed.Nodup := h.rising.imp fun hlt heq => absurd (heq ▸ hlt) (lt_irrefl _)

theorem handed_sublist : k.handed.Sublist (k.queued.filter fun m => !L.control m) := by
  have hsub : k.handed ⊆ k.queued.filter fun m => !L.control m := by
    intro m hm
    have hplain := h.plain m (List.mem_append_right _ hm)
    exact List.mem_filter.mpr ⟨h.handedKnown m hm, by simp [hplain]⟩
  have hsorted := h.numbered.sublist (List.filter_sublist (p := fun m => !L.control m))
  have : Std.Antisymm fun a b => L.no a < L.no b := ⟨fun a b hab hba => absurd hab hba.asymm⟩
  exact List.sublist_of_subperm_of_pairwise (List.subperm_of_subset h.nodup_handed hsub) h.rising hsorted

end Link.Sound
end ChromeEc.Lib.Relay
