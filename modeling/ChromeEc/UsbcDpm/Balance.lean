import ChromeEc.UsbcDpm.Model
import ChromeEc.Lib.Steps

/- What a balance of the source ports leaves behind.

  A loop claims ports in order until all that it serves have 3.0 A or the slots are used up
  (`Filled`). What is claimed when a balance ends without a downgrade respects the
  priorities of the three kinds of requests (`Balanced`). -/
namespace ChromeEc.UsbcDpm
open Lib Steps

variable {n : Nat} {cfg : Config} {s s' : St n} {c c' wanted : Ports n} {p q : Fin n}

/-! ## Lowest ports -/

theorem mem_inOrder {b : Ports n} : p ∈ inOrder b ↔ p ∈ b := by
  simp [inOrder, List.mem_filter]

theorem pairwise_inOrder {b : Ports n} : (inOrder b).Pairwise (· < ·) :=
  (List.pairwise_lt_finRange n).filter _

theorem lowestPort_eq_head {b : Ports n} : lowestPort b = (inOrder b).head? :=
  (List.head?_filter ..).symm

theorem lowestPort_eq_none {b : Ports n} : lowestPort b = none ↔ b = ∅ := by
  rw [lowestPort_eq_head, List.head?_eq_none_iff, List.eq_nil_iff_forall_not_mem, Finset.eq_empty_iff_forall_notMem]
  simp only [mem_inOrder]

def Lowest (p : Fin n) (b : Ports n) : Prop := p ∈ b ∧ ∀ q ∈ b, p ≤ q

theorem lowestPort_eq_some {b : Ports n} : lowestPort b = some p ↔ Lowest p b := by
  have hsorted := pairwise_inOrder (b := b)
  rw [lowestPort_eq_head]
  constructor
  · intro h
    obtain ⟨rest, hrest⟩ := List.head?_eq_some_iff.mp h
    rw [hrest, List.pairwise_cons] at hsorted
    refine ⟨mem_inOrder.mp (by rw [hrest]; exact List.mem_cons_self), fun q hq => ?_⟩
    have hmem : q ∈ p :: rest := by
      rw [← hrest]
      exact mem_inOrder.mpr hq
    rcases List.mem_cons.mp hmem with rfl | hin
    · exact le_refl _
    · exact le_of_lt (hsorted.1 q hin)
  · rintro ⟨hp, hle⟩
    cases hb : inOrder b with
    | nil => exact absurd (mem_inOrder.mpr hp) (by rw [hb]; exact List.not_mem_nil)
    | cons q rest =>
      rw [hb, List.pairwise_cons] at hsorted
      have hq : q ∈ b := mem_inOrder.mp (by rw [hb]; exact List.mem_cons_self)
      have hmem : p ∈ q :: rest := by
        rw [← hb]
        exact mem_inOrder.mpr hp
      rcases List.mem_cons.mp hmem with rfl | hin
      · rfl
      · exact absurd (hle q hq) (not_le_of_gt (hsorted.1 p hin))

/-! ## Loops -/

/-- The ports claimed after a loop that serves the `wanted` ones. -/
structure Filled (cfg : Config) (wanted c c' : Ports n) : Prop where
  kept : c ⊆ c'
  new : ∀ p ∈ c', p ∈ c ∨ p ∈ wanted
  order : ∀ p ∈ c', p ∉ c → ∀ q ∈ wanted, q ∉ c' → p < q
  card : c'.card ≤ cfg.usbPd3aPorts
  full : ¬wanted ⊆ c' → c'.card = cfg.usbPd3aPorts

/-- How a loop ends that has no slot for a port. -/
def stop (lower : List (Lower n)) (c : Ports n) : End × Ports n :=
  match pick lower c with
  | some (l, p) => (.deferred l.wait, c.erase p)
  | none => (.unlock, c)

theorem allocate_cases {grant : Fin n → Action n} {lower : List (Lower n)} {ports : List (Fin n)}
    (hports : ∀ p, p ∈ ports ↔ p ∈ wanted \ c) (hsorted : ports.Pairwise (· < ·)) (hcard : c.card ≤ cfg.usbPd3aPorts) :
    ∃ c', Filled cfg wanted c c' ∧
      (allocate cfg grant lower ports c).2 = if wanted ⊆ c' then (.next, c') else stop lower c' := by
  induction ports generalizing c with
  | nil =>
    have hall : wanted ⊆ c := by
      intro p hp
      by_contra hnot
      exact List.not_mem_nil ((hports p).mpr (Finset.mem_sdiff.mpr ⟨hp, hnot⟩))
    refine ⟨c, ⟨Finset.Subset.refl c, fun p => .inl, fun p hp hnot => absurd hp hnot, hcard, fun h => absurd hall h⟩, ?_⟩
    rw [if_pos hall]
    rfl
  | cons port ports ih =>
    obtain ⟨hfirst, hrest⟩ := List.pairwise_cons.mp hsorted
    obtain ⟨hwanted, hout⟩ := Finset.mem_sdiff.mp ((hports port).mp List.mem_cons_self)
    rw [allocate]
    split
    · rename_i hroom
      have hports' : ∀ p, p ∈ ports ↔ p ∈ wanted \ insert port c := by
        intro p
        have hp := hports p
        have hne : p ∈ ports → p ≠ port := by
          rintro hin rfl
          exact lt_irrefl p (hfirst p hin)
        simp only [List.mem_cons, Finset.mem_sdiff, Finset.mem_insert] at hp ⊢
        tauto
      have hcard' : (insert port c).card ≤ cfg.usbPd3aPorts := by
        rw [Finset.card_insert_of_notMem hout]
        exact hroom
      obtain ⟨c', hfilled, hresult⟩ := ih hports' hrest hcard'
      refine ⟨c', ⟨?_, ?_, ?_, hfilled.card, hfilled.full⟩, hresult⟩
      · exact (Finset.subset_insert port c).trans hfilled.kept
      · intro p hp
        rcases hfilled.new p hp with hin | hin
        · rcases Finset.mem_insert.mp hin with rfl | hin
          · exact .inr hwanted
          · exact .inl hin
        · exact .inr hin
      · intro p hp hnot q hq hunmet
        by_cases heq : p = port
        · subst heq
          -- the first port is the lowest
          have hq' : q ∈ p :: ports := (hports q).mpr (Finset.mem_sdiff.mpr ⟨hq, fun hin =>
            hunmet (hfilled.kept (Finset.mem_insert_of_mem hin))⟩)
          rcases List.mem_cons.mp hq' with rfl | hin
          · exact absurd hp hunmet
          · exact hfirst q hin
        · exact hfilled.order p hp (by simp [heq, hnot]) q hq hunmet
    · rename_i hfull
      have hnot : ¬wanted ⊆ c := fun hall => hout (hall hwanted)
      have heq : c.card = cfg.usbPd3aPorts := by omega
      refine ⟨c, ⟨Finset.Subset.refl c, fun p => .inl, fun p hp hnot => absurd hp hnot, hcard, fun _ => heq⟩, ?_⟩
      rw [if_neg hnot, stop]
      cases pick lower c <;> rfl

theorem loop_cases {grant : Fin n → Action n} {lower : List (Lower n)} (hcard : c.card ≤ cfg.usbPd3aPorts) :
    ∃ c', Filled cfg wanted c c' ∧
      (allocate cfg grant lower (inOrder (wanted \ c)) c).2 = if wanted ⊆ c' then (.next, c') else stop lower c' :=
  allocate_cases (fun _ => mem_inOrder) pairwise_inOrder hcard

theorem allocateSinks_cases (hcard : c.card ≤ cfg.usbPd3aPorts) : ∃ c', Filled cfg s.sinkMaxPdoRequested c c' ∧
    (allocateSinks cfg s c).2 = if s.sinkMaxPdoRequested ⊆ c' then (.next, c') else stop [nonPd s, frs s] c' :=
  loop_cases hcard

theorem allocateFrs_cases (hcard : c.card ≤ cfg.usbPd3aPorts) : ∃ c', Filled cfg s.sourceFrsMaxRequested c c' ∧
    (allocateFrs cfg s c).2 = if s.sourceFrsMaxRequested ⊆ c' then (.next, c') else stop [nonPd s] c' :=
  loop_cases hcard

theorem allocateNonPd_cases (hcard : c.card ≤ cfg.usbPd3aPorts) : ∃ c', Filled cfg s.nonPdSinkMaxRequested c c' ∧
    (allocateNonPd cfg s c).2 = if s.nonPdSinkMaxRequested ⊆ c' then (.next, c') else (.unlock, c') :=
  loop_cases hcard

/-! ## Downgrades -/

theorem pick_cons (l : Lower n) (lower : List (Lower n)) (c : Ports n) :
    (∃ p, Lowest p (l.ports ∩ c) ∧ pick (l :: lower) c = some (l, p)) ∨
      l.ports ∩ c = ∅ ∧ pick (l :: lower) c = pick lower c := by
  unfold pick
  rw [List.findSome?_cons]
  cases hlow : lowestPort (l.ports ∩ c) with
  | none => exact .inr ⟨lowestPort_eq_none.mp hlow, rfl⟩
  | some p => exact .inl ⟨p, lowestPort_eq_some.mp hlow, rfl⟩

theorem stop_nil : stop [] c = (.unlock, c) := rfl

/-- A loop without a slot downgrades the lowest port of the first kind, or leaves its result to the other kinds. -/
theorem stop_cons (l : Lower n) (lower : List (Lower n)) (c : Ports n) :
    (∃ p, Lowest p (l.ports ∩ c) ∧ stop (l :: lower) c = (.deferred l.wait, c.erase p)) ∨
      l.ports ∩ c = ∅ ∧ stop (l :: lower) c = stop lower c := by
  unfold stop
  rcases pick_cons l lower c with ⟨p, hlow, hpick⟩ | ⟨hempty, hpick⟩
  · rw [hpick]
    exact .inl ⟨p, hlow, rfl⟩
  · rw [hpick]
    exact .inr ⟨hempty, rfl⟩

/-! ## One balance -/

/-- The ports that are still claimed when the loops start. -/
def St.remaining (s : St n) : Ports n := s.maxCurrentClaimed ∩ s.requested

theorem remaining_eq : s.maxCurrentClaimed \ (s.maxCurrentClaimed \ s.requested) = s.remaining :=
  Finset.sdiff_sdiff_self_left _ _

inductive Ends (cfg : Config) (s : St n) : End × Ports n → Prop where
  | sinksUnmet {c : Ports n} (sinks : Filled cfg s.sinkMaxPdoRequested s.remaining c)
      (unmet : ¬s.sinkMaxPdoRequested ⊆ c) :
    Ends cfg s (stop [nonPd s, frs s] c)
  | frsUnmet {b c : Ports n} (sinks : Filled cfg s.sinkMaxPdoRequested s.remaining b) (met : s.sinkMaxPdoRequested ⊆ b)
    (sources : Filled cfg s.sourceFrsMaxRequested b c) (unmet : ¬s.sourceFrsMaxRequested ⊆ c) :
    Ends cfg s (stop [nonPd s] c)
  | served {a b c : Ports n} {e : End} (sinks : Filled cfg s.sinkMaxPdoRequested s.remaining a)
    (met : s.sinkMaxPdoRequested ⊆ a) (sources : Filled cfg s.sourceFrsMaxRequested a b)
    (metFrs : s.sourceFrsMaxRequested ⊆ b) (others : Filled cfg s.nonPdSinkMaxRequested b c)
    (ended : e = .next ∨ e = .unlock) :
    Ends cfg s (e, c)

theorem andThen_next {r : List (Action n) × End × Ports n} {loop : Ports n → List (Action n) × End × Ports n}
    (h : r.2 = (.next, c)) : (andThen r loop).2 = (loop c).2 := by
  obtain ⟨actions, e, d⟩ := r
  cases h
  rfl

theorem andThen_stop {r : List (Action n) × End × Ports n} {loop : Ports n → List (Action n) × End × Ports n}
    (h : r.2.1 ≠ .next) : (andThen r loop).2 = r.2 := by
  obtain ⟨actions, e, d⟩ := r
  cases e with
  | next => exact absurd rfl h
  | unlock => rfl
  | deferred => rfl

theorem stop_ne_next {lower : List (Lower n)} : (stop lower c).1 ≠ .next := by
  unfold stop
  cases pick lower c with
  | none => exact End.noConfusion
  | some => exact End.noConfusion

theorem loops_cases (hcard : s.maxCurrentClaimed.card ≤ cfg.usbPd3aPorts) : Ends cfg s (loops cfg s).2 := by
  have hremaining : s.remaining.card ≤ cfg.usbPd3aPorts := (Finset.card_le_card Finset.inter_subset_left).trans hcard
  unfold loops
  dsimp only
  rw [remaining_eq]
  obtain ⟨a, hsinks, hfirst⟩ := allocateSinks_cases (s := s) hremaining
  by_cases hmet : s.sinkMaxPdoRequested ⊆ a
  · rw [if_pos hmet] at hfirst
    obtain ⟨b, hsources, hsecond⟩ := allocateFrs_cases (s := s) hsinks.card
    have hboth : (andThen (allocateSinks cfg s s.remaining) (allocateFrs cfg s)).2 = (allocateFrs cfg s a).2 :=
      andThen_next hfirst
    by_cases hserved : s.sourceFrsMaxRequested ⊆ b
    · rw [if_pos hserved] at hsecond
      obtain ⟨c, hothers, hthird⟩ := allocateNonPd_cases (s := s) hsources.card
      rw [andThen_next (hboth.trans hsecond), hthird]
      split
      · exact .served hsinks hmet hsources hserved hothers (.inl rfl)
      · exact .served hsinks hmet hsources hserved hothers (.inr rfl)
    · rw [if_neg hserved] at hsecond
      have hresult := hboth.trans hsecond
      rw [andThen_stop (by rw [hresult]; exact stop_ne_next), hresult]
      exact .frsUnmet hsinks hmet hsources hserved
  · rw [if_neg hmet] at hfirst
    have hresult : (andThen (allocateSinks cfg s s.remaining) (allocateFrs cfg s)).2 = stop [nonPd s, frs s] a :=
      (andThen_stop (by rw [hfirst]; exact stop_ne_next)).trans hfirst
    rw [andThen_stop (by rw [hresult]; exact stop_ne_next), hresult]
    exact .sinksUnmet hsinks hmet

/-- The priorities hold of what is claimed. -/
structure Balanced (cfg : Config) (s : St n) : Prop where
  sinks : ¬s.sinkMaxPdoRequested ⊆ s.maxCurrentClaimed → s.maxCurrentClaimed ⊆ s.sinkMaxPdoRequested
  frs : ¬s.sourceFrsMaxRequested ⊆ s.maxCurrentClaimed →
    ∀ p ∈ s.maxCurrentClaimed, p ∈ s.sinkMaxPdoRequested ∨ p ∈ s.sourceFrsMaxRequested
  nonPd : ¬s.nonPdSinkMaxRequested ⊆ s.maxCurrentClaimed → s.maxCurrentClaimed.card = cfg.usbPd3aPorts
  requested : s.maxCurrentClaimed ⊆ s.requested

/-! ## Balances -/

theorem balance_eq (cfg : Config) (ctx : Bool) (h : ctx = true ∨ s.deferredWaiting = false) :
    (∃ wait, (loops cfg s).2.1 = .deferred wait ∧ (balanceSourcePorts cfg ctx s).2 =
        { s with maxCurrentClaimed := (loops cfg s).2.2, deferredWaiting := true, deferredIn := some wait }) ∨
      (∀ wait, (loops cfg s).2.1 ≠ .deferred wait) ∧ (balanceSourcePorts cfg ctx s).2 =
        { s with maxCurrentClaimed := (loops cfg s).2.2, deferredWaiting := false } := by
  have hstart : (if ctx then { s with deferredWaiting := false } else s) = { s with deferredWaiting := false } := by
    cases ctx with
    | true => rfl
    | false =>
      have hidle := h.resolve_left Bool.noConfusion
      obtain ⟨claimed, sinks, sources, others, waiting, pending⟩ := s
      cases hidle
      rfl
  have hloops : loops cfg { s with deferredWaiting := false } = loops cfg s := rfl
  unfold balanceSourcePorts
  dsimp only
  rw [hstart, if_neg Bool.noConfusion, hloops]
  obtain ⟨actions, e, claimed⟩ := loops cfg s
  cases e with
  | next => exact .inr ⟨fun _ => End.noConfusion, rfl⟩
  | unlock => exact .inr ⟨fun _ => End.noConfusion, rfl⟩
  | deferred wait => exact .inl ⟨wait, rfl, rfl⟩

theorem balance_ignored (h : s.deferredWaiting = true) : (balanceSourcePorts cfg false s).2 = s := by
  unfold balanceSourcePorts
  simp [h]

theorem remaining_requested (h : p ∈ s.remaining) : p ∈ s.requested := (Finset.mem_inter.mp h).2

theorem mem_requested : p ∈ s.requested ↔
    p ∈ s.sinkMaxPdoRequested ∨ p ∈ s.sourceFrsMaxRequested ∨ p ∈ s.nonPdSinkMaxRequested := by
  unfold St.requested
  rw [Finset.mem_union, Finset.mem_union, or_assoc]

theorem Filled.requested (h : Filled cfg wanted c c') (hc : ∀ p ∈ c, p ∈ s.requested)
    (hwanted : ∀ p ∈ wanted, p ∈ s.requested) :
    ∀ p ∈ c', p ∈ s.requested :=
  fun p hp => (h.new p hp).elim (hc p) (hwanted p)

theorem empty_of_inter {b : Ports n} (h : b ∩ c = ∅) (hp : p ∈ c) : p ∉ b :=
  fun hb => Finset.notMem_empty p (h ▸ Finset.mem_inter.mpr ⟨hb, hp⟩)

/-- What the loops leave is within the slots and requested. A slot is free after a downgrade, and otherwise the priorities
hold. -/
structure Leaves (cfg : Config) (s : St n) (r : End × Ports n) : Prop where
  card : r.2.card ≤ cfg.usbPd3aPorts
  free : ∀ wait, r.1 = .deferred wait → r.2.card + 1 = cfg.usbPd3aPorts
  balanced : (∀ wait, r.1 ≠ .deferred wait) → Balanced cfg { s with maxCurrentClaimed := r.2 }

theorem Leaves.of_downgrade {wait : Nat} (hp : p ∈ c) (hcard : c.card = cfg.usbPd3aPorts) :
    Leaves cfg s (.deferred wait, c.erase p) := by
  have herase := Finset.card_erase_add_one hp
  exact ⟨by dsimp only; omega, fun _ _ => by dsimp only; omega, fun h => absurd rfl (h wait)⟩

theorem Ends.leaves {r : End × Ports n} (h : Ends cfg s r) : Leaves cfg s r := by
  have hsink : ∀ p ∈ s.sinkMaxPdoRequested, p ∈ s.requested := fun p hp => mem_requested.mpr (.inl hp)
  have hfrs : ∀ p ∈ s.sourceFrsMaxRequested, p ∈ s.requested := fun p hp => mem_requested.mpr (.inr (.inl hp))
  have hother : ∀ p ∈ s.nonPdSinkMaxRequested, p ∈ s.requested := fun p hp => mem_requested.mpr (.inr (.inr hp))
  cases h with
  | @sinksUnmet c hsinks hunmet =>
    have hcard := hsinks.full hunmet
    have hrequested := hsinks.requested (s := s) (fun p => remaining_requested) hsink
    rcases stop_cons (nonPd s) [frs s] c with ⟨p, hlow, hstop⟩ | ⟨hnon, hstop⟩
    · rw [hstop]
      exact .of_downgrade (Finset.mem_inter.mp hlow.1).2 hcard
    · rcases stop_cons (frs s) [] c with ⟨p, hlow, hstop'⟩ | ⟨hnofrs, hstop'⟩
      · rw [hstop, hstop']
        exact .of_downgrade (Finset.mem_inter.mp hlow.1).2 hcard
      · rw [hstop, hstop', stop_nil]
        have honly : c ⊆ s.sinkMaxPdoRequested := by
          intro p hp
          have hnot := not_or.mpr ⟨empty_of_inter hnofrs hp, empty_of_inter hnon hp⟩
          exact (mem_requested.mp (hrequested p hp)).resolve_right hnot
        exact ⟨hsinks.card, fun _ => End.noConfusion, fun _ =>
          ⟨fun _ => honly, fun _ p hp => .inl (honly hp), fun _ => hcard, hrequested⟩⟩
  | @frsUnmet b c hsinks hmet hsources hunmet =>
    have hcard := hsources.full hunmet
    have hrequested := hsources.requested (s := s) (hsinks.requested (fun p => remaining_requested) hsink) hfrs
    rcases stop_cons (nonPd s) [] c with ⟨p, hlow, hstop⟩ | ⟨hnon, hstop⟩
    · rw [hstop]
      exact .of_downgrade (Finset.mem_inter.mp hlow.1).2 hcard
    · rw [hstop, stop_nil]
      refine ⟨hsources.card, fun _ => End.noConfusion,
        fun _ => ⟨fun h => absurd (hmet.trans hsources.kept) h, fun _ p hp => ?_, fun _ => hcard, hrequested⟩⟩
      have hreq := mem_requested.mp (hrequested p hp)
      rw [← or_assoc] at hreq
      exact hreq.resolve_right (empty_of_inter hnon hp)
  | @served a b c e hsinks hmet hsources hserved hothers hended =>
    have hrequested := hothers.requested (s := s)
      (hsources.requested (hsinks.requested (fun p => remaining_requested) hsink) hfrs) hother
    refine ⟨hothers.card, fun wait he => ?_, fun _ => ⟨fun h => ?_, fun h => ?_, hothers.full, hrequested⟩⟩
    · rcases hended with rfl | rfl <;> cases he
    · exact absurd ((hmet.trans hsources.kept).trans hothers.kept) h
    · exact absurd (hserved.trans hothers.kept) h

/-! ## Runs -/

/-- A slot is free while a downgrade is waited for, and otherwise the priorities hold. -/
structure Sound (cfg : Config) (s : St n) : Prop where
  card : s.maxCurrentClaimed.card ≤ cfg.usbPd3aPorts
  apart : s.Apart
  pending : s.deferredIn.isSome = s.deferredWaiting
  free : s.deferredWaiting = true → s.maxCurrentClaimed.card < cfg.usbPd3aPorts
  balanced : s.deferredWaiting = false → Balanced cfg s

def St.withRequests (s t : St n) : St n :=
  { s with
    sinkMaxPdoRequested := t.sinkMaxPdoRequested
    sourceFrsMaxRequested := t.sourceFrsMaxRequested
    nonPdSinkMaxRequested := t.nonPdSinkMaxRequested }

theorem balance_requests (cfg : Config) (s : St n) (ctx : Bool) :
    ((balanceSourcePorts cfg ctx s).2.withRequests s) = (balanceSourcePorts cfg ctx s).2 := by
  by_cases h : ctx = true ∨ s.deferredWaiting = false
  · rcases balance_eq cfg ctx h with ⟨wait, -, heq⟩ | ⟨-, heq⟩
    · rw [heq]
      rfl
    · rw [heq]
      rfl
  · obtain ⟨hctx, hwaiting⟩ := not_or.mp h
    have hfalse : ctx = false := Bool.eq_false_iff.mpr hctx
    subst hfalse
    rw [balance_ignored (Bool.not_eq_false _ ▸ hwaiting)]
    rfl

/-- A call changes requests and balances, or changes nothing; the deferred function only balances. -/
theorem perform_cases {call : Call n} {r : List (Action n) × St n} (h : perform cfg call s = some r) :
    r.2 = s ∨ (∃ t, r.2 = (balanceSourcePorts cfg false (s.withRequests t)).2) ∨
      s.deferredIn.isSome = true ∧ r.2 = (fire cfg s).2 := by
  cases call with
  | evaluateSinkFixedPdo port pdo role rev =>
    obtain rfl := Option.some.inj h
    unfold dpmEvaluateSinkFixedPdo
    dsimp only
    repeat' split
    all_goals first
      | exact .inl rfl
      | exact .inr (.inl ⟨{ s with sinkMaxPdoRequested := insert port s.sinkMaxPdoRequested }, rfl⟩)
      | exact .inr (.inl ⟨{ s with sourceFrsMaxRequested := insert port s.sourceFrsMaxRequested }, rfl⟩)
  | addNonPdSink port =>
    obtain rfl := Option.some.inj h
    unfold dpmAddNonPdSink
    split
    · exact .inl rfl
    · exact .inr (.inl ⟨{ s with nonPdSinkMaxRequested := insert port s.nonPdSinkMaxRequested }, rfl⟩)
  | removeSink port =>
    obtain rfl := Option.some.inj h
    unfold dpmRemoveSink
    split
    · exact .inl rfl
    · split
      · exact .inl rfl
      · exact .inr (.inl ⟨{ s with
          sinkMaxPdoRequested := s.sinkMaxPdoRequested.erase port
          nonPdSinkMaxRequested := s.nonPdSinkMaxRequested.erase port }, rfl⟩)
  | removeSource port =>
    obtain rfl := Option.some.inj h
    unfold dpmRemoveSource
    split
    · exact .inl rfl
    · split
      · exact .inl rfl
      · split
        · exact .inl rfl
        · exact .inr (.inl ⟨{ s with sourceFrsMaxRequested := s.sourceFrsMaxRequested.erase port }, rfl⟩)
  | deferred =>
    obtain ⟨delay, hdelay, rfl⟩ := Option.map_eq_some_iff.mp h
    exact .inr (.inr ⟨by rw [hdelay]; rfl, rfl⟩)

theorem sound_balance {ctx : Bool} (hcard : s.maxCurrentClaimed.card ≤ cfg.usbPd3aPorts) (hapart : s.Apart)
    (hpending : s.deferredIn = none) (hctx : ctx = true ∨ s.deferredWaiting = false) :
    Sound cfg (balanceSourcePorts cfg ctx s).2 := by
  have hleaves := (loops_cases hcard).leaves
  rcases balance_eq cfg ctx hctx with ⟨wait, hend, heq⟩ | ⟨hend, heq⟩
  · rw [heq]
    have hfree := hleaves.free wait hend
    exact ⟨hleaves.card, hapart, rfl, fun _ => by dsimp only; omega, Bool.noConfusion⟩
  · rw [heq]
    have hbalanced := hleaves.balanced hend
    refine ⟨hleaves.card, hapart, by dsimp only; rw [hpending]; rfl, Bool.noConfusion, fun _ => ?_⟩
    exact ⟨hbalanced.sinks, hbalanced.frs, hbalanced.nonPd, hbalanced.requested⟩

theorem sound_fire (h : Sound cfg s) : Sound cfg (fire cfg s).2 := sound_balance h.card h.apart rfl (.inl rfl)

theorem sound_step {call : Call n} (h : Sound cfg s) (hstep : step cfg call s = some s') : Sound cfg s' := by
  obtain ⟨r, hperform, hr⟩ := Option.bind_eq_some_iff.mp hstep
  split at hr
  · rename_i hapart
    obtain rfl := Option.some.inj hr
    rcases perform_cases hperform with heq | ⟨t, heq⟩ | ⟨-, heq⟩
    · rw [heq]
      exact h
    · have hrequests := balance_requests cfg (s.withRequests t) false
      rw [heq] at hapart ⊢
      rw [← hrequests] at hapart
      cases hwaiting : s.deferredWaiting with
      | true =>
        have hignored : (balanceSourcePorts cfg false (s.withRequests t)).2 = s.withRequests t := balance_ignored hwaiting
        rw [hignored]
        refine ⟨h.card, hapart, h.pending, h.free, fun hidle => ?_⟩
        exact absurd (hwaiting.symm.trans hidle) Bool.noConfusion
      | false =>
        have hnone : s.deferredIn = none := by
          rw [← Option.isNone_iff_eq_none, ← Option.isSome_eq_false_iff]
          exact h.pending.trans hwaiting
        exact sound_balance h.card hapart hnone (.inr hwaiting)
    · rw [heq]
      exact sound_fire h
  · cases hr

theorem sound_initial : Sound cfg (.initial n) where
  card := Nat.zero_le _
  apart := Finset.disjoint_empty_left _
  pending := rfl
  free := Bool.noConfusion
  balanced _ := ⟨fun _ => Finset.Subset.refl _, fun _ p hp => absurd hp (Finset.notMem_empty p),
    fun h => absurd (Finset.Subset.refl _) h, Finset.empty_subset _⟩

theorem sound_run {l : List (St n × Call n)} (h : Run (step cfg) (.initial n) l s) : Sound cfg s :=
  Run.holds sound_initial (fun _ _ _ => sound_step) h

end ChromeEc.UsbcDpm
