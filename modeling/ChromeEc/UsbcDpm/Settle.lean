import ChromeEc.UsbcDpm.Balance
import ChromeEc.Lib.Settle
import Mathlib.Algebra.GroupWithZero.Nat

/- Whether the deferrals of the balance come to an end.

  After a downgrade the deferred function gives the free slot to the lowest port that has none.
  If that is the port that was just downgraded, which can only be one with a non-PD and a PD
  sink request, and another port still has no slot, then it is downgraded again, and so on
  (`Thrashing`). Every other downgrade is one step towards the end. -/
namespace ChromeEc.UsbcDpm
open Lib Steps

variable {n : Nat} {cfg : Config} {s s' : St n} {c : Ports n} {p q : Fin n}

/-- What happens while no request changes. -/
def next (cfg : Config) (s : St n) : St n := if s.deferredWaiting then (fire cfg s).2 else s

/-- A slot is free, and the lowest PD sink that has none, which another port has not either, is the first one that would be
downgraded for its non-PD request if it had. -/
structure Thrashing (cfg : Config) (s : St n) : Prop where
  waiting : s.deferredWaiting = true
  requested : s.maxCurrentClaimed ⊆ s.requested
  free : s.maxCurrentClaimed.card + 1 = cfg.usbPd3aPorts
  both : ∃ p ∈ s.sinkMaxPdoRequested ∩ s.nonPdSinkMaxRequested, p ∉ s.maxCurrentClaimed ∧
    (∀ q ∈ s.sinkMaxPdoRequested, q ∉ s.maxCurrentClaimed → p ≤ q) ∧
    (∀ q ∈ s.nonPdSinkMaxRequested, q ∈ s.maxCurrentClaimed → p < q) ∧
    ∃ q ≠ p, (q ∈ s.sinkMaxPdoRequested ∨ q ∈ s.sourceFrsMaxRequested) ∧ q ∉ s.maxCurrentClaimed

/-- What a downgrade has still to do: PD sinks that have no slot, and others that have one. -/
def todo (s : St n) : Ports n :=
  Finset.univ.filter fun p =>
    p ∈ s.sinkMaxPdoRequested \ s.nonPdSinkMaxRequested ∧ p ∉ s.maxCurrentClaimed ∨
      (p ∈ s.nonPdSinkMaxRequested \ s.sinkMaxPdoRequested ∨ p ∈ s.sourceFrsMaxRequested) ∧ p ∈ s.maxCurrentClaimed

/-- Ports that are claimed for a non-PD request alone. -/
def others (s : St n) : Ports n := (s.nonPdSinkMaxRequested \ s.sinkMaxPdoRequested) ∩ s.maxCurrentClaimed

def measure (s : St n) : Nat :=
  if s.sinkMaxPdoRequested ⊆ s.maxCurrentClaimed then (others s).card else (todo s).card + n + 1

theorem measure_le : measure s ≤ 2 * n + 1 := by
  have htodo : (todo s).card ≤ n := (Finset.card_le_univ _).trans_eq (Fintype.card_fin n)
  have hothers : (others s).card ≤ n := (Finset.card_le_univ _).trans_eq (Fintype.card_fin n)
  unfold measure
  split <;> omega

theorem mem_todo : p ∈ todo s ↔
    (p ∈ s.sinkMaxPdoRequested ∧ p ∉ s.nonPdSinkMaxRequested) ∧ p ∉ s.maxCurrentClaimed ∨
      ((p ∈ s.nonPdSinkMaxRequested ∧ p ∉ s.sinkMaxPdoRequested) ∨ p ∈ s.sourceFrsMaxRequested) ∧
        p ∈ s.maxCurrentClaimed := by
  simp [todo]

theorem mem_others : p ∈ others s ↔
    (p ∈ s.nonPdSinkMaxRequested ∧ p ∉ s.sinkMaxPdoRequested) ∧ p ∈ s.maxCurrentClaimed := by
  simp [others]

theorem St.Apart.frs (h : s.Apart) (hp : p ∈ s.sourceFrsMaxRequested) :
    p ∉ s.sinkMaxPdoRequested ∧ p ∉ s.nonPdSinkMaxRequested := by
  have hnot := Finset.disjoint_left.mp h hp
  rwa [Finset.mem_union, not_or] at hnot

theorem mem_remaining : p ∈ s.remaining ↔ p ∈ s.maxCurrentClaimed ∧ p ∈ s.requested := Finset.mem_inter

/-! ## Downgrades -/

/-- A port of `c` is downgraded for a PD sink. -/
structure ForSink (cfg : Config) (s : St n) (c : Ports n) (p : Fin n) : Prop where
  sinks : Filled cfg s.sinkMaxPdoRequested s.remaining c
  unmet : ¬s.sinkMaxPdoRequested ⊆ c
  lowest : Lowest p (s.nonPdSinkMaxRequested ∩ c) ∨ s.nonPdSinkMaxRequested ∩ c = ∅ ∧
    Lowest p (s.sourceFrsMaxRequested ∩ c)

/-- A port of `c` is downgraded for an FRS source. -/
structure ForFrs (cfg : Config) (s : St n) (b c : Ports n) (p : Fin n) : Prop where
  sinks : Filled cfg s.sinkMaxPdoRequested s.remaining b
  met : s.sinkMaxPdoRequested ⊆ b
  sources : Filled cfg s.sourceFrsMaxRequested b c
  unmet : ¬s.sourceFrsMaxRequested ⊆ c
  lowest : Lowest p (s.nonPdSinkMaxRequested ∩ c)

theorem Ends.downgrade {r : End × Ports n} {wait : Nat} (h : Ends cfg s r) (hr : r.1 = .deferred wait) :
    ∃ c p, r.2 = c.erase p ∧ (ForSink cfg s c p ∨ ∃ b, ForFrs cfg s b c p) := by
  cases h with
  | @sinksUnmet c hsinks hunmet =>
    rcases stop_cons (nonPd s) [frs s] c with ⟨p, hlow, hstop⟩ | ⟨hnon, hstop⟩
    · rw [hstop]
      exact ⟨c, p, rfl, .inl ⟨hsinks, hunmet, .inl hlow⟩⟩
    · rcases stop_cons (frs s) [] c with ⟨p, hlow, hstop'⟩ | ⟨-, hstop'⟩
      · rw [hstop, hstop']
        exact ⟨c, p, rfl, .inl ⟨hsinks, hunmet, .inr ⟨hnon, hlow⟩⟩⟩
      · rw [hstop, hstop', stop_nil] at hr
        cases hr
  | @frsUnmet b c hsinks hmet hsources hunmet =>
    rcases stop_cons (nonPd s) [] c with ⟨p, hlow, hstop⟩ | ⟨-, hstop⟩
    · rw [hstop]
      exact ⟨c, p, rfl, .inr ⟨b, hsinks, hmet, hsources, hunmet, hlow⟩⟩
    · rw [hstop, stop_nil] at hr
      cases hr
  | @served a b c e hsinks hmet hsources hserved hothers hended =>
    rcases hended with rfl | rfl <;> cases hr

def downgraded (s : St n) (c : Ports n) (p : Fin n) (wait : Nat) : St n :=
  { s with maxCurrentClaimed := c.erase p, deferredWaiting := true, deferredIn := some wait }

theorem ForSink.mem (h : ForSink cfg s c p) : p ∈ c := by
  rcases h.lowest with hlow | ⟨-, hlow⟩
  · exact (Finset.mem_inter.mp hlow.1).2
  · exact (Finset.mem_inter.mp hlow.1).2

theorem ForSink.both (hapart : s.Apart) (h : ForSink cfg s c p) (hp : p ∈ s.sinkMaxPdoRequested) :
    Lowest p (s.nonPdSinkMaxRequested ∩ c) := by
  rcases h.lowest with hlow | ⟨-, hlow⟩
  · exact hlow
  · exact absurd hp (hapart.frs (Finset.mem_inter.mp hlow.1).1).1

theorem Filled.old (h : Filled cfg s.sinkMaxPdoRequested s.remaining c) (hp : p ∈ c) (hnot : p ∉ s.sinkMaxPdoRequested) :
    p ∈ s.maxCurrentClaimed :=
  (mem_remaining.mp ((h.new p hp).resolve_right hnot)).1

theorem Filled.unclaimed (h : Filled cfg s.sinkMaxPdoRequested s.remaining c) (hp : p ∉ c) (hreq : p ∈ s.requested) :
    p ∉ s.maxCurrentClaimed :=
  fun hin => hp (h.kept (mem_remaining.mpr ⟨hin, hreq⟩))

theorem ForSink.todo_subset {wait : Nat} (hapart : s.Apart) (h : ForSink cfg s c p) :
    todo (downgraded s c p wait) ⊆ todo s := by
  intro q hq
  rw [mem_todo] at hq ⊢
  dsimp only [downgraded] at hq
  rw [Finset.mem_erase, not_and_or, not_not] at hq
  rcases hq with ⟨⟨hsink, hnon⟩, rfl | hout⟩ | ⟨hkind, -, hin⟩
  · exact absurd (Finset.mem_inter.mp (h.both hapart hsink).1).1 hnon
  · exact .inl ⟨⟨hsink, hnon⟩, h.sinks.unclaimed hout (mem_requested.mpr (.inl hsink))⟩
  · have hnot : q ∉ s.sinkMaxPdoRequested := hkind.elim (fun hother => hother.2) fun hfrs => (hapart.frs hfrs).1
    exact .inr ⟨hkind, h.sinks.old hin hnot⟩

theorem ForSink.progress {wait : Nat} (hapart : s.Apart) (hfree : s.maxCurrentClaimed.card < cfg.usbPd3aPorts)
    (h : ForSink cfg s c p) :
    Thrashing cfg (downgraded s c p wait) ∨ (todo (downgraded s c p wait)).card < (todo s).card := by
  have hcard := h.sinks.full h.unmet
  have hless : ∀ q ∈ todo s, q ∉ todo (downgraded s c p wait) → (todo (downgraded s c p wait)).card < (todo s).card :=
    fun q hq hnot => Finset.card_lt_card ((Finset.ssubset_iff_of_subset (h.todo_subset hapart)).mpr ⟨q, hq, hnot⟩)
  by_cases hsink : p ∈ s.sinkMaxPdoRequested
  · have hlow := h.both hapart hsink
    by_cases hpure : ∃ x ∈ c, x ∉ s.remaining ∧ x ∉ s.nonPdSinkMaxRequested
    · -- a PD sink that will not be downgraded got a slot
      obtain ⟨x, hx, hnew, hnon⟩ := hpure
      have hwanted : x ∈ s.sinkMaxPdoRequested := (h.sinks.new x hx).resolve_left hnew
      have hreq : x ∈ s.requested := mem_requested.mpr (.inl hwanted)
      have hout : x ∉ s.maxCurrentClaimed := fun hin => hnew (mem_remaining.mpr ⟨hin, hreq⟩)
      have hne : x ≠ p := by
        rintro rfl
        exact hnon (Finset.mem_inter.mp hlow.1).1
      refine .inr (hless x (mem_todo.mpr (.inl ⟨⟨hwanted, hnon⟩, hout⟩)) fun hin => ?_)
      rw [mem_todo] at hin
      rcases hin with ⟨-, hno⟩ | ⟨⟨hother, -⟩ | hfrs, -⟩
      · exact hno (Finset.mem_erase.mpr ⟨hne, hx⟩)
      · exact hnon hother
      · exact (hapart.frs hfrs).1 hwanted
    · -- every port that got a slot has both requests
      left
      have hboth : ∀ x ∈ c, x ∉ s.remaining → x ∈ s.nonPdSinkMaxRequested := by
        intro x hx hnew
        by_contra hnon
        exact hpure ⟨x, hx, hnew, hnon⟩
      have hremaining : s.remaining.card < c.card := by
        rw [hcard]
        exact (Finset.card_le_card Finset.inter_subset_left).trans_lt hfree
      obtain ⟨x, hx, hnew⟩ := Finset.exists_mem_notMem_of_card_lt_card hremaining
      have hpx : p ≤ x := hlow.2 x (Finset.mem_inter.mpr ⟨hboth x hx hnew, hx⟩)
      obtain ⟨u, hu, hout⟩ := Finset.not_subset.mp h.unmet
      refine ⟨rfl, fun q hq => ?_, ?_, p, Finset.mem_inter.mpr ⟨hsink, (Finset.mem_inter.mp hlow.1).1⟩,
        Finset.notMem_erase p c, fun q hq hno => ?_, fun q hq hin => ?_, u, ?_, .inl hu, ?_⟩
      · exact h.sinks.requested (s := s) (fun r => remaining_requested) (fun r hr => mem_requested.mpr (.inl hr)) q
          (Finset.mem_of_mem_erase hq)
      · dsimp only [downgraded]
        rw [Finset.card_erase_add_one h.mem, hcard]
      · -- the slots were given to the lowest ones
        by_cases hqc : q ∈ c
        · have heq : q = p := by
            by_contra hne
            exact hno (Finset.mem_erase.mpr ⟨hne, hqc⟩)
          rw [heq]
        · exact hpx.trans (le_of_lt (h.sinks.order x hx hnew q hq hqc))
      · obtain ⟨hne, hqc⟩ := Finset.mem_erase.mp hin
        exact lt_of_le_of_ne (hlow.2 q (Finset.mem_inter.mpr ⟨hq, hqc⟩)) (Ne.symm hne)
      · rintro rfl
        exact hout h.mem
      · exact fun hin => hout (Finset.mem_of_mem_erase hin)
  · right
    have hold := h.sinks.old h.mem hsink
    have hkind : (p ∈ s.nonPdSinkMaxRequested ∧ p ∉ s.sinkMaxPdoRequested) ∨ p ∈ s.sourceFrsMaxRequested := by
      rcases h.lowest with hlow | ⟨-, hlow⟩
      · exact .inl ⟨(Finset.mem_inter.mp hlow.1).1, hsink⟩
      · exact .inr (Finset.mem_inter.mp hlow.1).1
    refine hless p (mem_todo.mpr (.inr ⟨hkind, hold⟩)) fun hin => ?_
    rw [mem_todo] at hin
    rcases hin with ⟨⟨hno, -⟩, -⟩ | ⟨-, hno⟩
    · exact hsink hno
    · exact Finset.notMem_erase p c hno

theorem ForFrs.mem {b : Ports n} (h : ForFrs cfg s b c p) : p ∈ c := (Finset.mem_inter.mp h.lowest.1).2

theorem ForFrs.progress {b : Ports n} {wait : Nat} (hapart : s.Apart) (h : ForFrs cfg s b c p) :
    Thrashing cfg (downgraded s c p wait) ∨
      s.sinkMaxPdoRequested ⊆ c.erase p ∧ (others (downgraded s c p wait)).card < n + 1 ∧
        (others (downgraded s c p wait)).card < (others s).card := by
  have hnon := (Finset.mem_inter.mp h.lowest.1).1
  have hmet : s.sinkMaxPdoRequested ⊆ c := h.met.trans h.sources.kept
  obtain ⟨u, hu, hout⟩ := Finset.not_subset.mp h.unmet
  by_cases hsink : p ∈ s.sinkMaxPdoRequested
  · left
    have hrequested := h.sources.requested (s := s) (h.sinks.requested (fun r => remaining_requested) fun r hr =>
      mem_requested.mpr (.inl hr)) fun r hr => mem_requested.mpr (.inr (.inl hr))
    refine ⟨rfl, fun q hq => hrequested q (Finset.mem_of_mem_erase hq), ?_, p, Finset.mem_inter.mpr ⟨hsink, hnon⟩,
      Finset.notMem_erase p c, fun q hq hno => ?_, fun q hq hin => ?_, u, ?_, .inr hu, ?_⟩
    · dsimp only [downgraded]
      rw [Finset.card_erase_add_one h.mem, h.sources.full h.unmet]
    · have heq : q = p := by
        by_contra hne
        exact hno (Finset.mem_erase.mpr ⟨hne, hmet hq⟩)
      rw [heq]
    · obtain ⟨hne, hqc⟩ := Finset.mem_erase.mp hin
      exact lt_of_le_of_ne (h.lowest.2 q (Finset.mem_inter.mpr ⟨hq, hqc⟩)) (Ne.symm hne)
    · rintro rfl
      exact hout h.mem
    · exact fun hin => hout (Finset.mem_of_mem_erase hin)
  · right
    have hold : ∀ q ∈ c, q ∈ s.nonPdSinkMaxRequested → q ∉ s.sinkMaxPdoRequested → q ∈ s.maxCurrentClaimed := by
      intro q hq hother hnot
      have hnofrs : q ∉ s.sourceFrsMaxRequested := fun hfrs => (hapart.frs hfrs).2 hother
      exact h.sinks.old ((h.sources.new q hq).resolve_right hnofrs) hnot
    have hsubset : others (downgraded s c p wait) ⊆ others s := by
      intro q hq
      obtain ⟨⟨hother, hnot⟩, hin⟩ := mem_others.mp hq
      exact mem_others.mpr ⟨⟨hother, hnot⟩, hold q (Finset.mem_of_mem_erase hin) hother hnot⟩
    have hp : p ∈ others s := mem_others.mpr ⟨⟨hnon, hsink⟩, hold p h.mem hnon hsink⟩
    have hno : p ∉ others (downgraded s c p wait) := fun hin => Finset.notMem_erase p c (mem_others.mp hin).2
    refine ⟨fun q hq => Finset.mem_erase.mpr ⟨?_, hmet hq⟩, ?_,
      Finset.card_lt_card ((Finset.ssubset_iff_of_subset hsubset).mpr ⟨p, hp, hno⟩)⟩
    · rintro rfl
      exact hsink hq
    · exact Nat.lt_succ_of_le ((Finset.card_le_univ _).trans_eq (Fintype.card_fin n))

theorem measure_downgraded {r : End × Ports n} {wait : Nat} (h : Ends cfg s r)
    (hr : r.1 = .deferred wait) (hapart : s.Apart)
    (hfree : s.maxCurrentClaimed.card < cfg.usbPd3aPorts) :
    Thrashing cfg { s with maxCurrentClaimed := r.2, deferredWaiting := true, deferredIn := some wait } ∨
      measure { s with maxCurrentClaimed := r.2, deferredWaiting := true, deferredIn := some wait } < measure s := by
  obtain ⟨c, p, hc, hsink | ⟨b, hfrs⟩⟩ := h.downgrade hr
  · rw [hc]
    refine (hsink.progress hapart hfree).imp_right fun hless => ?_
    have hbefore : ¬s.sinkMaxPdoRequested ⊆ s.maxCurrentClaimed := by
      obtain ⟨u, hu, hout⟩ := Finset.not_subset.mp hsink.unmet
      exact fun hall => hsink.sinks.unclaimed hout (mem_requested.mpr (.inl hu)) (hall hu)
    have hafter : ¬s.sinkMaxPdoRequested ⊆ c.erase p :=
      fun hall => hsink.unmet (hall.trans (Finset.erase_subset p c))
    have hmeasure : measure (downgraded s c p wait) = (todo (downgraded s c p wait)).card + n + 1 := if_neg hafter
    have hstart : measure s = (todo s).card + n + 1 := if_neg hbefore
    calc measure (downgraded s c p wait)
      _ = (todo (downgraded s c p wait)).card + n + 1 := hmeasure
      _ < (todo s).card + n + 1 := by omega
      _ = measure s := hstart.symm
  · rw [hc]
    refine (hfrs.progress hapart).imp_right fun ⟨hmet, hsmall, hless⟩ => ?_
    have hmeasure : measure (downgraded s c p wait) = (others (downgraded s c p wait)).card := if_pos hmet
    have hstart : (others (downgraded s c p wait)).card < measure s := by
      unfold measure
      split
      · exact hless
      · omega
    exact hmeasure.trans_lt hstart

/-! ## Deferrals without an end -/

theorem Lowest.eq {b : Ports n} (hp : Lowest p b) (hq : Lowest q b) : p = q := le_antisymm (hp.2 q hq.1) (hq.2 p hp.1)

/-- The loops give the slot back to the port, and take it away again. -/
theorem Thrashing.loops_eq (h : Thrashing cfg s) : ∃ wait, (loops cfg s).2 = (.deferred wait, s.maxCurrentClaimed) := by
  obtain ⟨p, hp, hout, hfirst, hnext, u, hne, hu, huout⟩ := h.both
  obtain ⟨hsink, hnon⟩ := Finset.mem_inter.mp hp
  have hfree := h.free
  have hremaining : s.remaining = s.maxCurrentClaimed := Finset.inter_eq_left.mpr h.requested
  have hinsert : (insert p s.maxCurrentClaimed).card = cfg.usbPd3aPorts := by
    rw [Finset.card_insert_of_notMem hout, hfree]
  have hgiven : ∀ c, Filled cfg s.sinkMaxPdoRequested s.remaining c → c = insert p s.maxCurrentClaimed := by
    intro c hc
    rw [hremaining] at hc
    have hpc : p ∈ c := by
      by_contra hno
      -- a port that got a slot is below the lowest one
      have hsame : c ⊆ s.maxCurrentClaimed := by
        intro x hx
        by_contra hnew
        have hx' : x ∈ s.sinkMaxPdoRequested := (hc.new x hx).resolve_left hnew
        exact absurd (hfirst x hx' hnew) (not_le_of_gt (hc.order x hx hnew p hsink hno))
      have hle := Finset.card_le_card hsame
      have hfull := hc.full fun hall => hno (hall hsink)
      omega
    have hle : c.card ≤ (insert p s.maxCurrentClaimed).card := by
      rw [hinsert]
      exact hc.card
    exact (Finset.eq_of_subset_of_card_le (Finset.insert_subset hpc hc.kept) hle).symm
  have hsame : ∀ b c, b = insert p s.maxCurrentClaimed → Filled cfg s.sourceFrsMaxRequested b c → c = b := by
    rintro b c rfl hc
    have hle : c.card ≤ (insert p s.maxCurrentClaimed).card := by
      rw [hinsert]
      exact hc.card
    exact (Finset.eq_of_subset_of_card_le hc.kept hle).symm
  have hlowest : Lowest p (s.nonPdSinkMaxRequested ∩ insert p s.maxCurrentClaimed) := by
    refine ⟨Finset.mem_inter.mpr ⟨hnon, Finset.mem_insert_self _ _⟩, fun q hq => ?_⟩
    obtain ⟨hqnon, hq'⟩ := Finset.mem_inter.mp hq
    rcases Finset.mem_insert.mp hq' with rfl | hin
    · exact le_refl q
    · exact le_of_lt (hnext q hqnon hin)
  have hstop : ∀ lower c, c = insert p s.maxCurrentClaimed →
      stop (nonPd s :: lower) c = (.deferred (nonPd s).wait, s.maxCurrentClaimed) := by
    rintro lower c rfl
    rcases stop_cons (nonPd s) lower (insert p s.maxCurrentClaimed) with ⟨q, hq, heq⟩ | ⟨hempty, -⟩
    · rw [heq, hq.eq hlowest, Finset.erase_insert hout]
    · exact absurd hlowest.1 (hempty ▸ Finset.notMem_empty p)
  have hends : Ends cfg s (loops cfg s).2 := loops_cases (by omega)
  generalize hr : (loops cfg s).2 = r at hends
  cases hends with
  | @sinksUnmet c hsinks hunmet => exact ⟨_, hstop _ c (hgiven c hsinks)⟩
  | @frsUnmet b c hsinks hmet hsources hunmet =>
    have hb := hgiven b hsinks
    exact ⟨_, hstop _ c ((hsame b c hb hsources).trans hb)⟩
  | @served a b c e hsinks hmet hsources hserved hothers hended =>
    have ha := hgiven a hsinks
    have hb := (hsame a b ha hsources).trans ha
    have huin : u ∈ insert p s.maxCurrentClaimed := by
      rcases hu with hin | hin
      · exact ha ▸ hmet hin
      · exact hb ▸ hserved hin
    exact absurd ((Finset.mem_insert.mp huin).resolve_left hne) huout

theorem Thrashing.next (h : Thrashing cfg s) : Thrashing cfg (UsbcDpm.next cfg s) := by
  obtain ⟨wait, hloops⟩ := h.loops_eq
  have hnext : UsbcDpm.next cfg s = (fire cfg s).2 := if_pos h.waiting
  have hsame : loops cfg { s with deferredIn := none } = loops cfg s := rfl
  rw [hnext]
  rcases balance_eq (s := { s with deferredIn := none }) cfg true (.inl rfl) with ⟨w, -, heq⟩ | ⟨hnot, -⟩
  · unfold fire
    rw [heq, hsame, hloops]
    exact ⟨rfl, h.requested, h.free, h.both⟩
  · rw [hsame, hloops] at hnot
    exact absurd rfl (hnot wait)

/-! ## Runs -/

theorem sound_next (h : Sound cfg s) : Sound cfg (next cfg s) := by
  unfold next
  split
  · exact sound_fire h
  · exact h

theorem progress_next (h : Sound cfg s) (hwaiting : s.deferredWaiting = true)
    (hafter : (next cfg s).deferredWaiting = true) :
    Thrashing cfg (next cfg s) ∨ measure (next cfg s) < measure s := by
  have hnext : next cfg s = (fire cfg s).2 := if_pos hwaiting
  have hsame : loops cfg { s with deferredIn := none } = loops cfg s := rfl
  rw [hnext] at hafter ⊢
  unfold fire at hafter ⊢
  rcases balance_eq (s := { s with deferredIn := none }) cfg true (.inl rfl) with ⟨wait, hend, heq⟩ | ⟨-, heq⟩
  · rw [heq]
    rw [hsame] at hend ⊢
    exact measure_downgraded (loops_cases h.card) hend h.apart (h.free hwaiting)
  · rw [heq] at hafter
    cases hafter

theorem settles_iff_not_thrashing (h : Sound cfg s) :
    (∃ k ≤ 2 * n + 2, ((next cfg)^[k] s).deferredWaiting = false) ↔ ∀ k, ¬Thrashing cfg ((next cfg)^[k] s) := by
  have hidle : ∀ s : St n, ¬s.deferredWaiting = true → next cfg s = s := fun s hs => if_neg hs
  have hiff := @settles_iff _ (next cfg) (fun s => s.deferredWaiting = true) (Thrashing cfg) (Sound cfg) measure s
    (fun _ => sound_next) hidle (fun _ hs => hs.waiting) (fun _ _ hs => hs.next)
    (fun _ => progress_next) (2 * n + 1) h measure_le
  simpa only [Bool.not_eq_true] using hiff

theorem next_requests : (next cfg s).withRequests s = next cfg s := by
  unfold next
  split
  · exact balance_requests cfg { s with deferredIn := none } true
  · rfl

theorem not_thrashing_of_disjoint (h : Disjoint s.sinkMaxPdoRequested s.nonPdSinkMaxRequested) (k : Nat) :
    ¬Thrashing cfg ((next cfg)^[k] s) := by
  intro hthrash
  have hsame : ((next cfg)^[k] s).withRequests s = (next cfg)^[k] s := by
    have hstep : ∀ t : St n, t.withRequests s = t → (next cfg t).withRequests s = next cfg t := by
      intro t ht
      rw [← next_requests, ← ht]
      rfl
    exact inv_iterate hstep rfl k
  obtain ⟨p, hp, -⟩ := hthrash.both
  rw [← hsame] at hp
  obtain ⟨hsink, hnon⟩ := Finset.mem_inter.mp hp
  exact Finset.disjoint_left.mp h hsink hnon

/-- After every run at most as many ports are claimed as there are slots, the priorities hold unless a downgrade is waited
for, and while no request changes the deferrals stop after a number of firings that depends on the number of ports alone,
exactly when none of them leaves a port to be downgraded again and again; in particular if no port has both a non-PD and a
PD sink request. -/
theorem allocation_settles {l : List (St n × Call n)} (h : Run (step cfg) (.initial n) l s) :
    s.maxCurrentClaimed.card ≤ cfg.usbPd3aPorts ∧ (s.deferredWaiting = false → Balanced cfg s) ∧
      ((∃ k ≤ 2 * n + 2, ((next cfg)^[k] s).deferredWaiting = false) ↔ ∀ k, ¬Thrashing cfg ((next cfg)^[k] s)) ∧
      (Disjoint s.sinkMaxPdoRequested s.nonPdSinkMaxRequested →
        ∃ k ≤ 2 * n + 2, ((next cfg)^[k] s).deferredWaiting = false) := by
  have hsound := sound_run h
  have hiff := settles_iff_not_thrashing hsound
  exact ⟨hsound.card, hsound.balanced, hiff, fun hdisjoint => hiff.mpr (not_thrashing_of_disjoint hdisjoint)⟩

def oneSlot : Config := ⟨1, false⟩

def pdo3a : U32 := 100 <<< 10 ||| 300

local instance neZero_two : NeZero 2 := Nat.instNeZeroSucc

/-- A non-PD sink makes room for a PD sink. -/
def upgraded : List (Call 2) := [.addNonPdSink 0, .evaluateSinkFixedPdo 1 pdo3a .source .rev30]

/-- A port that was taken for a non-PD sink turns out to be a PD sink, and so does another one. -/
def bothRequests : List (Call 2) :=
  [.addNonPdSink 0, .evaluateSinkFixedPdo 0 pdo3a .source .rev30, .evaluateSinkFixedPdo 1 pdo3a .source .rev30]

theorem allocation_settles_upgraded : ∃ l s, Run (step oneSlot) (.initial 2) l s ∧ l.map Prod.snd = upgraded ∧
    s.deferredWaiting = true ∧ (∀ k, ¬Thrashing oneSlot ((next oneSlot)^[k] s)) ∧
      ∃ k ≤ 6, ((next oneSlot)^[k] s).deferredWaiting = false := by
  have hsome : (trace (step oneSlot) upgraded ([], .initial 2)).any fun r =>
      decide (r.2.deferredWaiting = true ∧ Disjoint r.2.sinkMaxPdoRequested r.2.nonPdSinkMaxRequested) := by decide +kernel
  obtain ⟨l, s, run, hlabels, hwaiting, hdisjoint⟩ := exists_run hsome
  obtain ⟨-, -, hiff, hsettles⟩ := allocation_settles run
  exact ⟨l, s, run, hlabels, hwaiting, hiff.mp (hsettles hdisjoint), hsettles hdisjoint⟩

/-- The slot goes back and forth for ever. -/
theorem thrash_forever : ∃ l s, Run (step oneSlot) (.initial 2) l s ∧ l.map Prod.snd = bothRequests ∧
    ∀ k, ((next oneSlot)^[k] s).deferredWaiting = true := by
  have hsome : (trace (step oneSlot) bothRequests ([], .initial 2)).any fun r =>
      decide (r.2.deferredWaiting = true ∧ next oneSlot r.2 = r.2) := by decide +kernel
  obtain ⟨l, s, run, hlabels, hwaiting, hsame⟩ := exists_run hsome
  refine ⟨l, s, run, hlabels, fun k => ?_⟩
  rw [Function.iterate_fixed hsame k]
  exact hwaiting

end ChromeEc.UsbcDpm
