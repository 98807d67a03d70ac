import Mathlib.Data.List.Perm.Basic

/- Calling the hooks of one type, `hook_notify` of `common/hooks.c`.

  A hook's routine changes the state of the system, whatever it is; the linker's table of hooks
  does not change. Each round finds the lowest priority above the last one and calls the hooks of
  that priority, in the order of the table. So what is left after a round are the hooks of a higher
  priority, and a round that calls nothing would be the last one to come.

  Correspondence (C ↔ Lean):
    `struct hook_data` ↔ `HookData`
    the search for the lowest priority ↔ `lowestRemaining`
    the calls of one priority ↔ `callPriority`
    `hook_notify` ↔ `hookNotify`, its loop `notifyLoop` with at most `fuel` turns
  The statistics of CONFIG_HOOK_DEBUG are left out. -/
namespace ChromeEc.Hooks

def hookPrioFirst : Int := 1

def hookPrioLast : Int := 9999

structure HookData (σ : Type) where
  routine : σ → σ
  priority : Int

variable {σ : Type}

def lowestRemaining (table : List (HookData σ)) (lastPrio : Int) : Int :=
  table.foldl (fun prio p => if p.priority < prio ∧ lastPrio < p.priority then p.priority else prio) (hookPrioLast + 1)

/-- The hooks of one priority, with the count of the hooks called. -/
def callPriority (table : List (HookData σ)) (prio : Int) (called : Nat) (s : σ) : Nat × σ :=
  table.foldl (fun c p => if p.priority = prio then (c.1 + 1, p.routine c.2) else c) (called, s)

def notifyLoop (table : List (HookData σ)) : Nat → Int → Nat → σ → Option σ
  | 0, _, _, _ => none
  | fuel + 1, lastPrio, called, s =>
    if called < table.length then
      let prio := lowestRemaining table lastPrio
      let c := callPriority table prio called s
      notifyLoop table fuel prio c.1 c.2
    else some s

def hookNotify (fuel : Nat) (table : List (HookData σ)) (s : σ) : Option σ :=
  notifyLoop table fuel (hookPrioFirst - 1) 0 s

/-- The hook comes before the other: by its priority, or by its place in the table. -/
def Before (p q : HookData σ × Nat) : Prop :=
  p.1.priority < q.1.priority ∨ p.1.priority = q.1.priority ∧ p.2 < q.2

/-- Every hook of the table once, in the order they are to be called in. -/
structure DispatchOrder (table : List (HookData σ)) (order : List (HookData σ × Nat)) : Prop where
  once : order.Perm table.zipIdx
  sorted : order.Pairwise Before

def callAll (order : List (HookData σ × Nat)) (s : σ) : σ := order.foldl (fun s p => p.1.routine s) s

section

variable {table : List (HookData σ)} {last prio : Int}

/-- The hooks of the table that are left above a priority. -/
def above (table : List (HookData σ)) (last : Int) : List (HookData σ × Nat) :=
  table.zipIdx.filter fun p => last < p.1.priority

def ofPriority (table : List (HookData σ)) (prio : Int) : List (HookData σ × Nat) :=
  table.zipIdx.filter fun p => p.1.priority = prio

theorem callAll_append (xs ys : List (HookData σ × Nat)) (s : σ) : callAll (xs ++ ys) s = callAll ys (callAll xs s) :=
  List.foldl_append

theorem mem_above {p : HookData σ × Nat} : p ∈ above table last ↔ p ∈ table.zipIdx ∧ last < p.1.priority := by
  simp [above]

theorem fst_mem_of_mem_zipIdx {p : HookData σ × Nat} (h : p ∈ table.zipIdx) : p.1 ∈ table :=
  List.fst_mem_of_mem_zipIdx h

/-- The search: the result is the start of the search or a priority of the table, and none left is lower. -/
theorem lowest_spec (table : List (HookData σ)) (last start : Int) :
    let r := table.foldl (fun prio p => if p.priority < prio ∧ last < p.priority then p.priority else prio) start
    r ≤ start ∧ (∀ p ∈ table, last < p.priority → r ≤ p.priority) ∧
      (r = start ∨ ∃ p ∈ table, last < p.priority ∧ p.priority = r) := by
  induction table generalizing start with
  | nil => exact ⟨Int.le_refl _, fun p h => absurd h List.not_mem_nil, .inl rfl⟩
  | cons q rest ih =>
    simp only [List.foldl_cons]
    split
    · next htake =>
      obtain ⟨hle, hall, hsome⟩ := ih q.priority
      refine ⟨by omega, ?_, ?_⟩
      · intro p hp hlast
        obtain rfl | hp := List.mem_cons.mp hp
        · exact hle
        · exact hall p hp hlast
      · obtain heq | ⟨p, hp, hlast, heq⟩ := hsome
        · exact .inr ⟨q, List.mem_cons_self .., htake.2, heq.symm⟩
        · exact .inr ⟨p, List.mem_cons_of_mem q hp, hlast, heq⟩
    · next hleave =>
      obtain ⟨hle, hall, hsome⟩ := ih start
      refine ⟨hle, ?_, ?_⟩
      · intro p hp hlast
        obtain rfl | hp := List.mem_cons.mp hp
        · omega
        · exact hall p hp hlast
      · exact hsome.imp_right fun ⟨p, hp, h⟩ => ⟨p, List.mem_cons_of_mem q hp, h⟩

theorem lowestRemaining_spec (hprio : ∀ p ∈ table, p.priority ≤ hookPrioLast) (hleft : above table last ≠ []) :
    last < lowestRemaining table last ∧ ofPriority table (lowestRemaining table last) ≠ [] ∧
      ∀ p ∈ table, last < p.priority → lowestRemaining table last ≤ p.priority := by
  obtain ⟨-, hall, hsome⟩ := lowest_spec table last (hookPrioLast + 1)
  obtain ⟨q, hq⟩ := List.exists_mem_of_ne_nil _ hleft
  obtain ⟨hq, hlast⟩ := mem_above.mp hq
  have hqmem := fst_mem_of_mem_zipIdx hq
  have hqle := hprio q.1 hqmem
  have hlow := hall q.1 hqmem hlast
  obtain heq | ⟨p, hp, hplast, heq⟩ := hsome
  · omega
  · refine ⟨by rw [lowestRemaining, ← heq]; exact hplast, ?_, hall⟩
    obtain ⟨i, hi, rfl⟩ := List.mem_iff_getElem.mp hp
    have hmem : (table[i], i) ∈ ofPriority table (lowestRemaining table last) := by
      simp only [ofPriority, List.mem_filter, decide_eq_true_eq]
      exact ⟨List.mk_mem_zipIdx_iff_getElem?.mpr (List.getElem?_eq_getElem hi), heq⟩
    exact List.ne_nil_of_mem hmem

theorem callPriority_eq (table : List (HookData σ)) (prio : Int) (called : Nat) (s : σ) :
    callPriority table prio called s = (called + (ofPriority table prio).length, callAll (ofPriority table prio) s) := by
  -- the induction is over pairs of a hook and its place, whose numbers need not start at zero
  have hzip : ∀ (xs : List (HookData σ × Nat)) (called : Nat) (s : σ),
      (xs.map Prod.fst).foldl (fun c p => if p.priority = prio then (c.1 + 1, p.routine c.2) else c) (called, s) =
        (called + (xs.filter fun p => p.1.priority = prio).length,
          callAll (xs.filter fun p => p.1.priority = prio) s) := by
    intro xs
    induction xs with
    | nil => exact fun _ _ => rfl
    | cons x xs ih =>
      intro called s
      rw [List.map_cons, List.foldl_cons]
      by_cases h : x.1.priority = prio
      · rw [if_pos h, ih, List.filter_cons_of_pos (by simpa using h), List.length_cons]
        exact Prod.ext (Nat.add_right_comm called 1 _) rfl
      · rw [if_neg h, ih, List.filter_cons_of_neg (by simpa using h)]
  have h := hzip table.zipIdx called s
  rwa [List.zipIdx_map_fst] at h

/-- A round takes the hooks of the lowest priority out of those left. -/
theorem above_split (hlast : last < prio) (hlow : ∀ p ∈ table, last < p.priority → prio ≤ p.priority) :
    (ofPriority table prio ++ above table prio).Perm (above table last) := by
  have hsame : (above table last).filter (fun p => p.1.priority = prio) = ofPriority table prio := by
    rw [above, List.filter_filter]
    refine List.filter_congr fun p _ => ?_
    by_cases h : p.1.priority = prio
    · simp [h, hlast]
    · simp [h]
  have hrest : (above table last).filter (fun p => !decide (p.1.priority = prio)) = above table prio := by
    rw [above, List.filter_filter]
    refine List.filter_congr fun p hp => ?_
    have hle := hlow p.1 (fst_mem_of_mem_zipIdx hp)
    rw [Bool.eq_iff_iff]
    simp only [Bool.and_eq_true, Bool.not_eq_true', decide_eq_false_iff_not, decide_eq_true_eq]
    constructor
    · rintro ⟨hne, hlt⟩
      have hge := hle hlt
      omega
    · intro hlt
      omega
  have h := List.filter_append_perm (fun p => decide (p.1.priority = prio)) (above table last)
  rwa [hsame, hrest] at h

theorem ofPriority_sorted (table : List (HookData σ)) (prio : Int) : (ofPriority table prio).Pairwise Before := by
  have hplaces : table.zipIdx.Pairwise fun p q => p.2 < q.2 := by
    rw [← List.pairwise_map (f := Prod.snd) (R := (· < ·)), List.zipIdx_map_snd]
    exact List.pairwise_lt_range'
  apply List.Pairwise.imp_of_mem _ (hplaces.filter _)
  intro p q hp hq hlt
  have hp : p.1.priority = prio := of_decide_eq_true (List.mem_filter.mp hp).2
  have hq : q.1.priority = prio := of_decide_eq_true (List.mem_filter.mp hq).2
  exact .inr ⟨hp.trans hq.symm, hlt⟩

/-- What is left is called in order, and the loop ends. -/
theorem notifyLoop_spec (hprio : ∀ p ∈ table, p.priority ≤ hookPrioLast) :
    ∃ order : List (HookData σ × Nat), order.Perm (above table last) ∧ order.Pairwise Before ∧
      ∀ fuel called s, called + (above table last).length = table.length → (above table last).length < fuel →
        notifyLoop table fuel last called s = some (callAll order s) := by
  induction hn : (above table last).length using Nat.strongRecOn generalizing last with
  | ind n ih =>
    by_cases hleft : above table last = []
    -- every hook has been called, so the count ends the loop
    · refine ⟨[], by rw [hleft], List.Pairwise.nil, fun fuel called s hcount hfuel => ?_⟩
      obtain ⟨fuel, rfl⟩ : ∃ m, fuel = m + 1 := ⟨fuel - 1, by omega⟩
      have hzero : n = 0 := by rw [← hn, hleft, List.length_nil]
      rw [notifyLoop, if_neg (by omega)]
      rfl
    -- one round, and the induction for what it leaves above its priority
    · obtain ⟨hlast, hsome, hlow⟩ := lowestRemaining_spec hprio hleft
      generalize hround : lowestRemaining table last = prio at hlast hsome hlow
      have hsplit := above_split hlast hlow
      have hlength := hsplit.length_eq
      rw [List.length_append] at hlength
      have hpos := List.length_pos_iff.mpr hsome
      obtain ⟨order, hperm, hsorted, hrun⟩ := ih (above table prio).length (by omega) rfl
      refine ⟨ofPriority table prio ++ order, (hperm.append_left _).trans hsplit, ?_, ?_⟩
      · refine List.pairwise_append.mpr ⟨ofPriority_sorted table prio, hsorted, fun p hp q hq => .inl ?_⟩
        have hq := (mem_above.mp (hperm.mem_iff.mp hq)).2
        simp only [ofPriority, List.mem_filter, decide_eq_true_eq] at hp
        rwa [hp.2]
      · intro fuel called s hcount hfuel
        obtain ⟨fuel, rfl⟩ : ∃ m, fuel = m + 1 := ⟨fuel - 1, by omega⟩
        rw [notifyLoop, if_pos (by omega), hround, callAll_append]
        simp only [callPriority_eq]
        exact hrun fuel _ _ (by omega) (by omega)

end

/-- Every hook is called once, in the order of the priorities and of the table, whatever the routines do.
    More turns than hooks are never needed. -/
theorem hook_notify_order (table : List (HookData σ))
    (hprio : ∀ p ∈ table, hookPrioFirst ≤ p.priority ∧ p.priority ≤ hookPrioLast) :
    ∃ order, DispatchOrder table order ∧
      ∀ fuel s, table.length < fuel → hookNotify fuel table s = some (callAll order s) := by
  have hall : above table (hookPrioFirst - 1) = table.zipIdx := by
    refine List.filter_eq_self.mpr fun p hp => ?_
    have hfirst : hookPrioFirst ≤ p.1.priority := (hprio p.1 (fst_mem_of_mem_zipIdx hp)).1
    have hlow : hookPrioFirst - 1 < p.1.priority := by omega
    exact decide_eq_true hlow
  have hlength : (above table (hookPrioFirst - 1)).length = table.length := by rw [hall, List.length_zipIdx]
  have hlast : ∀ p ∈ table, p.priority ≤ hookPrioLast := fun p hp => (hprio p hp).2
  obtain ⟨order, hperm, hsorted, hrun⟩ := @notifyLoop_spec σ table (hookPrioFirst - 1) hlast
  rw [hall] at hperm
  refine ⟨order, ⟨hperm, hsorted⟩, fun fuel s hfuel => ?_⟩
  exact hrun fuel 0 s (by omega) (by omega)

def noting (name : Nat) (priority : Int) : HookData (List Nat) := { routine := fun s => s ++ [name], priority := priority }

def threeHooks : List (HookData (List Nat)) := [noting 1 5000, noting 2 1, noting 3 5000]

theorem hook_notify_order_three :
    (∀ p ∈ threeHooks, hookPrioFirst ≤ p.priority ∧ p.priority ≤ hookPrioLast) ∧
      ∃ order, DispatchOrder threeHooks order ∧
        ∀ fuel s, threeHooks.length < fuel → hookNotify fuel threeHooks s = some (callAll order s) :=
  ⟨by decide, hook_notify_order threeHooks (by decide)⟩

example : hookNotify 4 threeHooks [] = some [2, 1, 3] := by decide

end ChromeEc.Hooks
