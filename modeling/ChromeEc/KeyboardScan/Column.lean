import ChromeEc.KeyboardScan.Model

/- What a scan does with one key.

  The rows of a column are gone through twice: to end the debouncing of keys (`clearRows`),
  and to recognize changes (`recognize`). The first loop may change the state of a row that it
  has looked at, so that the window of a later row depends on it; with the debouncer that is
  not strict it changes nothing but the debouncing flags.

  What is proved: the debouncing flag, the edge and the events of a key after the scan of its
  column (`scanColumn_spec`), its state if the debouncer is not strict (`scanColumn_state`), and
  that the events of a column are about its own keys (`scanColumn_events`). -/
namespace ChromeEc.KeyboardScan

variable {c : Config} {look : Look} {x : Column} {diff : BitVec 8} {i n : Nat}

/-! ## Ending the debouncing -/

theorem getLsbD_clear (b : BitVec 8) : (b &&& ~~~BitVec.twoPow 8 i).getLsbD n = (b.getLsbD n && decide (n ≠ i)) := by
  rw [BitVec.getLsbD_and, BitVec.getLsbD_not, BitVec.getLsbD_twoPow]
  by_cases hn : n < 8
  · obtain rfl | hne := eq_or_ne n i
    · simp [hn]
    · simp [hn, hne, Ne.symm hne]
  · rw [BitVec.getLsbD_of_ge b n (by omega), Bool.false_and, Bool.false_and]

/-- The debouncing of the row goes on. -/
def Waits (c : Config) (look : Look) (x : Column) (state : BitVec 8) (i : Nat) : Prop :=
  look.tnow - look.scanTime (x.edge i) < window c state

instance {state : BitVec 8} : Decidable (Waits c look x state i) := inferInstanceAs (Decidable (_ < _))

theorem clearRow_waits (h : x.debouncing.getLsbD i = false ∨ Waits c look x x.state i) : clearRow c look diff x i = x := by
  unfold clearRow
  split
  · rfl
  · rename_i hdebouncing
    exact if_pos (h.resolve_left hdebouncing)

/-- What one row changes. -/
structure Cleared (look : Look) (x y : Column) (i : Nat) : Prop where
  debouncing : y.debouncing = x.debouncing &&& ~~~BitVec.twoPow 8 i
  edge : y.edge = x.edge
  cleared : ∀ k, .cleared (look.col, k) ∈ y.events ↔ .cleared (look.col, k) ∈ x.events ∨ k = i
  edges : ∀ key p, .edge key p ∈ y.events ↔ .edge key p ∈ x.events

theorem clearRow_ends (hdebouncing : x.debouncing.getLsbD i = true) (hends : ¬Waits c look x x.state i) :
    Cleared look x (clearRow c look diff x i) i := by
  have hpast : ¬look.tnow - look.scanTime (x.edge i) < window c x.state := hends
  unfold clearRow
  rw [if_neg (by simp [hdebouncing]), if_neg hpast]
  dsimp only
  split
  · exact ⟨rfl, rfl, by simp, by simp⟩
  · split
    · exact ⟨rfl, rfl, by simp, by simp⟩
    · exact ⟨rfl, rfl, by simp, by simp⟩

theorem clearRows_succ :
    clearRows c look x (n + 1) = clearRow c look (look.newState ^^^ x.state) (clearRows c look x n) n := by
  unfold clearRows
  rw [List.range_succ, List.foldl_append]
  rfl

def Ends (c : Config) (look : Look) (x : Column) (i : Nat) : Prop :=
  x.debouncing.getLsbD i = true ∧ ¬Waits c look x (clearRows c look x i).state i

instance : Decidable (Ends c look x i) := inferInstanceAs (Decidable (_ ∧ _))

/-- After the first rows were looked at. -/
structure Partly (c : Config) (look : Look) (x : Column) (n : Nat) (y : Column) : Prop where
  debouncing : ∀ i, y.debouncing.getLsbD i = true ↔ x.debouncing.getLsbD i = true ∧ ¬(i < n ∧ Ends c look x i)
  edge : y.edge = x.edge
  cleared : ∀ i, .cleared (look.col, i) ∈ y.events ↔ .cleared (look.col, i) ∈ x.events ∨ (i < n ∧ Ends c look x i)
  edges : ∀ key p, .edge key p ∈ y.events ↔ .edge key p ∈ x.events

theorem clearRows_partly : Partly c look x n (clearRows c look x n) := by
  induction n with
  | zero => exact ⟨fun i => by simp [clearRows], rfl, fun i => by simp [clearRows], fun _ _ => Iff.rfl⟩
  | succ n ih =>
    rw [clearRows_succ]
    have hbit := ih.debouncing n
    have hlt : ∀ i, i < n + 1 ↔ i < n ∨ i = n := fun i => by omega
    by_cases hends : Ends c look x n
    · have hdebouncing : (clearRows c look x n).debouncing.getLsbD n = true := hbit.mpr ⟨hends.1, by simp⟩
      have hpast : ¬Waits c look (clearRows c look x n) (clearRows c look x n).state n := by
        unfold Waits
        rw [ih.edge]
        exact hends.2
      have hrow := @clearRow_ends c look (clearRows c look x n) (look.newState ^^^ x.state) n hdebouncing hpast
      refine ⟨fun i => ?_, hrow.edge.trans ih.edge, fun i => ?_, fun key p => (hrow.edges key p).trans (ih.edges key p)⟩
      · rw [hrow.debouncing, getLsbD_clear, Bool.and_eq_true, ih.debouncing, hlt, decide_eq_true_iff]
        obtain rfl | hne := eq_or_ne i n
        · simp [hends]
        · simp [hne]
      · rw [hrow.cleared, ih.cleared, hlt]
        obtain rfl | hne := eq_or_ne i n
        · simp [hends]
        · simp [hne]
    · have hsame : clearRow c look (look.newState ^^^ x.state) (clearRows c look x n) n = clearRows c look x n := by
        refine clearRow_waits ?_
        by_cases hdebouncing : (clearRows c look x n).debouncing.getLsbD n = true
        · right
          by_contra hpast
          unfold Waits at hpast
          rw [ih.edge] at hpast
          exact hends ⟨(hbit.mp hdebouncing).1, hpast⟩
        · exact .inl (Bool.eq_false_iff.mpr hdebouncing)
      have hmore : ∀ i, (i < n + 1 ∧ Ends c look x i) ↔ i < n ∧ Ends c look x i := by
        intro i
        rw [hlt]
        obtain rfl | hne := eq_or_ne i n
        · simp [hends]
        · simp [hne]
      rw [hsame]
      exact ⟨fun i => by rw [ih.debouncing, hmore], ih.edge, fun i => by rw [ih.cleared, hmore], ih.edges⟩

/-- The debouncer that is not strict reports nothing while it ends the debouncing. -/
theorem clearRow_lax (hlax : c.strict = false) : (clearRow c look diff x i).state = x.state ∧
    ∀ key p, .changed key p ∈ (clearRow c look diff x i).events ↔ .changed key p ∈ x.events := by
  unfold clearRow
  split
  · exact ⟨rfl, fun _ _ => Iff.rfl⟩
  · split
    · exact ⟨rfl, fun _ _ => Iff.rfl⟩
    · exact ⟨rfl, by simp⟩

theorem clearRows_lax (hlax : c.strict = false) : (clearRows c look x n).state = x.state ∧
    ∀ key p, .changed key p ∈ (clearRows c look x n).events ↔ .changed key p ∈ x.events := by
  induction n with
  | zero => exact ⟨rfl, fun _ _ => Iff.rfl⟩
  | succ n ih =>
    rw [clearRows_succ]
    obtain ⟨hstate, hevents⟩ := clearRow_lax (x := clearRows c look x n)
      (i := n) hlax
    exact ⟨hstate.trans ih.1, fun key p => (hevents key p).trans (ih.2 key p)⟩

/-! ## Recognizing changes -/

def changes (look : Look) (x : Column) : BitVec 8 := (look.newState ^^^ x.state) &&& ~~~x.debouncing

theorem getLsbD_changes (hi : i < 8) : (changes look x).getLsbD i = true ↔
    look.newState.getLsbD i ≠ x.state.getLsbD i ∧ x.debouncing.getLsbD i = false := by
  unfold changes
  rw [BitVec.getLsbD_and, BitVec.getLsbD_xor, BitVec.getLsbD_not]
  simp [hi]

theorem mem_edgeEvents {e : Event} : e ∈ (List.range keyboardRows).flatMap (edgeEvents c look diff) ↔
    ∃ i < 8, diff.getLsbD i = true ∧ (e = .edge (look.col, i) (look.newState.getLsbD i) ∨
      (c.strict = false ∧ e = .changed (look.col, i) (look.newState.getLsbD i))) := by
  rw [List.mem_flatMap]
  refine exists_congr fun i => ?_
  rw [List.mem_range]
  refine and_congr_right fun _ => ?_
  unfold edgeEvents
  cases diff.getLsbD i
  · simp
  · cases hstrict : c.strict <;> simp

theorem recognize_eq : recognize c look x =
    { state := if c.strict = false then x.state ^^^ changes look x else x.state
      debouncing := x.debouncing ||| changes look x
      edge := fun i => if (changes look x).getLsbD i then look.scanTimeIndex else x.edge i
      events := x.events ++ (List.range keyboardRows).flatMap (edgeEvents c look (changes look x)) } := by
  unfold recognize
  dsimp only
  split
  · rename_i hnone
    have hchanges : changes look x = 0#8 := hnone
    have hevents : (List.range keyboardRows).flatMap (edgeEvents c look 0#8) = [] := by
      rw [List.flatMap_eq_nil_iff]
      intro i _
      simp [edgeEvents]
    rw [hchanges, hevents]
    simp
  · rfl

/-- A key that was debounced and still is. -/
def Held (c : Config) (look : Look) (x : Column) (i : Nat) : Prop :=
  x.debouncing.getLsbD i = true ∧ ¬Ends c look x i

def Turns (c : Config) (look : Look) (x : Column) (i : Nat) : Prop :=
  look.newState.getLsbD i ≠ (clearRows c look x keyboardRows).state.getLsbD i ∧ ¬Held c look x i

instance : Decidable (Held c look x i) := inferInstanceAs (Decidable (_ ∧ ¬_))

instance : Decidable (Turns c look x i) := inferInstanceAs (Decidable (_ ∧ ¬_))

/-- What the scan of a column does with a key. -/
structure Key.Spec (c : Config) (look : Look) (x y : Column) (i : Nat) : Prop where
  debouncing : y.debouncing.getLsbD i = true ↔ Held c look x i ∨ Turns c look x i
  turned : Turns c look x i → y.edge i = look.scanTimeIndex
  held : Held c look x i → y.edge i = x.edge i
  cleared : .cleared (look.col, i) ∈ y.events ↔ Ends c look x i
  edges : ∀ p, .edge (look.col, i) p ∈ y.events ↔ Turns c look x i ∧ p = look.newState.getLsbD i

theorem turns_iff (hi : i < 8) :
    (changes look (clearRows c look x keyboardRows)).getLsbD i = true ↔ Turns c look x i := by
  have hpartly := @clearRows_partly c look x keyboardRows
  rw [getLsbD_changes hi]
  refine and_congr_right fun _ => ?_
  rw [← Bool.not_eq_true, hpartly.debouncing, Held]
  simp [keyboardRows, hi]

theorem scanColumn_spec (hi : i < 8) (hnone : x.events = []) : Key.Spec c look x (scanColumn c look x) i := by
  have hpartly := @clearRows_partly c look x keyboardRows
  have hturns := @turns_iff c look x i hi
  have hheld : (clearRows c look x keyboardRows).debouncing.getLsbD i = true ↔ Held c look x i := by
    rw [hpartly.debouncing, Held]
    simp [keyboardRows, hi]
  unfold scanColumn
  rw [recognize_eq]
  constructor
  · rw [BitVec.getLsbD_or, Bool.or_eq_true, hheld, hturns]
  · intro hturn
    dsimp only
    rw [if_pos (hturns.mpr hturn)]
  · intro hstays
    have hnot : ¬(changes look (clearRows c look x keyboardRows)).getLsbD i = true :=
      fun hturn => (hturns.mp hturn).2 hstays
    dsimp only
    rw [if_neg hnot, hpartly.edge]
  · dsimp only
    rw [List.mem_append, hpartly.cleared, mem_edgeEvents, hnone]
    simp [keyboardRows, hi]
  · intro p
    dsimp only
    rw [List.mem_append, hpartly.edges, mem_edgeEvents, hnone, ← hturns]
    simp only [List.not_mem_nil, false_or, Event.edge.injEq, Prod.mk.injEq, true_and, reduceCtorEq, and_false, or_false]
    exact ⟨by rintro ⟨j, -, hbit, rfl, rfl⟩; exact ⟨hbit, rfl⟩, fun ⟨hbit, hp⟩ => ⟨i, hi, hbit, rfl, hp⟩⟩

/-! ## The debouncer that is not strict -/

theorem held_lax (hlax : c.strict = false) :
    Held c look x i ↔ x.debouncing.getLsbD i = true ∧ Waits c look x x.state i := by
  unfold Held Ends
  rw [(clearRows_lax hlax).1]
  exact ⟨fun ⟨hset, hnot⟩ => ⟨hset, not_not.mp fun hpast => hnot ⟨hset, hpast⟩⟩,
    fun ⟨hset, hwaits⟩ => ⟨hset, fun h => h.2 hwaits⟩⟩

theorem turns_lax (hlax : c.strict = false) :
    Turns c look x i ↔ look.newState.getLsbD i ≠ x.state.getLsbD i ∧ ¬Held c look x i := by
  unfold Turns
  rw [(clearRows_lax hlax).1]

/-- Each change is reported when it is recognized, and then it is the state of the key. -/
theorem scanColumn_state (hlax : c.strict = false) (hi : i < 8) (hnone : x.events = []) :
    ((scanColumn c look x).state.getLsbD i = if Turns c look x i then look.newState.getLsbD i else x.state.getLsbD i) ∧
      ∀ p, .changed (look.col, i) p ∈ (scanColumn c look x).events ↔ Turns c look x i ∧ p = look.newState.getLsbD i := by
  obtain ⟨hstate, hevents⟩ := clearRows_lax (x := x) (n := keyboardRows) hlax
  have hturns := @turns_iff c look x i hi
  unfold scanColumn
  rw [recognize_eq]
  constructor
  · dsimp only
    rw [if_pos hlax, BitVec.getLsbD_xor, hstate]
    by_cases hturn : Turns c look x i
    · have hdiffers := ((turns_lax hlax).mp hturn).1
      rw [if_pos hturn, hturns.mpr hturn, Bool.xor_true]
      exact (Bool.eq_not.mpr hdiffers).symm
    · rw [if_neg hturn, Bool.eq_false_iff.mpr fun h => hturn (hturns.mp h), Bool.xor_false]
  · intro p
    dsimp only
    rw [List.mem_append, hevents, mem_edgeEvents, hnone, ← hturns]
    simp only [List.not_mem_nil, false_or, Event.changed.injEq, Prod.mk.injEq, true_and, reduceCtorEq, hlax]
    exact ⟨by rintro ⟨j, -, hbit, rfl, rfl⟩; exact ⟨hbit, rfl⟩, fun ⟨hbit, hp⟩ => ⟨i, hi, hbit, rfl, hp⟩⟩

/-! ## Whose events they are -/

def Event.key : Event → Key
  | .cleared key => key
  | .edge key _ => key
  | .changed key _ => key

theorem clearRow_events {e : Event} (h : e ∈ (clearRow c look diff x i).events) :
    e ∈ x.events ∨ e.key = (look.col, i) := by
  unfold clearRow at h
  split at h
  · exact .inl h
  · split at h
    · exact .inl h
    · dsimp only at h
      split at h
      · simp only [List.mem_append, List.mem_singleton] at h
        exact h.imp_right fun he => by rw [he]; rfl
      · split at h
        · simp only [List.mem_append, List.mem_singleton] at h
          exact h.imp_right fun he => by rw [he]; rfl
        · simp only [List.mem_append, List.mem_singleton, or_assoc] at h
          refine h.imp_right fun he => ?_
          obtain rfl | rfl := he <;> rfl

theorem clearRows_events {e : Event} (h : e ∈ (clearRows c look x n).events) : e ∈ x.events ∨
    (e.key.1 = look.col ∧ e.key.2 < n) := by
  induction n with
  | zero => exact .inl h
  | succ n ih =>
    rw [clearRows_succ] at h
    obtain hbefore | hkey := clearRow_events h
    · exact (ih hbefore).imp_right fun hboth => ⟨hboth.1, Nat.lt_succ_of_lt hboth.2⟩
    · rw [hkey]
      exact .inr ⟨rfl, Nat.lt_succ_self n⟩

theorem scanColumn_events {e : Event} (hnone : x.events = []) (h : e ∈ (scanColumn c look x).events) :
    e.key.1 = look.col ∧ e.key.2 < 8 := by
  unfold scanColumn at h
  rw [recognize_eq] at h
  dsimp only at h
  rw [List.mem_append, mem_edgeEvents] at h
  obtain hcleared | ⟨i, hi, -, rfl | ⟨-, rfl⟩⟩ := h
  · refine (clearRows_events hcleared).resolve_left fun hbefore => ?_
    rw [hnone] at hbefore
    exact List.not_mem_nil hbefore
  · exact ⟨rfl, hi⟩
  · exact ⟨rfl, hi⟩

end ChromeEc.KeyboardScan
