import ChromeEc.Lib.Ring

/- Dropping entries of a ring in place.

  The entries are gone through from the first on. Each one that is kept is moved to the end
  of those kept so far, which is never ahead of where it is read.

  What is proved: what is left is the filtered list, and the rest of the ring is as it was
  (`compact_spec`). -/
namespace ChromeEc.Lib

variable {α : Type}

def put (N h : Nat) (cells : Nat → α) (j : Nat) (x : α) : Nat → α :=
  fun u => if u = (h + j) % N then x else cells u

/-- Entry `i` is dropped or moved to the end of those that are kept. -/
def compactStep (N h : Nat) (keep : α → Bool) (st : (Nat → α) × Nat) (i : Nat) : (Nat → α) × Nat :=
  if keep (ringAt N st.1 h i) then (put N h st.1 st.2 (ringAt N st.1 h i), st.2 + 1) else st

/-- Of the first `n` entries those to keep are kept. -/
def compact (N h : Nat) (keep : α → Bool) (cells : Nat → α) (n : Nat) : (Nat → α) × Nat :=
  (List.range n).foldl (compactStep N h keep) (cells, 0)

theorem compact_succ (N h : Nat) (keep : α → Bool) (cells : Nat → α) (n : Nat) :
    compact N h keep cells (n + 1) = compactStep N h keep (compact N h keep cells n) n := by
  rw [compact, List.range_succ, List.foldl_append]
  rfl

theorem ring_index_inj {N h i j : Nat} (hi : i < N) (hj : j < N) (heq : (h + i) % N = (h + j) % N) : i = j := by
  have hN : 0 < N := by omega
  rw [mod_add_of_lt hN hi, mod_add_of_lt hN hj] at heq
  split at heq <;> split at heq <;> omega

theorem ringAt_put {N h i j : Nat} (cells : Nat → α) (x : α) (hi : i < N) (hj : j < N) :
    ringAt N (put N h cells j x) h i = if i = j then x else ringAt N cells h i := by
  unfold ringAt put
  by_cases hij : i = j
  · rw [if_pos hij, if_pos (by rw [hij])]
  · rw [if_neg hij, if_neg fun heq => hij (ring_index_inj hi hj heq)]

theorem compact_spec {N h : Nat} (keep : α → Bool) (cells : Nat → α) {n : Nat} (hn : n ≤ N) :
    (compact N h keep cells n).2 ≤ n ∧
      window (ringAt N (compact N h keep cells n).1 h) 0 (compact N h keep cells n).2 =
        (window (ringAt N cells h) 0 n).filter keep ∧
      ∀ i, n ≤ i → i < N → ringAt N (compact N h keep cells n).1 h i = ringAt N cells h i := by
  induction n with
  | zero => exact ⟨Nat.le_refl 0, rfl, fun _ _ _ => rfl⟩
  | succ n ih =>
    obtain ⟨hle, hkept, hrest⟩ := ih (Nat.le_of_succ_le hn)
    have hread : ringAt N (compact N h keep cells n).1 h n = ringAt N cells h n := hrest n (Nat.le_refl n) hn
    have hsplit : window (ringAt N cells h) 0 (n + 1) = window (ringAt N cells h) 0 n ++ [ringAt N cells h n] := by
      rw [window_snoc, Nat.zero_add]
    rw [compact_succ]
    generalize compact N h keep cells n = r at hle hkept hrest hread ⊢
    rw [compactStep, hread, hsplit, List.filter_append]
    cases hkeep : keep (ringAt N cells h n) with
    | true =>
      rw [if_pos rfl, List.filter_cons_of_pos hkeep, List.filter_nil, ← hkept]
      refine ⟨Nat.succ_le_succ hle, ?_, ?_⟩
      · -- the places before `r.2` are not written to
        have hbefore : window (ringAt N (put N h r.1 r.2 (ringAt N cells h n)) h) 0 r.2 =
            window (ringAt N r.1 h) 0 r.2 := by
          apply window_congr
          intro i hi
          rw [Nat.zero_add, ringAt_put _ _ (by omega) (by omega), if_neg (by omega)]
        rw [window_snoc, hbefore, ringAt_put _ _ (by omega) (by omega), if_pos (Nat.zero_add _)]
      · intro i hi hiN
        rw [ringAt_put _ _ hiN (by omega), if_neg (by omega)]
        exact hrest i (by omega) hiN
    | false =>
      rw [if_neg Bool.false_ne_true, List.filter_cons_of_neg (by rw [hkeep]; decide), List.filter_nil, List.append_nil]
      exact ⟨Nat.le_succ_of_le hle, hkept, fun i hi hiN => hrest i (Nat.le_of_succ_le hi) hiN⟩

end ChromeEc.Lib
