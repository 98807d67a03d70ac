import Mathlib.Data.List.Sort

/- The words of a console line: `split_words` in `common/console.c`.

  A line is a list of characters before its NUL, and the buffer is the line with the NUL. A
  pointer into the buffer is an index. Each character is read before it can be overwritten, so
  the loop goes over the characters of the line and keeps the buffer apart.

  Correspondence (C ↔ Lean):
    `isspace` ↔ `isspace`
    `split_words` ↔ `splitWords`, with `splitFrom` the loop from a character on

  A word here is a run of characters without a space that cannot be made longer (`IsWord`), in
  the part of the line before the first `#`. -/
namespace ChromeEc.Console

def maxArgsPerCommand : Nat := 10
def hash : UInt8 := 35

def isspace (c : UInt8) : Bool := c == 32 || c == 9 || c == 13 || c == 10

structure Words where
  inWord : Bool
  argc : Nat
  argv : List Nat
  buf : List UInt8

def Words.close (x : Words) (k : Nat) : Words :=
  if x.inWord = true then { x with inWord := false, argc := x.argc + 1, buf := x.buf.set k 0 } else x

/-- The loop from the character `k` on, and whether it ends with `EC_SUCCESS`. -/
def splitFrom : Nat → List UInt8 → Words → Bool × Words
  | k, [], x => (true, x.close k)
  | k, c :: rest, x =>
    if isspace c = true then splitFrom (k + 1) rest (x.close k)
    else if c = hash then (true, x)
    else if x.inWord = true then splitFrom (k + 1) rest x
    else if maxArgsPerCommand ≤ x.argc then (false, x)
    else splitFrom (k + 1) rest { x with inWord := true, argv := x.argv.take x.argc ++ [k] }

def splitWords (line : List UInt8) : Bool × Words := splitFrom 0 line ⟨false, 0, [], line ++ [0]⟩

/-! ## Words of a line -/

def beforeHash (line : List UInt8) : List UInt8 := line.takeWhile fun c => c != hash

/-- From `a` up to `b` there is no space, and the run cannot be made longer. -/
structure IsWord (l : List UInt8) (w : Nat × Nat) : Prop where
  lt : w.1 < w.2
  le : w.2 ≤ l.length
  inside : ∀ k, w.1 ≤ k → k < w.2 → isspace (l.getD k 0) = false
  before : w.1 = 0 ∨ isspace (l.getD (w.1 - 1) 0) = true
  after : w.2 = l.length ∨ isspace (l.getD w.2 0) = true

/-- The words from the character `k` on, when one is open since `s`. -/
def wordsFrom : Nat → Option Nat → List UInt8 → List (Nat × Nat)
  | k, s, [] => s.toList.map fun a => (a, k)
  | k, s, c :: rest =>
    if isspace c = true then (s.toList.map fun a => (a, k)) ++ wordsFrom (k + 1) none rest
    else wordsFrom (k + 1) (some (s.getD k)) rest

def words (l : List UInt8) : List (Nat × Nat) := wordsFrom 0 none l

/-- The words of the line are in `argv`, each with a NUL behind it, and the rest of the buffer is as it was. -/
def Split (line : List UInt8) : Prop :=
  ∃ ws : List (Nat × Nat), (∀ w, w ∈ ws ↔ IsWord (beforeHash line) w) ∧ ws.Pairwise (fun a b => a.1 < b.1) ∧
    let r := splitWords line
    (r.1 = true ↔ ws.length ≤ maxArgsPerCommand) ∧ r.2.argc = min ws.length maxArgsPerCommand ∧
      r.2.argv.take r.2.argc = (ws.take maxArgsPerCommand).map Prod.fst ∧ r.2.buf.length = line.length + 1 ∧
      ∀ k, r.2.buf.getD k 0 = if k ∈ (ws.take maxArgsPerCommand).map Prod.snd then 0 else line.getD k 0

/-- A word is still open at the first `#`. -/
def OpenAtHash (line : List UInt8) : Prop := hash ∈ line ∧ ∃ c ∈ (beforeHash line).getLast?, isspace c = false

variable {l : List UInt8} {w : Nat × Nat} {a k : Nat} {s : Option Nat}

/-! ## The words of a list -/

structure Opens (l : List UInt8) (a k : Nat) : Prop where
  lt : a < k
  inside : ∀ j, a ≤ j → j < k → isspace (l.getD j 0) = false
  before : a = 0 ∨ isspace (l.getD (a - 1) 0) = true

theorem Opens.closed (h : Opens l a k) (hle : k ≤ l.length) (hend : k = l.length ∨ isspace (l.getD k 0) = true) :
    IsWord l (a, k) := ⟨h.lt, hle, h.inside, h.before, hend⟩

/-- A word that does not begin before the open one is that one, or begins behind it. -/
theorem Opens.eq_or_lt (h : Opens l a k) (hk : k ≤ l.length)
    (hend : k = l.length ∨ isspace (l.getD k 0) = true) (hw : IsWord l w)
    (ha : a ≤ w.1) : w = (a, k) ∨ k < w.1 := by
  have hlt := hw.lt
  have hle := hw.le
  by_cases hbehind : k < w.1
  · exact Or.inr hbehind
  · refine Or.inl ?_
    have hfirst : w.1 = a := by
      by_contra hne
      rcases hw.before with hzero | hspace
      · omega
      · rw [h.inside (w.1 - 1) (by omega) (by omega)] at hspace
        cases hspace
    have hupper : w.2 ≤ k := by
      by_contra hgt
      rcases hend with hlen | hspace
      · omega
      · rw [hw.inside k (by omega) (by omega)] at hspace
        cases hspace
    have hlower : k ≤ w.2 := by
      by_contra hgt
      rcases hw.after with hlen | hspace
      · omega
      · rw [h.inside w.2 (by omega) (by omega)] at hspace
        cases hspace
    exact Prod.ext hfirst (le_antisymm hupper hlower)

/-- What is known of a scan that has come to the character `k`. -/
def Scanned (l : List UInt8) (k : Nat) : Option Nat → Prop
  | none => k = 0 ∨ isspace (l.getD (k - 1) 0) = true
  | some a => Opens l a k

theorem mem_wordsFrom {rest : List UInt8} (hrest : l.drop k = rest) (hk : k ≤ l.length) (hscan : Scanned l k s) :
    w ∈ wordsFrom k s rest ↔ IsWord l w ∧ s.getD k ≤ w.1 := by
  induction rest generalizing k s with
  | nil =>
    have hlen : k = l.length := le_antisymm hk (List.drop_eq_nil_iff.mp hrest)
    cases s with
    | none =>
      refine iff_of_false List.not_mem_nil fun h => ?_
      have hlt := h.1.lt
      have hle := h.1.le
      have hge : k ≤ w.1 := h.2
      omega
    | some a =>
      rw [wordsFrom, Option.toList_some, List.map_singleton, List.mem_singleton]
      constructor
      · rintro rfl
        exact ⟨hscan.closed hk (Or.inl hlen), le_refl _⟩
      · rintro ⟨hw, ha⟩
        refine (hscan.eq_or_lt hk (Or.inl hlen) hw ha).resolve_right fun hlt => ?_
        have hle := hw.lt.trans_le hw.le
        omega
  | cons c rest ih =>
    have hlt : k < l.length := by
      by_contra hge
      rw [List.drop_of_length_le (Nat.le_of_not_lt hge)] at hrest
      cases hrest
    have hc : l.getD k 0 = c := by
      have hget := @List.getElem?_drop _ l k 0
      rw [hrest, Nat.add_zero] at hget
      rw [List.getD_eq_getElem?_getD, ← hget]
      rfl
    have hnext : l.drop (k + 1) = rest := by
      rw [← List.drop_drop, hrest]
      rfl
    rw [wordsFrom]
    split
    · rename_i hspace
      have hspace' : isspace (l.getD k 0) = true := by rw [hc]; exact hspace
      have hrec := ih (s := none) hnext hlt (Or.inr hspace')
      rw [List.mem_append, hrec, Option.getD_none]
      cases s with
      | none =>
        rw [Option.toList_none, List.map_nil, Option.getD_none]
        constructor
        · rintro (hnil | ⟨hw, hge⟩)
          · cases hnil
          · exact ⟨hw, by omega⟩
        · rintro ⟨hw, hge⟩
          refine Or.inr ⟨hw, Nat.lt_of_le_of_ne hge fun heq => ?_⟩
          rw [hw.inside k heq.ge (heq ▸ hw.lt)] at hspace'
          cases hspace'
      | some a =>
        rw [Option.toList_some, List.map_singleton, List.mem_singleton, Option.getD_some]
        constructor
        · rintro (rfl | ⟨hw, hge⟩)
          · exact ⟨hscan.closed hk (Or.inr hspace'), le_refl _⟩
          · exact ⟨hw, by have hak := hscan.lt; omega⟩
        · rintro ⟨hw, ha⟩
          exact (hscan.eq_or_lt hk (Or.inr hspace') hw ha).imp_right fun hbehind => ⟨hw, hbehind⟩
    · rename_i hspace
      have hplain : isspace (l.getD k 0) = false := by rw [hc]; simpa using hspace
      cases s with
      | none =>
        refine (ih (s := some k) hnext hlt ⟨Nat.lt_succ_self k, fun j hlo hhi => ?_, hscan⟩).trans Iff.rfl
        obtain rfl : j = k := by omega
        exact hplain
      | some a =>
        refine (ih (s := some a) hnext hlt ⟨hscan.lt.trans (Nat.lt_succ_self k), fun j hlo hhi => ?_, hscan.before⟩).trans
          Iff.rfl
        rcases Nat.lt_succ_iff_lt_or_eq.mp hhi with hj | rfl
        · exact hscan.inside j hlo hj
        · exact hplain

theorem mem_words : w ∈ words l ↔ IsWord l w := by
  have hscan : Scanned l 0 none := Or.inl rfl
  have hmem : w ∈ wordsFrom 0 none l ↔ IsWord l w ∧ (none : Option Nat).getD 0 ≤ w.1 :=
    mem_wordsFrom rfl (Nat.zero_le _) hscan
  exact hmem.trans (and_iff_left (Nat.zero_le _))

theorem le_wordsFrom (h : w ∈ wordsFrom k none l) : k ≤ w.1 := by
  suffices hall : ∀ {s : Option Nat} {a : Nat}, a ≤ k → (∀ b ∈ s, a ≤ b) → w ∈ wordsFrom k s l → a ≤ w.1 from
    hall (le_refl k) (fun b hb => absurd hb (Option.not_mem_none b)) h
  clear h
  induction l generalizing k with
  | nil =>
    intro s a _ hstart hw
    obtain ⟨b, hb, rfl⟩ := List.mem_map.mp hw
    exact hstart b (Option.mem_toList.mp hb)
  | cons c rest ih =>
    intro s a hle hstart hw
    rw [wordsFrom] at hw
    split at hw
    · rcases List.mem_append.mp hw with hw | hw
      · obtain ⟨b, hb, rfl⟩ := List.mem_map.mp hw
        exact hstart b (Option.mem_toList.mp hb)
      · exact ih (Nat.le_succ_of_le hle) (fun b hb => absurd hb (Option.not_mem_none b)) hw
    · refine ih (Nat.le_succ_of_le hle) (fun b hb => ?_) hw
      obtain rfl := Option.mem_some.mp hb
      cases s with
      | none => exact hle
      | some b => exact hstart b rfl

theorem words_rising (hstart : ∀ a ∈ s, a < k) : (wordsFrom k s l).Pairwise fun a b => a.1 < b.1 := by
  induction l generalizing k s with
  | nil =>
    cases s with
    | none => exact List.Pairwise.nil
    | some a => exact List.pairwise_singleton _ _
  | cons c rest ih =>
    rw [wordsFrom]
    split
    · have hnone := ih (k := k + 1) (s := none) fun a ha => absurd ha (Option.not_mem_none a)
      cases s with
      | none => exact hnone
      | some a =>
        refine List.pairwise_cons.mpr ⟨fun w hw => ?_, hnone⟩
        exact (hstart a rfl).trans (le_wordsFrom hw)
    · refine ih fun a ha => ?_
      obtain rfl := Option.mem_some.mp ha
      cases s with
      | none => exact Nat.lt_succ_self k
      | some a => exact (hstart a rfl).trans (Nat.lt_succ_self k)

/-! ## What the loop counts -/

/-- The words that the loop ends. -/
def countedFrom : Nat → Option Nat → List UInt8 → List (Nat × Nat)
  | k, s, [] => s.toList.map fun a => (a, k)
  | k, s, c :: rest =>
    if isspace c = true then (s.toList.map fun a => (a, k)) ++ countedFrom (k + 1) none rest
    else if c = hash then []
    else countedFrom (k + 1) (some (s.getD k)) rest

/-- The word that is open at the first `#`, if one is. -/
def lostFrom : Nat → Option Nat → List UInt8 → List (Nat × Nat)
  | _, _, [] => []
  | k, s, c :: rest =>
    if isspace c = true then lostFrom (k + 1) none rest
    else if c = hash then s.toList.map fun a => (a, k)
    else lostFrom (k + 1) (some (s.getD k)) rest

theorem isspace_hash : isspace hash = false := by decide

theorem wordsFrom_beforeHash {line : List UInt8} :
    wordsFrom k s (beforeHash line) = countedFrom k s line ++ lostFrom k s line := by
  induction line generalizing k s with
  | nil => rw [countedFrom, lostFrom, List.append_nil]; rfl
  | cons c rest ih =>
    rw [countedFrom, lostFrom, beforeHash, List.takeWhile_cons]
    by_cases hspace : isspace c = true
    · have hne : c ≠ hash := by
        rintro rfl
        rw [isspace_hash] at hspace
        cases hspace
      simp only [bne_iff_ne, hne, ne_eq, not_false_eq_true, if_pos, hspace, wordsFrom]
      rw [← beforeHash, ih, List.append_assoc]
    · by_cases hhash : c = hash
      · simp [hhash, isspace_hash, wordsFrom]
      · simp only [bne_iff_ne, hhash, ne_eq, not_false_eq_true, if_pos, hspace, wordsFrom, if_false]
        exact ih

theorem length_lostFrom : (lostFrom k s l).length ≤ 1 := by
  induction l generalizing k s with
  | nil => exact Nat.zero_le _
  | cons c rest ih =>
    rw [lostFrom]
    split
    · exact ih
    · split
      · cases s <;> simp
      · exact ih

theorem one_le_words : 1 ≤ (countedFrom k (some a) l ++ lostFrom k (some a) l).length := by
  induction l generalizing k with
  | nil => simp [countedFrom]
  | cons c rest ih =>
    rw [countedFrom, lostFrom]
    split
    · simp
    · split
      · simp
      · exact ih

def terminate (ends : List Nat) (buf : List UInt8) : List UInt8 := ends.foldl (fun buf k => buf.set k 0) buf

theorem splitFrom_spec {done : List Nat} {buf : List UInt8} (hroom : done.length + s.toList.length ≤ maxArgsPerCommand) :
    let cw := countedFrom k s l
    let room := maxArgsPerCommand - done.length
    let r := splitFrom k l ⟨s.isSome, done.length, done ++ s.toList, buf⟩
    (r.1 = true ↔ (cw ++ lostFrom k s l).length ≤ room) ∧ r.2.argc = min (done.length + cw.length) maxArgsPerCommand ∧
      r.2.argv.take r.2.argc = done ++ (cw.take room).map Prod.fst ∧
      r.2.buf = terminate ((cw.take room).map Prod.snd) buf := by
  induction l generalizing k s done buf with
  | nil =>
    cases s with
    | none =>
      refine ⟨iff_of_true rfl (Nat.zero_le _), ?_, ?_, ?_⟩
      · show done.length = min (done.length + 0) maxArgsPerCommand
        rw [Nat.add_zero, Nat.min_eq_left (by simpa using hroom)]
      · simp [splitFrom, Words.close, countedFrom]
      · simp [splitFrom, Words.close, countedFrom, terminate]
    | some a =>
      have hlt : done.length + 1 ≤ maxArgsPerCommand := hroom
      have htake : [(a, k)].take (maxArgsPerCommand - done.length) = [(a, k)] := List.take_of_length_le (by simp; omega)
      refine ⟨iff_of_true rfl ?_, ?_, ?_, ?_⟩
      · show 1 ≤ _
        omega
      · exact (Nat.min_eq_left hlt).symm
      · show ((done ++ [a]).take (done.length + 1)) = done ++ ([(a, k)].take _).map Prod.fst
        rw [htake, List.take_of_length_le (by simp)]
        rfl
      · show buf.set k 0 = terminate (([(a, k)].take _).map Prod.snd) buf
        rw [htake]
        rfl
  | cons c rest ih =>
    rw [splitFrom, countedFrom, lostFrom]
    by_cases hspace : isspace c = true
    · simp only [if_pos hspace]
      cases s with
      | none => exact ih hroom
      | some a =>
        have hlt : done.length + 1 ≤ maxArgsPerCommand := hroom
        have hlen : (done ++ [a]).length = done.length + 1 := by simp
        have hnext : (done ++ [a]).length + (none : Option Nat).toList.length ≤ maxArgsPerCommand := by
          rw [hlen]
          exact hlt
        have hroom' : maxArgsPerCommand - done.length = maxArgsPerCommand - (done ++ [a]).length + 1 := by omega
        have hclose : (⟨true, done.length, done ++ [a], buf⟩ : Words).close k =
            ⟨false, (done ++ [a]).length, (done ++ [a]) ++ [], buf.set k 0⟩ := by simp [Words.close]
        obtain ⟨hret, hargc, hargv, hbuf⟩ := @ih (k + 1) none (done ++ [a]) (buf.set k 0) hnext
        simp only [Option.isSome_some, Option.toList_some, hclose, hroom', List.map_cons, List.map_nil, List.cons_append,
          List.nil_append, List.take_succ_cons]
        refine ⟨hret.trans ?_, hargc.trans ?_, hargv.trans ?_, hbuf⟩
        · rw [List.length_cons, Nat.add_le_add_iff_right]
        · rw [hlen, List.length_cons, Nat.add_assoc, Nat.add_comm 1]
        · rw [List.append_assoc, List.singleton_append]
    · by_cases hhash : c = hash
      · simp only [if_neg hspace, if_pos hhash]
        refine ⟨iff_of_true trivial ?_, ?_, ?_, ?_⟩
        · rw [List.nil_append, List.length_map]
          omega
        · rw [List.length_nil, Nat.add_zero, Nat.min_eq_left (by omega)]
        · simp
        · simp [terminate]
      · simp only [if_neg hspace, if_neg hhash]
        cases s with
        | none =>
          have hargv : (done ++ (none : Option Nat).toList).take done.length ++ [k] = done ++ (some k).toList := by simp
          simp only [Option.isSome_none, Option.getD_none, hargv]
          rw [if_neg (by simp)]
          by_cases hfull : maxArgsPerCommand ≤ done.length
          · have hzero : maxArgsPerCommand - done.length = 0 := by omega
            have hone := @one_le_words rest k (k + 1)
            have hexact : done.length = maxArgsPerCommand := le_antisymm (by simpa using hroom) hfull
            rw [if_pos hfull, hzero]
            refine ⟨iff_of_false (by simp) (by omega), ?_, ?_, ?_⟩
            · show done.length = _
              omega
            · simp
            · simp [terminate]
          · rw [if_neg hfull]
            have hnext : done.length + (some k).toList.length ≤ maxArgsPerCommand := by
              show done.length + 1 ≤ _
              omega
            exact @ih (k + 1) (some k) done buf hnext
        | some a =>
          simp only [Option.isSome_some, if_pos, Option.getD_some]
          exact @ih (k + 1) (some a) done buf hroom

/-! ## The split -/

theorem length_terminate {ends : List Nat} {buf : List UInt8} : (terminate ends buf).length = buf.length := by
  induction ends generalizing buf with
  | nil => rfl
  | cons e ends ih =>
    have hrec : (terminate ends (buf.set e 0)).length = (buf.set e 0).length := ih
    exact hrec.trans List.length_set

theorem getD_terminate {ends : List Nat} {buf : List UInt8} :
    (terminate ends buf).getD k 0 = if k ∈ ends then 0 else buf.getD k 0 := by
  induction ends generalizing buf with
  | nil => simp [terminate]
  | cons e ends ih =>
    have hrec : (terminate (e :: ends) buf).getD k 0 = if k ∈ ends then 0 else (buf.set e 0).getD k 0 := ih
    rw [hrec]
    by_cases hend : k ∈ ends
    · simp [hend]
    · by_cases he : k = e
      · by_cases hlt : e < buf.length <;> simp [he, List.getD_eq_getElem?_getD, hlt]
      · simp [hend, he, List.getD_eq_getElem?_getD, Ne.symm he]

/-- A word is lost when the loop meets the `#` in it: one that it has opened, or the one it began with. -/
theorem lostFrom_eq_nil : lostFrom k s l = [] ↔
    ¬(hash ∈ l ∧ ((beforeHash l).getLast?.elim s.isSome fun c => !isspace c) = true) := by
  induction l generalizing k s with
  | nil => simp [lostFrom]
  | cons c rest ih =>
    rw [lostFrom]
    by_cases hspace : isspace c = true
    · have hne : c ≠ hash := by
        rintro rfl
        rw [isspace_hash] at hspace
        cases hspace
      have hbefore : beforeHash (c :: rest) = c :: beforeHash rest := by simp [beforeHash, hne]
      rw [if_pos hspace, ih, hbefore, List.getLast?_cons, List.mem_cons, or_iff_right (Ne.symm hne)]
      cases (beforeHash rest).getLast? <;> simp [hspace]
    · rw [if_neg hspace]
      by_cases hhash : c = hash
      · have hbefore : beforeHash (c :: rest) = [] := by simp [beforeHash, hhash]
        rw [if_pos hhash, hbefore]
        cases s <;> simp [hhash]
      · have hbefore : beforeHash (c :: rest) = c :: beforeHash rest := by simp [beforeHash, hhash]
        rw [if_neg hhash, ih, hbefore, List.getLast?_cons, List.mem_cons, or_iff_right (Ne.symm hhash)]
        cases (beforeHash rest).getLast? <;> simp [hspace]

theorem openAtHash_iff {line : List UInt8} : OpenAtHash line ↔ lostFrom 0 none line ≠ [] := by
  rw [Ne, lostFrom_eq_nil, not_not, OpenAtHash]
  cases (beforeHash line).getLast? <;> simp

/-- The table of words is the same with and without the lost word, or there is a lost word and room for it. -/
theorem take_append_iff {α : Type} {xs ys : List α} {n : Nat} (hys : ys.length ≤ 1) :
    (min xs.length n = min (xs ++ ys).length n ↔ ys = [] ∨ n < (xs ++ ys).length) ∧
      (min xs.length n = min (xs ++ ys).length n → (xs ++ ys).take n = xs.take n) := by
  rw [← List.length_eq_zero_iff, List.length_append]
  refine ⟨by omega, fun hmin => ?_⟩
  by_cases hzero : ys.length = 0
  · rw [List.length_eq_zero_iff.mp hzero, List.append_nil]
  · exact List.take_append_of_le_length (by omega)

theorem splitWords_buf {line : List UInt8} : (splitWords line).2.buf =
    terminate (((countedFrom 0 none line).take maxArgsPerCommand).map Prod.snd) (line ++ [0]) :=
  (@splitFrom_spec line 0 none [] (line ++ [0]) (Nat.zero_le _)).2.2.2

theorem length_splitWords {line : List UInt8} : (splitWords line).2.buf.length = line.length + 1 := by
  rw [splitWords_buf, length_terminate, List.length_append, List.length_singleton]

/-- The words are found unless the last of them ends at the `#`, and even then when there are too many. -/
theorem split_iff (line : List UInt8) :
    Split line ↔ ¬OpenAtHash line ∨ maxArgsPerCommand < (words (beforeHash line)).length := by
  have hwords : words (beforeHash line) = countedFrom 0 none line ++ lostFrom 0 none line := wordsFrom_beforeHash
  have hrising : (words (beforeHash line)).Pairwise fun a b => a.1 < b.1 :=
    words_rising fun a ha => absurd ha (Option.not_mem_none a)
  obtain ⟨hret, hargc, hargv, -⟩ := @splitFrom_spec line 0 none [] (line ++ [0]) (Nat.zero_le _)
  obtain ⟨hcount_iff, htake⟩ := @take_append_iff _ (countedFrom 0 none line) _ maxArgsPerCommand
    (@length_lostFrom line 0 none)
  rw [List.length_nil, Nat.zero_add] at hargc
  rw [openAtHash_iff, not_not, hwords, ← hcount_iff, ← hwords]
  constructor
  · rintro ⟨ws, hmem, hpair, -, hcount, -⟩
    have hsame : ws = words (beforeHash line) := by
      have _ : Std.Irrefl fun a b : Nat × Nat => a.1 < b.1 := ⟨fun a => Nat.lt_irrefl a.1⟩
      have _ : Std.Antisymm fun a b : Nat × Nat => a.1 < b.1 :=
        ⟨fun a b hab hba => absurd (hab.trans hba) (Nat.lt_irrefl a.1)⟩
      exact hpair.eq_of_mem_iff hrising fun w => (hmem w).trans mem_words.symm
    rw [hsame] at hcount
    exact hargc.symm.trans hcount
  · intro hcount
    have hfirst := htake (hwords ▸ hcount)
    rw [← hwords] at hfirst
    refine ⟨words (beforeHash line), fun w => mem_words, hrising, ?_, hargc.trans hcount, ?_, ?_, fun k => ?_⟩
    · rw [hwords]
      exact hret
    · rw [hfirst]
      exact hargv
    · exact length_splitWords
    · have hline : (line ++ [0]).getD k 0 = line.getD k 0 := by
        rw [List.getD_eq_getElem?_getD, List.getD_eq_getElem?_getD, List.getElem?_append]
        split
        · rfl
        · rename_i hge
          rw [List.getElem?_eq_none (Nat.le_of_not_lt hge)]
          cases k - line.length <;> rfl
      rw [hfirst, splitWords_buf, getD_terminate, hline]

/-- `a#` is one word and a comment. The scan stops at the `#` before it counts the word. -/
theorem word_before_hash_lost : ¬Split [97, 35] := by
  intro hsplit
  obtain ⟨ws, hmem, -, -, hcount, -⟩ := hsplit
  have hword : IsWord (beforeHash [97, 35]) (0, 1) :=
    ⟨Nat.one_pos, le_refl _, fun k _ hk => by obtain rfl := Nat.lt_one_iff.mp hk; rfl, Or.inl rfl, Or.inl rfl⟩
  have hpos := List.length_pos_of_mem ((hmem _).mpr hword)
  have hnone : (splitWords [97, 35]).2.argc = 0 := rfl
  rw [hnone, maxArgsPerCommand] at hcount
  omega

end ChromeEc.Console
