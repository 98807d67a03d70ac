import Mathlib.Data.List.Basic
import Mathlib.Data.List.GetD

/- Copies between flat memories, and a flat memory read as a ring.

  A memory is a function of the address. `blit` is a block copy, `block b`
  regroups a memory of bytes into units of `b` bytes, and `ringAt N cells h` is
  the ring of the first `N` cells counted from position `h`, which may be any
  number: only its residue modulo `N` matters. `window` lists a stretch of a
  memory.

  What is proved: a byte copy at unit boundaries is a copy of units
  (`block_blit`); a copy into the ring that stays below the physical end is a
  copy seen from `h` (`ringAt_blit`), and what is left of a copy that reached the
  end goes on at cell 0 (`ring_index_after_end`); a copy out of the ring that is
  split there reads it in order (`blit_ring_wrap`). -/
namespace ChromeEc.Lib

variable {α : Type*}

/-! ## Block copies -/

/-- `memcpy(cells + t, src, n)`. -/
def blit (cells : Nat → α) (t : Nat) (src : Nat → α) (n : Nat) : Nat → α :=
  fun u => if t ≤ u ∧ u < t + n then src (u - t) else cells u

@[simp] theorem blit_zero (cells src : Nat → α) (t : Nat) : blit cells t src 0 = cells := by
  funext u
  unfold blit
  rw [if_neg (by omega)]

theorem blit_apply_of_mem {cells src : Nat → α} {t n u : Nat} (h : t ≤ u ∧ u < t + n) :
    blit cells t src n u = src (u - t) := if_pos h

theorem blit_apply_of_notMem {cells src : Nat → α} {t n u : Nat} (h : ¬(t ≤ u ∧ u < t + n)) :
    blit cells t src n u = cells u := if_neg h

theorem blit_append (cells src : Nat → α) (t n k : Nat) :
    blit (blit cells t src n) (t + n) (fun a => src (n + a)) k = blit cells t src (n + k) := by
  funext u
  unfold blit
  by_cases h₁ : t + n ≤ u ∧ u < t + n + k
  · rw [if_pos h₁, if_pos (by omega)]
    show src (n + (u - (t + n))) = src (u - t)
    congr 1
    omega
  · rw [if_neg h₁]
    by_cases h₂ : t ≤ u ∧ u < t + n
    · rw [if_pos h₂, if_pos (by omega)]
    · rw [if_neg h₂, if_neg (by omega)]

theorem blit_congr {cells src src' : Nat → α} {t n : Nat} (h : ∀ i, i < n → src i = src' i) :
    blit cells t src n = blit cells t src' n := by
  funext u
  unfold blit
  split
  · exact h _ (by omega)
  · rfl

/-! ## Memories in units of `b` bytes -/

/-- Unit `u` of a memory whose units have `b` bytes. -/
def block (b : Nat) (mem : Nat → α) (u : Nat) : List α :=
  (List.range b).map fun j => mem (u * b + j)

theorem mul_le_mul_add_iff {b t u j : Nat} (hj : j < b) : t * b ≤ u * b + j ↔ t ≤ u := by
  have hb : 0 < b := by omega
  have hdiv : (u * b + j) / b = u := by
    rw [Nat.mul_comm, Nat.mul_add_div hb, Nat.div_eq_of_lt hj, Nat.add_zero]
  rw [← Nat.le_div_iff_mul_le hb, hdiv]

theorem block_blit (b : Nat) (mem src : Nat → α) (t n : Nat) :
    block b (blit mem (t * b) src (n * b)) = blit (block b mem) t (block b src) n := by
  funext u
  have hlo : ∀ j, j < b → (t * b ≤ u * b + j ↔ t ≤ u) := fun j hj => mul_le_mul_add_iff hj
  have hhi : ∀ j, j < b → (u * b + j < t * b + n * b ↔ u < t + n) := by
    intro j hj
    rw [← Nat.add_mul]
    have := mul_le_mul_add_iff (t := t + n) (u := u) hj
    omega
  unfold block
  by_cases h : t ≤ u ∧ u < t + n
  · rw [blit_apply_of_mem h]
    apply List.map_congr_left
    intro j hj
    have hj := List.mem_range.mp hj
    rw [blit_apply_of_mem ⟨(hlo j hj).mpr h.1, (hhi j hj).mpr h.2⟩]
    congr 1
    rw [Nat.sub_mul]
    have := Nat.mul_le_mul_right b h.1
    omega
  · rw [blit_apply_of_notMem h]
    apply List.map_congr_left
    intro j hj
    have hj := List.mem_range.mp hj
    rw [blit_apply_of_notMem]
    rw [hlo j hj, hhi j hj]
    exact h

theorem block_shift (b : Nat) (mem : Nat → α) (s : Nat) :
    block b (fun a => mem (s * b + a)) = fun u => block b mem (s + u) := by
  funext u
  unfold block
  apply List.map_congr_left
  intro j _
  show mem (s * b + (u * b + j)) = mem ((s + u) * b + j)
  rw [Nat.add_mul, Nat.add_assoc]

/-! ## The ring -/

/-- Cell `i` of the ring of `N` cells, counted from position `h`. -/
def ringAt (N : Nat) (cells : Nat → α) (h i : Nat) : α := cells ((h + i) % N)

theorem mod_add_of_lt {N x k : Nat} (hN : 0 < N) (hk : k < N) :
    (x + k) % N = if x % N + k < N then x % N + k else x % N + k - N := by
  have hx := Nat.mod_lt x hN
  rw [Nat.add_mod, Nat.mod_eq_of_lt hk]
  split
  · rw [Nat.mod_eq_of_lt (by assumption)]
  · rw [Nat.mod_eq_sub_mod (by omega), Nat.mod_eq_of_lt (by omega)]

theorem ringAt_add (N : Nat) (cells : Nat → α) (h n i : Nat) :
    ringAt N cells (h + n) i = ringAt N cells h (n + i) := by
  unfold ringAt
  rw [Nat.add_assoc]

theorem ringAt_wrap (N : Nat) (cells : Nat → α) (h i : Nat) :
    ringAt N cells h (N + i) = ringAt N cells h i := by
  unfold ringAt
  rw [Nat.add_left_comm, Nat.add_mod_left]

theorem ringAt_mod {N M : Nat} (hd : N ∣ M) (cells : Nat → α) (h i : Nat) :
    ringAt N cells (h % M) i = ringAt N cells h i := by
  unfold ringAt
  rw [Nat.add_mod, Nat.mod_mod_of_dvd h hd, ← Nat.add_mod]

/-- Where cell `i` lies with respect to a copy that starts at cell `d` and does
not cross the physical end. -/
theorem ring_index_mem {N h d n i : Nat} (hi : i < N)
    (hend : (h + d) % N + n ≤ N) (hn : d + n ≤ N) :
    ((h + d) % N ≤ (h + i) % N ∧ (h + i) % N < (h + d) % N + n ↔ d ≤ i ∧ i < d + n) ∧
      (d ≤ i → i < d + n → (h + i) % N - (h + d) % N = i - d) := by
  have hN : 0 < N := by omega
  have hm := Nat.mod_lt h hN
  obtain hd | rfl : d < N ∨ d = N := by omega
  case inr => constructor <;> omega
  have hdi := mod_add_of_lt (x := h) hN hd
  have hii := mod_add_of_lt (x := h) hN hi
  constructor
  · split at hdi <;> split at hii <;> omega
  · intro h₁ h₂
    split at hdi <;> split at hii <;> omega

theorem ringAt_blit {N h d n i : Nat} (cells src : Nat → α) (hi : i < N)
    (hend : (h + d) % N + n ≤ N) (hn : d + n ≤ N) :
    ringAt N (blit cells ((h + d) % N) src n) h i = blit (ringAt N cells h) d src n i := by
  obtain ⟨hmem, hoff⟩ := ring_index_mem hi hend hn
  unfold ringAt
  by_cases h : d ≤ i ∧ i < d + n
  · rw [blit_apply_of_mem (hmem.mpr h), blit_apply_of_mem h, hoff h.1 h.2]
  · rw [blit_apply_of_notMem (hmem.not.mpr h), blit_apply_of_notMem h]

theorem ring_index_after_end {N h d : Nat} (hd : d < N) :
    (h + (d + (N - (h + d) % N))) % N = 0 := by
  have hN : 0 < N := by omega
  have hlt := Nat.mod_lt (h + d) hN
  rw [← Nat.add_assoc, Nat.add_mod]
  by_cases hz : (h + d) % N = 0
  · rw [hz, Nat.sub_zero, Nat.mod_self, Nat.zero_add, Nat.zero_mod]
  · rw [Nat.mod_eq_of_lt (by omega : N - (h + d) % N < N), Nat.add_sub_cancel' (Nat.le_of_lt hlt),
      Nat.mod_self]

/-- A copy out of the ring that is split at the physical end reads the ring in
order. -/
theorem blit_ring_wrap {N h n : Nat} (dest cells : Nat → α) (hN : 0 < N) (hn : n ≤ N) :
    blit (blit dest 0 (fun a => cells (h % N + a)) (min n (N - h % N))) (min n (N - h % N)) cells
        (n - min n (N - h % N)) =
      blit dest 0 (ringAt N cells h) n := by
  have hlt := Nat.mod_lt h hN
  have hfirst : blit dest 0 (fun a => cells (h % N + a)) (min n (N - h % N)) =
      blit dest 0 (ringAt N cells h) (min n (N - h % N)) := by
    apply blit_congr
    intro i hi
    unfold ringAt
    rw [mod_add_of_lt hN (by omega), if_pos (by omega)]
  have hsecond : ∀ cells' : Nat → α, blit cells' (min n (N - h % N)) cells
      (n - min n (N - h % N)) = blit cells' (min n (N - h % N))
        (fun a => ringAt N cells h (min n (N - h % N) + a)) (n - min n (N - h % N)) := by
    intro cells'
    apply blit_congr
    intro i hi
    unfold ringAt
    rw [mod_add_of_lt hN (by omega), if_neg (by omega)]
    congr 1
    omega
  rw [hfirst, hsecond]
  have happ := blit_append dest (ringAt N cells h) 0 (min n (N - h % N)) (n - min n (N - h % N))
  rw [Nat.zero_add] at happ
  rw [happ]
  congr 1
  omega

/-! ## Windows -/

/-- The cells `d .. d + n` of a memory as a list. -/
def window (f : Nat → α) (d n : Nat) : List α := (List.range n).map fun i => f (d + i)

@[simp] theorem length_window (f : Nat → α) (d n : Nat) : (window f d n).length = n := by
  simp [window]

@[simp] theorem window_zero (f : Nat → α) (d : Nat) : window f d 0 = [] := rfl

theorem getElem?_window (f : Nat → α) (d n i : Nat) :
    (window f d n)[i]? = if i < n then some (f (d + i)) else none := by
  unfold window
  rw [List.getElem?_map]
  by_cases h : i < n
  · rw [List.getElem?_range h, if_pos h, Option.map_some]
  · rw [List.getElem?_eq_none (by simpa using h), if_neg h, Option.map_none]

theorem window_append (f : Nat → α) (d n m : Nat) :
    window f d n ++ window f (d + n) m = window f d (n + m) := by
  unfold window
  rw [List.range_add, List.map_append, List.map_map]
  congr 1
  apply List.map_congr_left
  intro i _
  rw [Function.comp_apply, Nat.add_assoc]

theorem take_window (f : Nat → α) (d n m : Nat) :
    (window f d n).take m = window f d (min m n) := by
  unfold window
  rw [← List.map_take, List.take_range]

theorem drop_window (f : Nat → α) (d n m : Nat) :
    (window f d n).drop m = window f (d + m) (n - m) := by
  apply List.ext_getElem?
  intro i
  rw [List.getElem?_drop, getElem?_window, getElem?_window]
  by_cases h : m + i < n
  · rw [if_pos h, if_pos (by omega), Nat.add_assoc]
  · rw [if_neg h, if_neg (by omega)]

theorem window_congr {f g : Nat → α} {d e n : Nat} (h : ∀ i, i < n → f (d + i) = g (e + i)) :
    window f d n = window g e n := by
  apply List.map_congr_left
  intro i hi
  exact h i (List.mem_range.mp hi)

theorem window_succ (f : Nat → α) (d n : Nat) :
    window f d (n + 1) = f d :: window f (d + 1) n := by
  have h := window_append f d 1 n
  rw [Nat.add_comm 1 n] at h
  rw [← h]
  rfl

theorem window_snoc (f : Nat → α) (d n : Nat) : window f d (n + 1) = window f d n ++ [f (d + n)] := by
  rw [← window_append]
  rfl

theorem window_blit_end (mem src : Nat → α) (t n : Nat) :
    window (blit mem t src n) 0 (t + n) = window mem 0 t ++ window src 0 n := by
  rw [← window_append, Nat.zero_add]
  congr 1
  · apply window_congr
    intro i hi
    rw [blit_apply_of_notMem (by omega)]
  · apply window_congr
    intro i hi
    rw [blit_apply_of_mem (by omega), Nat.add_sub_cancel_left, Nat.zero_add]

theorem window_getD (l : List α) (x : α) {d n : Nat} (h : d + n ≤ l.length) :
    window (fun i => l.getD i x) d n = (l.drop d).take n := by
  apply List.ext_getElem?
  intro i
  rw [getElem?_window, List.getElem?_take]
  by_cases hi : i < n
  · rw [if_pos hi, if_pos hi, List.getElem?_drop, List.getD_eq_getElem?_getD,
      List.getElem?_eq_getElem (by omega), Option.getD_some]
  · rw [if_neg hi, if_neg hi]

end ChromeEc.Lib
