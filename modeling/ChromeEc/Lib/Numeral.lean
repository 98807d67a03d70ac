import Mathlib.Data.Nat.Digits.Lemmas

/- Numbers written in a base, the most significant digit first.

  A numeral is never empty and has no leading zero, unless it is that of 0. It is written from its last
  digit on (`numeral_of_le`), and read from the first one on, with any zeros in front of it
  (`read_zeros_numeral`). -/
namespace ChromeEc.Lib

def numeral (b n : Nat) : List Nat := if n = 0 then [0] else (Nat.digits b n).reverse

section

variable {b n : Nat}

theorem numeral_zero : numeral b 0 = [0] := if_pos rfl

theorem digits_reverse (hb : 1 < b) (hn : n ≠ 0) :
    (Nat.digits b n).reverse = (Nat.digits b (n / b)).reverse ++ [n % b] := by
  rw [Nat.digits_def' hb (Nat.pos_of_ne_zero hn), List.reverse_cons]

theorem numeral_lt (hb : 1 < b) : ∀ d ∈ numeral b n, d < b := by
  intro d hd
  unfold numeral at hd
  split at hd
  · rw [List.mem_singleton.mp hd]
    omega
  · exact Nat.digits_lt_base hb (List.mem_reverse.mp hd)

theorem numeral_ne_nil (hb : 1 < b) : numeral b n ≠ [] := by
  unfold numeral
  split
  · simp
  · next hn =>
    rw [digits_reverse hb hn]
    simp

theorem numeral_head {d : Nat} {l : List Nat} (h : numeral b n = d :: l) (hn : n ≠ 0) : d ≠ 0 := by
  rw [numeral, if_neg hn] at h
  have hne : Nat.digits b n ≠ [] := by
    intro hnil
    rw [hnil] at h
    cases h
  have hlast := Nat.getLast_digit_ne_zero b hn
  have hd : (Nat.digits b n).getLast hne = d := by
    rw [← List.head_reverse (by simpa using hne)]
    simp [h]
  rwa [hd] at hlast

/-! ## Reading -/

def readDigit (b r d : Nat) : Nat := r * b + d

theorem read_digits : (Nat.digits b n).reverse.foldl (readDigit b) 0 = n := by
  calc (Nat.digits b n).reverse.foldl (readDigit b) 0 =
        (Nat.digits b n).foldr (fun d r => readDigit b r d) 0 := List.foldl_reverse
    _ = Nat.ofDigits b (Nat.digits b n) := by
      rw [Nat.ofDigits_eq_foldr]
      simp [readDigit, Nat.mul_comm, Nat.add_comm]
    _ = n := Nat.ofDigits_digits b n

theorem read_zeros {k : Nat} : (List.replicate k 0).foldl (readDigit b) 0 = 0 := by
  induction k with
  | zero => rfl
  | succ k ih => rw [List.replicate_succ, List.foldl_cons, readDigit, Nat.zero_mul, ih]

theorem read_zeros_numeral {k : Nat} : (List.replicate k 0 ++ numeral b n).foldl (readDigit b) 0 = n := by
  rw [List.foldl_append, read_zeros, numeral]
  split
  · next hn => simp [readDigit, hn]
  · exact read_digits

end

end ChromeEc.Lib
