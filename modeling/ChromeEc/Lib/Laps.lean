import Mathlib.Data.List.Basic

/- A ring of `cap` cells that is written lap after lap: write number `k` goes to cell
  `k % cap`.

  What is proved: after the writes of a list the cells hold the last `cap` of them, each
  where its number says, and a cell no write has reached is as it was (`Laps.snoc`). -/
namespace ChromeEc.Lib

variable {α : Type} {cap : Nat} {start cells : Nat → α} {ws : List α} {v : α}

def setCell (cells : Nat → α) (i : Nat) (v : α) : Nat → α := fun j => if j = i then v else cells j

@[simp] theorem setCell_self {i : Nat} : setCell cells i v i = v := if_pos rfl

theorem setCell_of_ne {i j : Nat} (h : j ≠ i) : setCell cells i v j = cells j := if_neg h

structure Laps (cap : Nat) (start : Nat → α) (ws : List α) (cells : Nat → α) : Prop where
  last : ∀ k (h : k < ws.length), ws.length ≤ k + cap → cells (k % cap) = ws.get ⟨k, h⟩
  rest : ∀ j, j < cap → ws.length ≤ j → cells j = start j

theorem Laps.nil : Laps cap start [] start :=
  ⟨fun _ h => absurd h (Nat.not_lt_zero _), fun _ _ _ => rfl⟩

theorem mod_ne_of_lap {k n : Nat} (hlt : k < n) (hlap : n < k + cap) : k % cap ≠ n % cap := by
  intro h
  have hzero : (n - k) % cap = 0 := Nat.sub_mod_eq_zero_of_mod_eq h.symm
  rw [Nat.mod_eq_of_lt (by omega)] at hzero
  omega

theorem Laps.snoc (h : Laps cap start ws cells) : Laps cap start (ws ++ [v]) (setCell cells (ws.length % cap) v) where
  last k hk hlap := by
    rw [List.length_append, List.length_singleton] at hk hlap
    rcases Nat.lt_or_ge k ws.length with hlt | hge
    · have hcell := h.last k hlt (by omega)
      rw [setCell_of_ne (mod_ne_of_lap hlt (by omega)), hcell]
      simp [hlt]
    · obtain rfl : k = ws.length := by omega
      simp
  rest j hj hlen := by
    rw [List.length_append, List.length_singleton] at hlen
    have hne : j ≠ ws.length % cap := by
      rw [Nat.mod_eq_of_lt (by omega)]
      omega
    rw [setCell_of_ne hne, h.rest j hj (by omega)]

end ChromeEc.Lib
