import Mathlib.Algebra.Group.Int.Defs
import Mathlib.Algebra.Group.Nat.Defs

/- Arithmetic on the `int`s of C, and on its integers of 64 bits.

  The value of an operation is an integer, and there is none where it does not fit into 32 bits
  with a sign, or 64. A function that is written in these operations has a value only if nothing in it
  overflows. -/
namespace ChromeEc.Lib

def int (x : Int) : Option Int := if -2 ^ 31 ≤ x ∧ x < 2 ^ 31 then some x else none

theorem int_of_nonneg {x : Int} (h0 : 0 ≤ x) (h : x < 2 ^ 31) : int x = some x := if_pos ⟨by omega, h⟩

theorem int_natCast {n : Nat} (h : n < 2 ^ 31) : int n = some (n : Int) :=
  int_of_nonneg (Int.natCast_nonneg n) (by omega)

/-- What an operation on `int64_t` gives. -/
def int64 (x : Int) : Option Int := if -2 ^ 63 ≤ x ∧ x < 2 ^ 63 then some x else none

theorem int64_of_nonneg {x : Int} (h0 : 0 ≤ x) (h : x < 2 ^ 63) : int64 x = some x := if_pos ⟨by omega, h⟩

end ChromeEc.Lib
