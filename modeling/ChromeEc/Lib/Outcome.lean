import Mathlib.Init

/- Postconditions of computations that may fail.

  `Outcome err post m`: if the computation `m` returns a value then the value
  satisfies `post`, and if it fails then the error satisfies `err`. The rules
  below follow the shape of a `do` block. -/
namespace ChromeEc.Lib

variable {ε α β : Type}

/-- A value returned satisfies `post`, an error raised satisfies `err`. -/
def Outcome (err : ε → Prop) (post : α → Prop) : Except ε α → Prop
  | .ok a => post a
  | .error e => err e

namespace Outcome

variable {err : ε → Prop} {post post' : α → Prop}

theorem ok {a : α} (h : post a) : Outcome err post (.ok a) := h

theorem mono {m : Except ε α} (h : Outcome err post m) (hp : ∀ a, post a → post' a) :
    Outcome err post' m := by
  cases m with
  | ok a => exact hp a h
  | error e => exact h

theorem bind {m : Except ε α} {k : α → Except ε β} {post : α → Prop} {goal : β → Prop}
    (h : Outcome err post m) (hk : ∀ a, post a → Outcome err goal (k a)) :
    Outcome err goal (m >>= k) := by
  cases m with
  | ok a => exact hk a h
  | error e => exact h

end Outcome

end ChromeEc.Lib
