import ChromeEc.Printf.Model

/- `strtoi` of `common/util.c`.

  The string is the list of its bytes with the terminator, as a format is. The end is given as the
  offset of `*endptr`. The result is an `int` that wraps.

  Correspondence (C ↔ Lean):
    `isspace` ↔ `isspace`
    `find_base` ↔ `findBase`
    `strtoi` ↔ `strtoi` (`skipSpaces`: its first loop; `digitOf`, `addDigitOf`: its last one) -/
namespace ChromeEc.Printf

def isspace (ch : Int) : Bool := ch = char ' ' || ch = 9 || ch = 13 || ch = 10

def digitOf (base ch : Int) : Option Int :=
  if char '0' ≤ ch ∧ ch < char '0' + min base 10 then some (ch - char '0')
  else if char 'A' ≤ ch ∧ ch < char 'A' + base - 10 then some (ch - char 'A' + 10)
  else if char 'a' ≤ ch ∧ ch < char 'a' + base - 10 then some (ch - char 'a' + 10)
  else none

/-- `result = result * base + digit`. -/
def addDigitOf (base : Int) (result : CInt) (ch : Int) : CInt :=
  result * BitVec.ofInt 32 base + BitVec.ofInt 32 ((digitOf base ch).getD 0)

section
variable (c : Config)

/-- `while ((c = *nptr++) && isspace(c))`. -/
def skipSpaces (nptr : List UInt8) : Except Fault (Int × List UInt8) := do
  let (ch, nptr) ← next c nptr
  let (ch, _, nptr) ← scanWhile c isspace (fun _ _ => ()) ch () nptr
  .ok (ch, nptr)

def readSign (ch : Int) (nptr : List UInt8) : Except Fault (Bool × Int × List UInt8) :=
  if ch = char '+' then do
    let (ch, nptr) ← next c nptr
    .ok (false, ch, nptr)
  else if ch = char '-' then do
    let (ch, nptr) ← next c nptr
    .ok (true, ch, nptr)
  else .ok (false, ch, nptr)

def findBase (base ch : Int) (nptr : List UInt8) : Except Fault (Int × Int × List UInt8) :=
  let detected := if base = 0 then (if ch = char '0' then 8 else 10) else base
  if (base = 0 ∨ base = 16) ∧ ch = char '0' then do
    let (x, rest) ← next c nptr
    if x = char 'x' ∨ x = char 'X' then do
      let (ch, rest) ← next c rest
      .ok (16, ch, rest)
    else .ok (detected, ch, nptr)
  else .ok (detected, ch, nptr)

def strtoi (nptr : List UInt8) (base : Int) : Except Fault (CInt × Nat) := do
  let (ch, rest) ← skipSpaces c nptr
  let (neg, ch, rest) ← readSign c ch rest
  let (base, ch, rest) ← findBase c base ch rest
  let (_, result, rest) ← scanWhile c (fun ch => ch ≠ 0 && (digitOf base ch).isSome) (addDigitOf base) ch 0 rest
  .ok (if neg then -result else result, nptr.length - rest.length - 1)

end

end ChromeEc.Printf
