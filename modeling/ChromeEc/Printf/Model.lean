import ChromeEc.Util.Divmod

/- Formatted output, `common/printf.c`.

  A string is the list of its bytes with the terminator; what is read off its end would be read
  behind the terminator (`Fault.readPastTerminator`). `intbuf` is written from its end, so what has
  been written is the offset of `str` and the text from there on. The output function is a parameter
  that may stop the output, and the arguments are what `va_arg` gives as the k-th one if it is
  fetched with a type. An `int` that overflows wraps (the compiler is run with
  `-fno-strict-overflow`).

  Correspondence (C ↔ Lean):
    `uint64_to_str` ↔ `uint64ToStr` (in it `decimals`; the loops are `fraction` and
      `integer`)
    the loops over flags, zeros and digits ↔ `scanWhile`
    padding width, precision, length ↔ `padWidth`, `precisionField`, `lengthModifier`
    the value and the `switch` ↔ `fetchValue`, `interpret`
    the output of a conversion ↔ `conversionOutput`
    one turn of the loop of `vfnprintf` ↔ `conversion`, `formatChar`
    `vfnprintf` ↔ `vfnprintf`, with as many turns as it is given
  The functions for timestamps and for bytes in hex are left out. -/
namespace ChromeEc.Printf
open Util

abbrev CInt := BitVec 32

/-- How the code is built: whether `char` is signed, whether `long` and `size_t` have 64 bits, and
`CONFIG_PRINTF_LONG_IS_32BITS`. -/
structure Config where
  charSigned : Bool
  longIs64 : Bool
  sizeIs64 : Bool
  printfLongIs32Bits : Bool

inductive Fault where
  | readPastTerminator
  | writeOutside
  | assertFailed
  | endless
  deriving DecidableEq

def errorStr : List UInt8 := [69, 82, 82, 79, 82, 0]

def MAX_FORMAT : Int := 1024

def char (x : Char) : Int := x.toNat

def Config.int (c : Config) (b : UInt8) : Int := if c.charSigned then b.toInt8.toInt else b.toNat

/-! ## Numbers -/

/-- The end of a buffer: the offset of `str`, and what has been written from there on, without the
terminator. -/
structure Tail where
  str : Nat
  text : List UInt8

/-- `*(--str) = b`. -/
def put (b : UInt8) (s : Tail) : Except Fault Tail :=
  if s.str = 0 then .error .writeOutside else .ok ⟨s.str - 1, b :: s.text⟩

def putIf (p : Prop) [Decidable p] (b : UInt8) (s : Tail) : Except Fault Tail := if p then put b s else .ok s

/-- A digit to be written; the sum is cut to a `char`. -/
def digitChar (uppercase : Bool) (digit : CInt) : UInt8 :=
  .ofBitVec ((if digit.toInt < 10 then 48 + digit else if uppercase then 65 + digit - 10 else 97 + digit - 10).setWidth 8)

def fraction : Nat → BitVec 64 → Tail → Except Fault (BitVec 64 × Tail)
  | 0, val, s => .ok (val, s)
  | i + 1, val, s => do
    let s ← put (.ofBitVec ((48 + (uint64divmod val 10).2).setWidth 8)) s
    fraction i (uint64divmod val 10).1 s

/-- The digits to the right of the decimal point, the point, and the digit 0 if nothing is left. -/
def decimals (precision : Int) (val : BitVec 64) (s : Tail) : Except Fault (BitVec 64 × Tail) := do
  let (val, s) ← fraction precision.toNat val s
  let s ← putIf (precision ≥ 0) 46 s
  let s ← putIf (val = 0) 48 s
  .ok (val, s)

/-- `while (val)`, with at most as many turns as given. -/
def integer (base : CInt) (uppercase : Bool) : Nat → BitVec 64 → Tail → Except Fault (Option Tail)
  | 0, val, s => if val = 0 then .ok (some s) else .error .endless
  | turns + 1, val, s =>
    if val = 0 then .ok (some s)
    else if s.str = 0 then .ok none
    else do
      let s ← put (digitChar uppercase (uint64divmod val base).2) s
      integer base uppercase turns (uint64divmod val base).1 s

def fitPrecision (bufLen precision : Int) : Option Int :=
  if precision > bufLen - 3 then if bufLen - 3 < 0 then none else some (bufLen - 3) else some precision

def uint64ToStr (bufLen : Int) (val : BitVec 64) (precision : Int) (base : CInt) (uppercase : Bool) :
    Except Fault (Option (List UInt8)) :=
  if bufLen ≤ 1 then .ok none
  else if base.toInt ≤ 1 then .ok none
  else
    match fitPrecision bufLen precision with
    | none => .ok none
    | some precision => do
      let (val, s) ← decimals precision val ⟨(bufLen - 1).toNat, []⟩
      let str ← integer base uppercase bufLen.toNat val s
      .ok (str.map Tail.text)

/-! ## Formats -/

structure Flags where
  left : Bool
  padZero : Bool
  sign : Bool
  is64 : Bool

/-- The k-th argument, by the type it is fetched with. A string is given without its terminator. -/
structure Args where
  int : Nat → CInt
  wide : Nat → BitVec 64
  pointer : Nat → BitVec 64
  string : Nat → Option (List UInt8)

section
variable (c : Config)

/-- `c = *format++`. -/
def next : List UInt8 → Except Fault (Int × List UInt8)
  | [] => .error .readPastTerminator
  | b :: format => .ok (c.int b, format)

/-- `while (p(c)) { ...; c = *format++; }`, where `f` is what is done with each character. -/
def scanWhile {α : Type} (p : Int → Bool) (f : α → Int → α) : Int → α → List UInt8 → Except Fault (Int × α × List UInt8)
  | ch, a, [] => if p ch then .error .readPastTerminator else .ok (ch, a, [])
  | ch, a, b :: format => if p ch then scanWhile p f (c.int b) (f a ch) format else .ok (ch, a, b :: format)

def isDigit (ch : Int) : Bool := decide (char '0' ≤ ch ∧ ch ≤ char '9')

/-- `10 * w + c - '0'`, which may wrap. -/
def addDigit (w : CInt) (ch : Int) : CInt := 10 * w + BitVec.ofInt 32 ch - 48

variable (args : Args)

/-- A number, or the next argument. -/
def numberOrStar (ch : Int) (k : Nat) (format : List UInt8) : Except Fault (CInt × Int × Nat × List UInt8) :=
  if ch = char '*' then do
    let (ch, format) ← next c format
    .ok (args.int k, ch, k + 1, format)
  else do
    let (ch, w, format) ← scanWhile c isDigit addDigit ch 0 format
    .ok (w, ch, k, format)

def inRange (w : CInt) : Bool := decide (0 ≤ w.toInt ∧ w.toInt ≤ MAX_FORMAT)

/-- Count precision: -1 without one, and nothing if it is out of range. -/
def precisionField (ch : Int) (k : Nat) (format : List UInt8) :
    Except Fault (Option Int × Int × Nat × List UInt8) :=
  if ch = char '.' then do
    let (ch, format) ← next c format
    let (w, ch, k, format) ← numberOrStar c args ch k format
    .ok (if inRange w then some w.toInt else none, ch, k, format)
  else .ok (some (-1), ch, k, format)

def longLong (ch : Int) (flags : Flags) (format : List UInt8) : Except Fault (Flags × Int × List UInt8) :=
  if ch = char 'l' then do
    let (ch, format) ← next c format
    .ok ({ flags with is64 := true }, ch, format)
  else .ok (flags, ch, format)

/-- Handle length; nothing if it is not supported. -/
def lengthModifier (ch : Int) (flags : Flags) (format : List UInt8) : Except Fault (Option Flags × Int × List UInt8) :=
  if ch = char 'l' then do
    let (ch, format) ← next c format
    let (flags, ch, format) ← longLong c ch (if c.longIs64 then { flags with is64 := true } else flags) format
    .ok (if !c.printfLongIs32Bits && !flags.is64 then none else some flags, ch, format)
  else if ch = char 'z' then do
    let (ch, format) ← next c format
    .ok (some (if c.sizeIs64 then { flags with is64 := true } else flags), ch, format)
  else .ok (some flags, ch, format)

/-- The value with the character that says how it is printed, and the base and the flags as a pointer
changes them. -/
def fetchValue (ch : Int) (flags : Flags) (k : Nat) : Int × BitVec 64 × CInt × Flags :=
  if ch = char 'p' then
    (-1, if c.longIs64 then args.pointer k else ((args.pointer k).setWidth 32).setWidth 64, 16,
      if c.longIs64 then { flags with is64 := true } else flags)
  else if flags.is64 then (ch, args.wide k, 10, flags)
  else (ch, (args.int k).setWidth 64, 10, flags)

def signed (flags : Flags) (v : BitVec 64) : Option Int × BitVec 64 :=
  if flags.is64 then
    if v.msb then (some (char '-'), if v ≠ 1#64 <<< 63 then -v else v)
    else (if flags.sign then some (char '+') else none, v)
  else
    if (v.setWidth 32).msb then (some (char '-'), if v ≠ 1#64 <<< 31 then (-(v.setWidth 32)).signExtend 64 else v)
    else (if flags.sign then some (char '+') else none, v)

/-- The `switch`: the sign, the value and the base, or nothing for a bad format specifier. -/
def interpret (ch : Int) (flags : Flags) (v : BitVec 64) (base : CInt) : Option (Option Int × BitVec 64 × CInt) :=
  if ch = char 'd' ∨ ch = char 'i' ∧ c.printfLongIs32Bits then
    let (sign, v) := signed flags v
    some (sign, v, base)
  else if ch = char 'u' ∨ ch = char 'T' then some (none, v, base)
  else if ch = char 'X' ∨ ch = char 'x' then some (none, v, 16)
  -- Int passthrough for pointers.
  else if ch = -1 then some (none, v, base)
  else none

def conversionOutput (flags : Flags) (padWidth precision : Int) (sign : Option Int) (vstr : List UInt8) : List Int :=
  let vlen : Int := if precision < 0 then vstr.length else min vstr.length precision
  let precision := if precision < 0 then max vlen padWidth else precision
  let vlen := if sign.isSome then vlen + 1 else vlen
  let padding (ch : Int) := List.replicate (padWidth - vlen).toNat ch
  let text := (vstr.take precision.toNat).map c.int
  if flags.left then sign.toList ++ text ++ padding (char ' ')
  else if flags.padZero then sign.toList ++ padding (char '0') ++ text
  else padding (char ' ') ++ sign.toList ++ text

variable {σ : Type} (addchar : σ → Int → σ × Bool)

def emit : List Int → σ → σ × Bool
  | [], ctx => (ctx, false)
  | ch :: rest, ctx => if (addchar ctx ch).2 then addchar ctx ch else emit rest (addchar ctx ch).1

/-- How a turn ends: the function returns (whether the output overflowed), or goes on with the format. -/
inductive Turn (σ : Type) where
  | done (overflow : Bool) (ctx : σ)
  | goOn (format : List UInt8) (k : Nat) (ctx : σ)

def output (text : List Int) (format : List UInt8) (k : Nat) (ctx : σ) : Turn σ :=
  if (emit addchar text ctx).2 then .done true (emit addchar text ctx).1 else .goOn format k (emit addchar text ctx).1

def printNumber (ch : Int) (flags : Flags) (padWidth precision : Int) (k : Nat) (format : List UInt8) (ctx : σ) :
    Except Fault (Turn σ) := do
  let (modified, ch, format) ← lengthModifier c ch flags format
  match modified with
  | none => .ok (.goOn errorStr k ctx)
  | some flags =>
    let (ch, v, base, flags) := fetchValue c args ch flags k
    match interpret c ch flags v base with
    | none => .ok (.goOn errorStr (k + 1) ctx)
    | some (sign, v, base) =>
      match ← uint64ToStr 34 v precision base (ch = char 'X') with
      | none => .error .assertFailed
      | some vstr => .ok (output addchar (conversionOutput c flags padWidth (-1) sign vstr) format (k + 1) ctx)

def printString (flags : Flags) (padWidth precision : Int) (k : Nat) (format : List UInt8) (ctx : σ) : Turn σ :=
  let vstr := (args.string k).getD [40, 78, 85, 76, 76, 41]
  output addchar (conversionOutput c flags padWidth precision none vstr) format (k + 1) ctx

def conversion (ch : Int) (k : Nat) (format : List UInt8) (ctx : σ) : Except Fault (Turn σ) := do
  let (ch, flags, format) ← scanWhile c (fun ch => decide (ch = char '-' ∨ ch = char '+'))
    (fun flags ch => if ch = char '-' then { flags with left := true } else { flags with sign := true })
    ch (⟨false, false, false, false⟩ : Flags) format
  let (ch, flags, format) ← scanWhile c (fun ch => decide (ch = char '0')) (fun flags _ => { flags with padZero := true })
    ch flags format
  let (padWidth, ch, k, format) ← numberOrStar c args ch k format
  if !inRange padWidth then .ok (.goOn errorStr k ctx)
  else
    let (precision, ch, k, format) ← precisionField c args ch k format
    match precision with
    | none => .ok (.goOn errorStr k ctx)
    | some precision =>
      if ch = char 's' then .ok (printString c args addchar flags padWidth.toInt precision k format ctx)
      else printNumber c args addchar ch flags padWidth.toInt precision k format ctx

/-- One turn of the loop, with the character that `while (*format)` has looked at. -/
def formatChar (ch : Int) (k : Nat) (format : List UInt8) (ctx : σ) : Except Fault (Turn σ) :=
  -- Copy normal characters
  if ch ≠ char '%' then .ok (output addchar [ch] format k ctx)
  else do
    let (ch, format) ← next c format
    -- Send "%" for "%%" input
    if ch = char '%' then .ok (output addchar [char '%'] format k ctx)
    else if ch = 0 then
      .ok (.done (addchar ctx (char '%')).2 (addchar ctx (char '%')).1)
    else if ch = char 'c' then .ok (output addchar [(args.int k).toInt] format (k + 1) ctx)
    else conversion c args addchar ch k format ctx

/-- `vfnprintf`: whether the output overflowed, and the context. -/
def vfnprintf : Nat → List UInt8 → Nat → σ → Except Fault (Bool × σ)
  | 0, _, _, _ => .error .endless
  | turns + 1, format, k, ctx => do
    let (ch, format) ← next c format
    if ch = 0 then .ok (false, ctx)
    else
      match ← formatChar c args addchar ch k format ctx with
      | .done overflow ctx => .ok (overflow, ctx)
      | .goOn format k ctx => vfnprintf turns format k ctx

end

end ChromeEc.Printf
