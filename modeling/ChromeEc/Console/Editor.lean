import ChromeEc.Console.Words
import ChromeEc.Lib.Terminal

/- The line editor of the console: `console_handle_char` in `common/console.c` and what it calls,
  with `strzcpy` of `common/util.c`.

  The buffers are lists of the size of the arrays, and lengths and positions are integers. An
  access outside of an array, a string without a NUL before the end of its array and a repetition
  with a negative count have no result: `none`. What is written to the console is kept in `out`,
  and the lines given to `handle_command` in `executed`. A size of zero for the history stands for
  CONFIG_CONSOLE_HISTORY not being defined.

  Correspondence (C ↔ Lean):
    `console_putc`, `ccputs`, `ccprintf` ↔ `Editor.puts`
    `ccputs(input_buf + i)` ↔ `Editor.putsBuf`
    `input_buf[i] = c` ↔ `Editor.setBuf`
    `memmove(input_buf + d, input_buf + s, n)` ↔ `memmove`
    `move_cursor_right`, `_end`, `_left`, `_begin` ↔ `moveCursorRight`, `moveCursorEnd`,
      `moveCursorLeft`, `moveCursorBegin`
    `handle_backspace` ↔ `handleBackspace`, with `pullRest` for what follows the cursor
    `console_handle_char` ↔ `consoleHandleChar`, with `handleKey` the switch over the key
      and its longer cases apart (`startLine` to `insertChar`)
    `strzcpy`, `repeat_char`, `load_history`, `save_history`, `handle_esc`, `handle_command`,
      `console_init`, `console_task` ↔ the same in camelCase -/
namespace ChromeEc.Console
open Lib.Terminal

structure Config where
  inputLineSize : Nat
  history : Nat
  inputLineSize_pos : 0 < inputLineSize

/-- What the commands print, given the lines that were executed before. They leave the cursor at the end of the row. -/
structure Commands where
  prints : List (List UInt8) → List UInt8 → List UInt8
  clear : ∀ done line t, Clear t → Clear (feeds t (prints done line))

inductive EscState where
  | outside
  | start
  | bad
  | bracket
  | bracket1
  | bracket3
  | bracket4
  | o
deriving DecidableEq

structure Editor where
  inputBuf : List UInt8
  inputLen : Int
  inputPos : Int
  history : List (List UInt8)
  historyNext : Int
  historyPos : Int
  lastRxWasCr : Bool
  escState : EscState
  out : List UInt8
  executed : List (List UInt8)

def ascii (s : String) : List UInt8 := s.toList.map fun ch => UInt8.ofNat ch.toNat

def prompt : List UInt8 := ascii "> "

def isprint (c : UInt8) : Bool := decide (32 ≤ c.toNat ∧ c.toNat ≤ 126)

def isalpha (c : UInt8) : Bool := decide (65 ≤ c.toNat ∧ c.toNat ≤ 90 ∨ 97 ≤ c.toNat ∧ c.toNat ≤ 122)

def keyUpArrow : Int := 0x100
def keyDownArrow : Int := 0x101
def keyRightArrow : Int := 0x102
def keyLeftArrow : Int := 0x103
def keyEnd : Int := 0x104
def keyHome : Int := 0x105
def keyDel : Int := 0x106

def ctrl (c : Char) : Int := c.toNat - 64

def printInt (i : Int) : List UInt8 := if i < 0 then 45 :: decimal i.natAbs else decimal i.natAbs

/-- The string at the beginning of a buffer. -/
def cstr (buf : List UInt8) : Option (List UInt8) :=
  if 0 ∈ buf then some (buf.takeWhile fun x => x != 0) else none

/-- The destination, the source and the size left. -/
def strzcpy : List UInt8 → List UInt8 → Nat → Option (List UInt8)
  | dest, _, 0 => some dest
  | _ :: dest, _, 1 => some (0 :: dest)
  | _ :: dest, x :: src, n + 2 => if x = 0 then some (0 :: dest) else (strzcpy dest src (n + 1)).map (x :: ·)
  | _, _, _ => none

def memmove (buf : List UInt8) (dest src n : Int) : Option (List UInt8) := do
  let d ← dest.toNat?
  let k ← src.toNat?
  let n ← n.toNat?
  if d + n ≤ buf.length ∧ k + n ≤ buf.length then some (buf.take d ++ ((buf.drop k).take n ++ buf.drop (d + n))) else none

def Editor.puts (s : Editor) (w : List UInt8) : Editor := { s with out := s.out ++ w }

def Editor.putsBuf (s : Editor) (i : Int) : Option Editor := do
  let k ← i.toNat?
  let w ← cstr (s.inputBuf.drop k)
  some (s.puts w)

def Editor.setBuf (s : Editor) (i : Int) (x : UInt8) : Option Editor := do
  let k ← i.toNat?
  if k < s.inputBuf.length then some { s with inputBuf := s.inputBuf.set k x } else none

def repeatChar (x : UInt8) (cnt : Int) (s : Editor) : Option Editor := do
  let n ← cnt.toNat?
  some (s.puts (List.replicate n x))

def moveCursorRight (s : Editor) : Editor :=
  if s.inputPos = s.inputLen then s else { s.puts (ascii "\x1b[1C") with inputPos := s.inputPos + 1 }

def moveCursorEnd (s : Editor) : Editor :=
  if s.inputPos = s.inputLen then s
  else { s.puts (ascii "\x1b[" ++ printInt (s.inputLen - s.inputPos) ++ ascii "C") with inputPos := s.inputLen }

def moveCursorLeft (s : Editor) : Editor :=
  if s.inputPos = 0 then s else { s.puts (ascii "\x1b[1D") with inputPos := s.inputPos - 1 }

def moveCursorBegin (s : Editor) : Editor :=
  if s.inputPos = 0 then s else { s.puts (ascii "\x1b[" ++ printInt s.inputPos ++ ascii "D") with inputPos := 0 }

/-- What is shown behind the cursor is cleared. -/
def clearRest (s : Editor) : Option Editor := do
  let s ← repeatChar blank (s.inputLen - s.inputPos) s
  repeatChar backspace (s.inputLen - s.inputPos) s

def loadHistory (cfg : Config) (idx : Int) (s : Editor) : Option Editor := do
  let k ← idx.toNat?
  let slot ← s.history[k]?
  let buf ← strzcpy s.inputBuf slot cfg.inputLineSize
  let s ← (moveCursorBegin { s with inputBuf := buf }).putsBuf 0
  let w ← cstr s.inputBuf
  let s := { s with inputPos := w.length }
  let s ← if s.inputLen > s.inputPos then clearRest s else some s
  some { s with inputLen := s.inputPos }

def saveHistory (cfg : Config) (s : Editor) : Option Editor := do
  let k ← s.historyNext.toNat?
  let slot ← s.history[k]?
  let slot ← strzcpy slot s.inputBuf cfg.inputLineSize
  some { s with history := s.history.set k slot }

/-- What follows the cursor is printed and moved over the character before it. -/
def pullRest (s : Editor) : Option Editor :=
  if s.inputPos ≠ s.inputLen then do
    let s ← s.putsBuf s.inputPos
    let buf ← memmove s.inputBuf (s.inputPos - 1) s.inputPos (s.inputLen - s.inputPos + 1)
    some { s with inputBuf := buf }
  else s.setBuf (s.inputLen - 1) 0

def handleBackspace (s : Editor) : Option Editor :=
  if s.inputPos = 0 then some s
  else do
    let s ← pullRest (s.puts [backspace])
    let s ← repeatChar backspace (s.inputLen - s.inputPos + 1) (s.puts [blank])
    some { s with inputLen := s.inputLen - 1, inputPos := s.inputPos - 1 }

/-- The character was eaten, and the escape sequence ends with a letter or a `~`. -/
def escDone (c : Int) : EscState × Int :=
  (if isalpha (UInt8.ofInt c) = true ∨ c = 126 then .outside else .bad, -1)

/-- The next state, and the key or -1. -/
def handleEsc (st : EscState) (c : Int) : EscState × Int :=
  match st with
  | .start => if c = 91 then (.bracket, -1) else if c = 79 then (.o, -1) else escDone c
  | .bracket =>
    if c = 49 then (.bracket1, -1)
    else if c = 51 then (.bracket3, -1)
    else if c = 52 then (.bracket4, -1)
    else if c = 65 then (st, keyUpArrow)
    else if c = 66 then (st, keyDownArrow)
    else if c = 67 then (st, keyRightArrow)
    else if c = 68 then (st, keyLeftArrow)
    else escDone c
  | .o => if c = 70 then (st, keyEnd) else escDone c
  | .bracket1 => if c = 126 then (st, keyHome) else escDone c
  | .bracket3 => if c = 126 then (st, keyDel) else escDone c
  | .bracket4 => if c = 126 then (st, keyEnd) else escDone c
  | .outside | .bad => escDone c

/-- The words of the line are split in the buffer. -/
def handleCommand (cmds : Commands) (s : Editor) : Option Editor := do
  let line ← cstr s.inputBuf
  some { s with
    inputBuf := (splitWords line).2.buf ++ s.inputBuf.drop (line.length + 1)
    out := s.out ++ cmds.prints s.executed line
    executed := s.executed ++ [line] }

def startLine (s : Editor) : Option Editor := do
  let s ← { s with inputPos := 0, inputLen := 0 }.setBuf 0 0
  some (s.puts prompt)

def keepLine (cfg : Config) (s : Editor) : Option Editor :=
  if 0 < cfg.history ∧ s.inputLen ≠ 0 then do
    let s ← saveHistory cfg s
    let next := (s.historyNext + 1) % cfg.history
    some { s with historyNext := next, historyPos := next }
  else some s

def enterLine (cmds : Commands) (cfg : Config) (s : Editor) : Option Editor := do
  let s ← keepLine cfg (s.puts [newline])
  let s ← handleCommand cmds s
  startLine s

def killToEnd (s : Editor) : Option Editor :=
  if s.inputPos = s.inputLen then some s
  else do
    let s ← clearRest s
    { s with inputLen := s.inputPos }.setBuf s.inputPos 0

def reprint (s : Editor) : Option Editor := do
  let s ← (s.puts (formFeed :: prompt)).putsBuf 0
  repeatChar backspace (s.inputLen - s.inputPos) s

/-- The line that is edited is kept before another one is shown. -/
def keepEdited (cfg : Config) (s : Editor) : Option Editor :=
  if s.historyPos = s.historyNext then saveHistory cfg s else some s

def historyPrevious (cfg : Config) (s : Editor) : Option Editor := do
  let s ← keepEdited cfg s
  let k := if s.historyPos - 1 < 0 then (cfg.history : Int) - 1 else s.historyPos - 1
  loadHistory cfg k { s with historyPos := k }

def historyFollowing (cfg : Config) (s : Editor) : Option Editor := do
  let s ← keepEdited cfg s
  let k := if s.historyPos + 1 ≥ cfg.history then 0 else s.historyPos + 1
  loadHistory cfg k { s with historyPos := k }

/-- What follows the cursor is printed and moved away by one. -/
def pushRest (s : Editor) : Option Editor :=
  if s.inputPos ≠ s.inputLen then do
    let s ← s.putsBuf s.inputPos
    let buf ← memmove s.inputBuf (s.inputPos + 1) s.inputPos (s.inputLen - s.inputPos + 1)
    repeatChar backspace (s.inputLen - s.inputPos) { s with inputBuf := buf }
  else some s

def insertChar (cfg : Config) (c : Int) (s : Editor) : Option Editor :=
  if isprint (UInt8.ofInt c) = false then some s
  else if s.inputLen ≥ (cfg.inputLineSize : Int) - 1 then some s
  else do
    let s ← pushRest (s.puts [UInt8.ofInt c])
    let s ← { s with inputPos := s.inputPos + 1 }.setBuf s.inputPos (UInt8.ofInt c)
    { s with inputLen := s.inputLen + 1 }.setBuf (s.inputLen + 1) 0

def handleKey (cmds : Commands) (cfg : Config) (c : Int) (s : Editor) : Option Editor :=
  if c = keyDel then if s.inputPos = s.inputLen then some s else handleBackspace (moveCursorRight s)
  else if c = 8 ∨ c = 0x7f then handleBackspace s
  else if c = ctrl 'C' then startLine (s.puts (ascii "^C\n"))
  else if c = 10 then enterLine cmds cfg s
  else if c = ctrl 'A' ∨ c = keyHome then some (moveCursorBegin s)
  else if c = ctrl 'B' ∨ c = keyLeftArrow then some (moveCursorLeft s)
  else if c = ctrl 'E' ∨ c = keyEnd then some (moveCursorEnd s)
  else if c = ctrl 'F' ∨ c = keyRightArrow then some (moveCursorRight s)
  else if c = ctrl 'K' then killToEnd s
  else if c = ctrl 'L' then reprint s
  else if 0 < cfg.history ∧ (c = ctrl 'P' ∨ c = keyUpArrow) then historyPrevious cfg s
  else if 0 < cfg.history ∧ (c = ctrl 'N' ∨ c = keyDownArrow) then historyFollowing cfg s
  else insertChar cfg c s

/-- A character that was not swallowed behind a CR. -/
def handleSequence (cmds : Commands) (cfg : Config) (c : Int) (s : Editor) : Option Editor :=
  if c = 0x1B then some { s with escState := .start }
  else if s.escState ≠ .outside then
    let (st, key) := handleEsc s.escState c
    handleKey cmds cfg key { s with escState := if key ≠ -1 then .outside else st }
  else handleKey cmds cfg c s

def consoleHandleChar (cmds : Commands) (cfg : Config) (c : Int) (s : Editor) : Option Editor :=
  if c = 13 then handleSequence cmds cfg 10 { s with lastRxWasCr := true }
  else if c = 10 ∧ s.lastRxWasCr = true then some { s with lastRxWasCr := false }
  else handleSequence cmds cfg c { s with lastRxWasCr := false }

def consoleInit (cfg : Config) : Editor where
  inputBuf := List.replicate cfg.inputLineSize 0
  inputLen := 0
  inputPos := 0
  history := List.replicate cfg.history (List.replicate cfg.inputLineSize 0)
  historyNext := 0
  historyPos := 0
  lastRxWasCr := false
  escState := .outside
  out := ascii "Console is enabled; type HELP for help.\n" ++ prompt
  executed := []

def consoleTask (cmds : Commands) (cfg : Config) (input : List Int) : Option Editor :=
  input.foldlM (fun s c => consoleHandleChar cmds cfg c s) (consoleInit cfg)

end ChromeEc.Console
