import Mathlib.Data.BitVec

/- Scanning and debouncing of the keyboard: `check_keys_changed` of `common/keyboard_scan.c`.

  A scan comes with its time and with what the hardware shows. The columns do not depend on
  each other once the matrix is read, and neither do the rows of a column when changes are
  recognized; the rows are gone through one after the other where debouncing is to end.
  The actions of a scan come back as events.

  Correspondence (C ↔ Lean):
    `keyscan_config`, `keyboard_cols`, build options ↔ `Config`
    `debounced_state`, `debouncing`, `scan_time`, ... ↔ the fields of `Kb`
    `keyboard_raw_read_rows`, `keyboard_scan_is_enabled`,
      `GPIO_RFR_KEY_L`, `simulated_key` ↔ the fields of `Raw`
    `read_matrix(.., false)`, `has_ghosting` ↔ `readMatrix`, `hasGhosting`
    `key_state_changed` ↔ `Event.changed` -/
namespace ChromeEc.KeyboardScan

abbrev Cols := Nat → BitVec 8

abbrev keyboardRows : Nat := 8

abbrev scanTimeCount : Nat := 32

/-- `CONFIG_KEYBOARD_STRICT_DEBOUNCE`, `CONFIG_KEYBOARD_SCAN_ADC`, and what `check_runtime_keys` swallows. -/
structure Config where
  strict : Bool
  adc : Bool
  cols : Nat
  debounceDownUs : BitVec 16
  debounceUpUs : BitVec 16
  actualKeyMask : Cols
  refreshCol : Nat
  refreshRow : Nat
  checkRuntimeKeys : Cols → Bool

structure Kb where
  debouncedState : Cols
  debouncing : Cols
  scanTime : Nat → BitVec 32
  scanTimeIndex : Nat
  scanEdgeIndex : Nat → Nat → Nat
  kbdPolls : BitVec 32

/-- The keyboard as `keyboard_scan_init` leaves it, with the keys that are down then. -/
def Kb.initial (state : Cols) : Kb := ⟨state, fun _ => 0, fun _ => 0, 0, fun _ _ => 0, 0⟩

/-- What a scan finds. The scanning may become disabled in the middle of it. -/
structure Raw where
  rows : Cols
  enabled : Nat → Bool
  refreshPressed : Bool
  simulated : Cols

abbrev Key := Nat × Nat

inductive Event where
  /-- The debouncing of the key has ended. -/
  | cleared (key : Key)
  | edge (key : Key) (pressed : Bool)
  | changed (key : Key) (pressed : Bool)
  deriving DecidableEq

variable (c : Config)

/-! ## Reading the matrix -/

/-- Two columns that share a key are the same. -/
def mergePair (state : Cols) (i j : Nat) : Cols :=
  if state i &&& state j ≠ 0 ∧ state i ≠ state j then
    fun k => if k = i ∨ k = j then state i ||| state j else state k
  else
    state

def mergeGhosts (state : Cols) : Cols :=
  (List.range c.cols).foldl (fun state i => (List.range i).foldl (fun state j => mergePair state i j) state) state

def keyboardReadRefreshKey (pressed : Bool) (state : Cols) : Cols := fun k =>
  if k ≠ c.refreshCol then state k
  else if pressed then state k ||| BitVec.twoPow 8 c.refreshRow
  else state k &&& ~~~BitVec.twoPow 8 c.refreshRow

/-- The keys that are on the keyboard, and whether anything is pressed. -/
def readMatrix (raw : Raw) : Cols × Bool :=
  let state : Cols := fun k => if k < c.cols ∧ raw.enabled k then raw.rows k else 0
  let state := if c.adc then keyboardReadRefreshKey c raw.refreshPressed state else mergeGhosts c state
  let state : Cols := fun k => state k ||| raw.simulated k
  (fun k => state k &&& c.actualKeyMask k, (List.range c.cols).any fun k => state k != 0)

def hasGhosting (state : Cols) : Bool :=
  (List.range c.cols).any fun i => (List.range c.cols).any fun j =>
    i < j && (state i &&& state j) &&& ((state i &&& state j) - 1) != 0

/-! ## One column -/

/-- What stays the same while the column is looked at. -/
structure Look where
  tnow : BitVec 32
  scanTime : Nat → BitVec 32
  scanTimeIndex : Nat
  col : Nat
  newState : BitVec 8

structure Column where
  state : BitVec 8
  debouncing : BitVec 8
  edge : Nat → Nat
  events : List Event

/-- How long a key is debounced, by the state of its column. -/
def window (state : BitVec 8) : BitVec 32 :=
  if state ≠ 0 then c.debounceDownUs.setWidth 32 else c.debounceUpUs.setWidth 32

/-- Clear the debouncing flag of a row, if sufficient time has elapsed. -/
def clearRow (look : Look) (diff : BitVec 8) (x : Column) (i : Nat) : Column :=
  if x.debouncing.getLsbD i = false then
    x
  else if look.tnow - look.scanTime (x.edge i) < window c x.state then
    x
  else
    let x := { x with debouncing := x.debouncing &&& ~~~BitVec.twoPow 8 i, events := x.events ++ [.cleared (look.col, i)] }
    if c.strict = false then
      x
    else if diff.getLsbD i = false then
      x
    else
      { x with
        state := x.state ^^^ (diff &&& BitVec.twoPow 8 i)
        events := x.events ++ [.changed (look.col, i) (look.newState.getLsbD i)] }

def clearRows (look : Look) (x : Column) (n : Nat) : Column :=
  (List.range n).foldl (clearRow c look (look.newState ^^^ x.state)) x

/-- What comes of a row with a change. -/
def edgeEvents (look : Look) (diff : BitVec 8) (i : Nat) : List Event :=
  if diff.getLsbD i = false then []
  else if c.strict = false then
    [.edge (look.col, i) (look.newState.getLsbD i), .changed (look.col, i) (look.newState.getLsbD i)]
  else
    [.edge (look.col, i) (look.newState.getLsbD i)]

/-- Recognize changes in state, unless debounce is in effect. -/
def recognize (look : Look) (x : Column) : Column :=
  let diff := (look.newState ^^^ x.state) &&& ~~~x.debouncing
  if diff = 0#8 then
    x
  else
    { state := if c.strict = false then x.state ^^^ diff else x.state
      debouncing := x.debouncing ||| diff
      edge := fun i => if diff.getLsbD i then look.scanTimeIndex else x.edge i
      events := x.events ++ (List.range keyboardRows).flatMap (edgeEvents c look diff) }

def scanColumn (look : Look) (x : Column) : Column := recognize c look (clearRows c look x keyboardRows)

/-! ## The scan -/

/-- What a scan returns, what it did, and the state that is sent to the host. -/
structure Scanned where
  anyPressed : Bool
  events : List Event
  sent : Option Cols
  kb : Kb

/-- The time of a scan goes where the index is then. -/
def saveTime (tnow : BitVec 32) (kb : Kb) : Kb :=
  let index := if scanTimeCount ≤ kb.scanTimeIndex + 1 then 0 else kb.scanTimeIndex + 1
  { kb with scanTimeIndex := index, scanTime := fun i => if i = index then tnow else kb.scanTime i }

def columnOf (kb : Kb) (k : Nat) : Column := ⟨kb.debouncedState k, kb.debouncing k, kb.scanEdgeIndex k, []⟩

def lookAt (tnow : BitVec 32) (newState : Cols) (kb : Kb) (k : Nat) : Look :=
  ⟨tnow, kb.scanTime, kb.scanTimeIndex, k, newState k⟩

def scannedColumn (tnow : BitVec 32) (newState : Cols) (kb : Kb) (k : Nat) : Column :=
  if k < c.cols then scanColumn c (lookAt tnow newState kb k) (columnOf kb k) else columnOf kb k

def Event.isChange : Event → Bool
  | .changed _ _ => true
  | _ => false

def checkKeysChanged (t : Nat) (raw : Raw) (kb : Kb) : Scanned :=
  let tnow := BitVec.ofNat 32 t
  let kb := saveTime tnow kb
  let (newState, anyPressed) := readMatrix c raw
  if c.adc = false ∧ hasGhosting c newState then
    ⟨anyPressed, [], none, kb⟩
  else
    let events := (List.range c.cols).flatMap fun k => (scannedColumn c tnow newState kb k).events
    let kb := { kb with
      debouncedState := fun k => (scannedColumn c tnow newState kb k).state
      debouncing := fun k => (scannedColumn c tnow newState kb k).debouncing
      scanEdgeIndex := fun k => (scannedColumn c tnow newState kb k).edge }
    let anyChange := events.any Event.isChange
    if anyChange && c.checkRuntimeKeys kb.debouncedState then
      -- the special keys are swallowed
      ⟨false, events, none, kb⟩
    else
      ⟨anyPressed, events, if anyChange then some kb.debouncedState else none, { kb with kbdPolls := kb.kbdPolls + 1 }⟩

/-! ## Scans one after the other -/

/-- The keyboard and the clock. -/
structure St where
  kb : Kb
  now : Nat

structure Scan where
  time : Nat
  raw : Raw

def step (scan : Scan) (s : St) : Option St :=
  if s.now ≤ scan.time then some ⟨(checkKeysChanged c scan.time scan.raw s.kb).kb, scan.time⟩ else none

end ChromeEc.KeyboardScan
