import ChromeEc.Lib.Steps

/- The light bar's byte-code: `common/lightbar.c` from decode_8 on, with its task.

  The run of a program is cut at its waits: a step is what the task does from one wait to the next, or up to
  the next fetch of an opcode. What other tasks do to the light bar, the battery and the pending message come
  with a step (`Input`). A run keeps the bytes of `cur_prog.data` it has read and the places of `led_desc` it
  has written.

  A byte behind the end of `cur_prog.data` is one of `behind`. `led_desc` is kept by bytes, and
  `led_desc[led][control][color]` is the byte `(led * 3 + control) * 3 + color`. `decode_8(&pc)` leaves in `pc`
  the byte that it reads. The console and the registers of the controllers are left out.

  Correspondence (C ↔ Lean):
    `LIGHTBAR_CMD_SET_PROGRAM` ↔ `setProgram`: size and data come as they are
    `decode_8`, `decode_32` ↔ `decode8`, `decode32`
    `if (decode_8(&x) != EC_SUCCESS) return EC_RES_INVALID_PARAM` ↔ `operand`
    `lightbyte_JUMP`, … ↔ `lightbyteJump`, …, and `lightbyte_dispatch` is `dispatch`
    `WAIT_OR_RET` ↔ `waitOrRet`; `Wait` is where in an instruction, `Control.pause` the one of the loop
    `sequence_PROGRAM` ↔ `start` and `step`; `finish` is what follows the call of an instruction
    `lightbar_sequence_f` ↔ `lightbarSequence`
    the loop of `lightbar_task` ↔ `lightbarTask`

  What is proved: what a step can do (`step_cases`), and that no step changes the program or the brightness
  that was saved (`keeps_step`). -/
namespace ChromeEc.Lightbar

def ecSuccess : Nat := 0
def ecResInvalidParam : Nat := 3

def programFinished : Nat := 2

def ecLbProgLen : Nat := 192

def numLeds : Nat := 4

/-- LB_CONT_COLOR0, LB_CONT_COLOR1, LB_CONT_PHASE and LB_CONT_MAX -/
def contColor0 : Nat := 0
def contColor1 : Nat := 1
def contPhase : Nat := 2
def contMax : Nat := 3

/-- LB_COL_RED, LB_COL_GREEN and LB_COL_BLUE -/
def colRed : Nat := 0
def colGreen : Nat := 1
def colBlue : Nat := 2

def fpScale : Int := 10000

/-! ## The sequences and the task -/

/-- enum lightbar_sequence -/
inductive Sequence where
  | error | s5 | s3 | s0 | s5s3 | s3s0 | s0s3 | s3s5 | stop | run | konami | tap | program
  deriving DecidableEq, Repr

def Sequence.num : Sequence → Nat
  | .error => 0
  | .s5 => 1
  | .s3 => 2
  | .s0 => 3
  | .s5s3 => 4
  | .s3s0 => 5
  | .s0s3 => 6
  | .s3s5 => 7
  | .stop => 8
  | .run => 9
  | .konami => 10
  | .tap => 11
  | .program => 12

/-- LIGHTBAR_MSG_LIST, in its order -/
def sequences : List Sequence :=
  [.error, .s5, .s3, .s0, .s5s3, .s3s0, .s0s3, .s3s5, .stop, .run, .konami, .tap, .program]

def isNormalSequence (seq : Sequence) : Bool := Sequence.s5.num ≤ seq.num ∧ seq.num ≤ Sequence.s3s5.num

/-- What the task uses of struct p_state. -/
structure TaskState where
  curSeq : Sequence
  prevSeq : Sequence
  deriving DecidableEq, Repr

/-- What the task makes of the value of a sequence, if it is the number of a sequence. -/
def lightbarTask (st : TaskState) (nextSeq : Nat) : Option TaskState :=
  if nextSeq ≠ 0 then
    match sequences[nextSeq]? with
    | none => none
    | some next =>
      if st.curSeq ≠ next then
        some { curSeq := next, prevSeq := if isNormalSequence st.curSeq then st.curSeq else st.prevSeq }
      else some st
  else
    match st.curSeq with
    | .s5s3 => some { st with curSeq := .s3 }
    | .s3s0 => some { st with curSeq := .s0 }
    | .s0s3 => some { st with curSeq := .s3 }
    | .s3s5 => some { st with curSeq := .s5 }
    | .stop | .run | .error | .konami | .tap | .program => some { st with curSeq := st.prevSeq }
    | .s5 | .s3 | .s0 => some st

/-- The message that asking for a number leaves pending. -/
def lightbarSequence (num : Nat) : Option Sequence := if 0 < num then sequences[num]? else none

/-! ## The light bar -/

structure Rgb where
  red : UInt8
  green : UInt8
  blue : UInt8

/-- What lb_common.c keeps, and whether the light bar is on. -/
structure Bar where
  on : Bool
  brightness : UInt8
  current : Nat → Rgb

def setrgb (led : Nat) (red green blue : Int) (bar : Bar) : Bar :=
  { bar with
    current := fun i =>
      if i = led then ⟨UInt8.ofInt red, UInt8.ofInt green, UInt8.ofInt blue⟩ else bar.current i }

def lbSetRgb (led : Nat) (red green blue : Int) (bar : Bar) : Bar :=
  if numLeds ≤ led then (List.range numLeds).foldl (fun bar i => setrgb i red green blue bar) bar
  else setrgb led red green blue bar

def rampTable : List Int :=
  [0, 24, 96, 215, 380, 590, 842, 1134, 1464, 1828, 2222, 2643, 3086, 3548, 4024, 4509, 5000, 5490, 5975, 6451,
    6913, 7356, 7777, 8171, 8535, 8865, 9157, 9409, 9619, 9784, 9903, 9975, 10000]

def cycle010 (i : UInt8) : Int :=
  if i = 128 then fpScale
  else
    let i := if 128 < i then 0 - i else i
    let bucket := (i >>> 2).toNat
    let index : Int := (i &&& 3).toNat
    rampTable.getD bucket 0 + (rampTable.getD (bucket + 1) 0 - rampTable.getD bucket 0) * index / 4

/-! ## The machine -/

/-- struct lightbar_program -/
structure Program where
  size : UInt8
  data : Fin ecLbProgLen → UInt8

/-- The parameters have the command in their first byte, then the program. -/
def setProgram (params : Nat → UInt8) : Program where
  size := params 1
  data i := params (2 + i)

/-- An access to `cur_prog.data`, or to `led_desc` for writing. -/
inductive Access where
  | fetch (i : Nat)
  | write (led control color : Nat)
  deriving DecidableEq, Repr

inductive Wait where
  | delay
  | ramp (w stopAt : Nat)
  | cycle (w : Nat)
  deriving DecidableEq, Repr

/-- Where in sequence_PROGRAM the task is. When it has returned, `requested` tells whether the value is a message
that it got. -/
inductive Control where
  | fetch
  | inside (wait : Wait)
  | pause
  | returned (rc : Nat) (requested : Bool)
  deriving DecidableEq, Repr

structure Machine where
  curProg : Program
  /-- the memory behind `cur_prog` -/
  behind : Nat → UInt8
  pc : UInt8
  ledDesc : Nat → UInt8
  waitDelay : UInt32
  rampDelay : UInt32
  bar : Bar
  savedBrightness : UInt8
  accesses : List Access
  control : Control

structure Input where
  /-- the light bar as other tasks have left it, if they did anything to it -/
  bar : Option Bar
  /-- the brightness that get_battery_level sets, if it does -/
  kblight : Option UInt8
  batteryLevel : Nat
  batteryIsCharging : Bool
  /-- the number that was asked for last, if the event of a message is set -/
  request : Option Nat

namespace Machine

/-- `cur_prog.data[i]` -/
def byte (m : Machine) (i : Nat) : UInt8 := if h : i < ecLbProgLen then m.curProg.data ⟨i, h⟩ else m.behind i

def atPc (m : Machine) : UInt8 := m.byte m.pc.toNat

/-- The machine after `cur_prog.data[pc++]`. -/
def advance (m : Machine) : Machine :=
  { m with pc := m.pc + 1, accesses := m.accesses ++ [.fetch m.pc.toNat] }

def desc (m : Machine) (led control color : Nat) : UInt8 := m.ledDesc ((led * contMax + control) * 3 + color)

/-- `led_desc[led][control][color] = value` -/
def setDesc (led control color : Nat) (value : UInt8) (m : Machine) : Machine :=
  { m with
    ledDesc := fun i => if i = (led * contMax + control) * 3 + color then value else m.ledDesc i
    accesses := m.accesses ++ [.write led control color] }

end Machine

def decode8 (m : Machine) : Option (UInt8 × Machine) :=
  if m.curProg.size ≤ m.pc then none else some (m.atPc, m.advance)

def decode32 (m : Machine) : Option (UInt32 × Machine) :=
  -- the size is promoted to int, so a program shorter than 3 bytes gives a negative bound
  if (m.curProg.size.toNat : Int) - 3 ≤ m.pc.toNat then none
  else
    let m1 := m.advance
    let m2 := m1.advance
    let m3 := m2.advance
    some (m.atPc.toUInt32 <<< 24 ||| m1.atPc.toUInt32 <<< 16 ||| m2.atPc.toUInt32 <<< 8 ||| m3.atPc.toUInt32,
      m3.advance)

/-! ## The instructions -/

/-- An instruction returns, or the task waits in it. -/
inductive Outcome where
  | returns (rc : Nat)
  | waits (wait : Wait)

/-- The rest of an instruction, if its next operand is there. -/
def operand (m : Machine) (rest : UInt8 → Machine → Machine × Outcome) : Machine × Outcome :=
  match decode8 m with
  | none => (m, .returns ecResInvalidParam)
  | some (b, m) => rest b m

def lightbyteOn (m : Machine) : Machine × Outcome := ({ m with bar := { m.bar with on := true } }, .returns ecSuccess)

def lightbyteOff (m : Machine) : Machine × Outcome := ({ m with bar := { m.bar with on := false } }, .returns ecSuccess)

def lightbyteJump (m : Machine) : Machine × Outcome :=
  operand m fun dest m => ({ m with pc := dest }, .returns ecSuccess)

/-- The keyboard backlight is all that get_battery_level changes here. -/
def getBatteryLevel (i : Input) (m : Machine) : Machine :=
  { m with bar := { m.bar with brightness := i.kblight.getD m.bar.brightness } }

def lightbyteJumpBattery (i : Input) (m : Machine) : Machine × Outcome :=
  operand m fun lowPc m =>
    operand m fun highPc m =>
      let m := getBatteryLevel i m
      if i.batteryLevel = 0 then ({ m with pc := lowPc }, .returns ecSuccess)
      else if i.batteryLevel = 3 then ({ m with pc := highPc }, .returns ecSuccess)
      else (m, .returns ecSuccess)

def lightbyteJumpIfCharging (i : Input) (m : Machine) : Machine × Outcome :=
  operand m fun chargePc m =>
    if i.batteryIsCharging then ({ m with pc := chargePc }, .returns ecSuccess) else (m, .returns ecSuccess)

/-- `return decode_32(&…)` -/
def setDelay (m : Machine) (store : UInt32 → Machine → Machine) : Machine × Outcome :=
  match decode32 m with
  | none => (m, .returns ecResInvalidParam)
  | some (delay, m) => (store delay m, .returns ecSuccess)

def lightbyteSetWaitDelay (m : Machine) : Machine × Outcome := setDelay m fun delay m => { m with waitDelay := delay }

def lightbyteSetRampDelay (m : Machine) : Machine × Outcome := setDelay m fun delay m => { m with rampDelay := delay }

def lightbyteWait (m : Machine) : Machine × Outcome :=
  if m.waitDelay ≠ 0 then (m, .waits .delay) else (m, .returns ecSuccess)

def lightbyteSetBrightness (m : Machine) : Machine × Outcome :=
  operand m fun val m => ({ m with bar := { m.bar with brightness := val } }, .returns ecSuccess)

/-- `for (i = 0; i < NUM_LEDS; i++) if (led & BIT(i)) …` -/
def forLeds (led : UInt8) (f : Nat → Machine → Machine) (m : Machine) : Machine :=
  (List.range numLeds).foldl (fun m i => if led.toNat.testBit i then f i m else m) m

def lightbyteSetColorSingle (m : Machine) : Machine × Outcome :=
  operand m fun packedLoc m =>
    operand m fun value m =>
      let led := packedLoc >>> 4
      let control := ((packedLoc >>> 2) &&& 3).toNat
      let color := (packedLoc &&& 3).toNat
      -- the colour is not checked
      if contMax ≤ control then (m, .returns ecResInvalidParam)
      else (forLeds led (fun i => .setDesc i control color value) m, .returns ecSuccess)

def setDescRgb (led control : Nat) (r g b : UInt8) (m : Machine) : Machine :=
  ((m.setDesc led control colRed r).setDesc led control colGreen g).setDesc led control colBlue b

def lightbyteSetColorRgb (m : Machine) : Machine × Outcome :=
  operand m fun packedLoc m =>
    operand m fun r m =>
      operand m fun g m =>
        operand m fun b m =>
          let led := packedLoc >>> 4
          let control := ((packedLoc >>> 2) &&& 3).toNat
          if contMax ≤ control then (m, .returns ecResInvalidParam)
          else (forLeds led (fun i => setDescRgb i control r g b) m, .returns ecSuccess)

def lightbyteGetColors (m : Machine) : Machine × Outcome :=
  ((List.range numLeds).foldl
    (fun m i =>
      setDescRgb i contColor0 (m.bar.current i).red (m.bar.current i).green (m.bar.current i).blue m) m,
    .returns ecSuccess)

/-- One turn of the two loops of lightbyte_SWAP_COLORS. -/
def swapColor (led color : Nat) (m : Machine) : Machine :=
  let tmp := m.desc led contColor0 color
  (m.setDesc led contColor0 color (m.desc led contColor1 color)).setDesc led contColor1 color tmp

def lightbyteSwapColors (m : Machine) : Machine × Outcome :=
  ((List.range numLeds).foldl (fun m i => (List.range 3).foldl (fun m j => swapColor i j m) m) m,
    .returns ecSuccess)

def getInterpValue (m : Machine) (led color : Nat) (interp : Int) : Int :=
  let base : Int := (m.desc led contColor0 color).toNat
  let delta : Int := (m.desc led contColor1 color).toNat - base
  base + (delta * interp).tdiv fpScale

def showLeds (value : Nat → Nat → Int) (m : Machine) : Machine :=
  { m with
    bar := (List.range numLeds).foldl
      (fun bar i => lbSetRgb i (value i colRed) (value i colGreen) (value i colBlue) bar) m.bar }

def setAllLeds (color : Nat) (m : Machine) : Machine := showLeds (fun i col => (m.desc i color col).toNat) m

def rampAllLeds (w stopAt : Nat) (m : Machine) : Machine × Outcome :=
  if w < stopAt then
    (showLeds (fun i col => getInterpValue m i col (cycle010 (UInt8.ofNat w))) m, .waits (.ramp w stopAt))
  else (m, .returns ecSuccess)

def lightbyteRampOnce (m : Machine) : Machine × Outcome :=
  if m.rampDelay = 0 then (setAllLeds contColor1 m, .returns ecSuccess) else rampAllLeds 0 128 m

def lightbyteCycleOnce (m : Machine) : Machine × Outcome :=
  if m.rampDelay = 0 then (setAllLeds contColor0 m, .returns ecSuccess) else rampAllLeds 0 256 m

/-- The loop of lightbyte_CYCLE from the turn `w` on. -/
def cycleAllLeds (w : Nat) (m : Machine) : Machine × Outcome :=
  (showLeds (fun i col => getInterpValue m i col (cycle010 (UInt8.ofNat (w % 256) + m.desc i contPhase col))) m,
    .waits (.cycle w))

def lightbyteCycle (m : Machine) : Machine × Outcome :=
  if m.rampDelay = 0 then (m, .returns ecResInvalidParam) else cycleAllLeds 0 m

def lightbyteHalt (m : Machine) : Machine × Outcome := (m, .returns programFinished)

/-- enum lightbyte_opcode -/
inductive Opcode where
  | on | off | jump | jumpBattery | jumpIfCharging | setWaitDelay | setRampDelay | wait | setBrightness
  | setColorSingle | setColorRgb | getColors | swapColors | rampOnce | cycleOnce | cycle | halt
  deriving DecidableEq, Repr

/-- LIGHTBAR_OPCODE_TABLE, in its order; its length is MAX_OPCODE. -/
def opcodes : List Opcode :=
  [.on, .off, .jump, .jumpBattery, .jumpIfCharging, .setWaitDelay, .setRampDelay, .wait, .setBrightness,
    .setColorSingle, .setColorRgb, .getColors, .swapColors, .rampOnce, .cycleOnce, .cycle, .halt]

/-- OPERAND BYTES of LIGHTBAR_OPCODE_TABLE -/
def Opcode.operandBytes : Opcode → Nat
  | .jump | .jumpIfCharging | .setBrightness => 1
  | .jumpBattery | .setColorSingle => 2
  | .setWaitDelay | .setRampDelay | .setColorRgb => 4
  | .on | .off | .wait | .getColors | .swapColors | .rampOnce | .cycleOnce | .cycle | .halt => 0

/-- lightbyte_dispatch -/
def dispatch (i : Input) (m : Machine) : Opcode → Machine × Outcome
  | .on => lightbyteOn m
  | .off => lightbyteOff m
  | .jump => lightbyteJump m
  | .jumpBattery => lightbyteJumpBattery i m
  | .jumpIfCharging => lightbyteJumpIfCharging i m
  | .setWaitDelay => lightbyteSetWaitDelay m
  | .setRampDelay => lightbyteSetRampDelay m
  | .wait => lightbyteWait m
  | .setBrightness => lightbyteSetBrightness m
  | .setColorSingle => lightbyteSetColorSingle m
  | .setColorRgb => lightbyteSetColorRgb m
  | .getColors => lightbyteGetColors m
  | .swapColors => lightbyteSwapColors m
  | .rampOnce => lightbyteRampOnce m
  | .cycleOnce => lightbyteCycleOnce m
  | .cycle => lightbyteCycle m
  | .halt => lightbyteHalt m

/-! ## sequence_PROGRAM -/

/-- Before the first turn of the loop: lb_on, and the brightness is 255. -/
def start (nextProg : Program) (behind beyond : Nat → UInt8) (bar : Bar) : Machine where
  curProg := nextProg
  behind := behind
  pc := 0
  ledDesc i := if i < numLeds * contMax * 3 then 0 else beyond i
  waitDelay := 0
  rampDelay := 0
  bar := { bar with on := true, brightness := 255 }
  savedBrightness := bar.brightness
  accesses := []
  control := .fetch

/-- `return rc` after `lb_set_brightness(saved_brightness)` -/
def Machine.restored (m : Machine) (rc : Nat) (requested : Bool) : Machine :=
  { m with bar := { m.bar with brightness := m.savedBrightness }, control := .returned rc requested }

def finish : Machine × Outcome → Machine
  | (m, .returns rc) => if rc ≠ 0 then m.restored rc false else { m with control := .pause }
  | (m, .waits wait) => { m with control := .inside wait }

def execute (i : Input) (m : Machine) : Machine :=
  match decode8 m with
  -- past the end the function returns at once, and the brightness stays
  | none => { m with control := .returned ecResInvalidParam false }
  | some (nextInst, m) =>
    match opcodes[nextInst.toNat]? with
    | none => m.restored ecResInvalidParam false
    | some op => finish (dispatch i m op)

/-- The message that ends a wait, unless it asks for the sequence that is running. -/
def waitOrRet (i : Input) : Option Sequence :=
  match i.request.bind lightbarSequence with
  | none => none
  | some msg => if msg ≠ .program then some msg else none

def resume (m : Machine) : Wait → Machine × Outcome
  | .delay => (m, .returns ecSuccess)
  | .ramp w stopAt => rampAllLeds (w + 1) stopAt m
  | .cycle w => cycleAllLeds (w + 1) m

/-- The machine as a step finds it. -/
def Input.found (i : Input) (m : Machine) : Machine := { m with bar := i.bar.getD m.bar }

def step (i : Input) (s : Machine) : Option Machine :=
  let m := i.found s
  match m.control with
  | .fetch => some (execute i m)
  | .inside wait =>
    match waitOrRet i with
    | some msg => some (m.restored msg.num true)
    | none => some (finish (resume m wait))
  | .pause =>
    match waitOrRet i with
    -- WAIT_OR_RET returns without a look at saved_brightness
    | some msg => some { m with control := .returned msg.num true }
    | none => some { m with control := .fetch }
  | .returned _ _ => none

/-! ## What the program leaves alone -/

/-- The program and the brightness to come back to are the same. -/
structure Keeps (m m' : Machine) : Prop where
  curProg : m'.curProg = m.curProg
  savedBrightness : m'.savedBrightness = m.savedBrightness

theorem Keeps.refl {m : Machine} : Keeps m m := ⟨rfl, rfl⟩

theorem Keeps.trans {a b c : Machine} (h : Keeps a b) (h' : Keeps b c) : Keeps a c :=
  ⟨h'.curProg.trans h.curProg, h'.savedBrightness.trans h.savedBrightness⟩

theorem keeps_advance {m : Machine} : Keeps m m.advance := ⟨rfl, rfl⟩

theorem keeps_setDesc {m : Machine} {led control color : Nat} {value : UInt8} :
    Keeps m (m.setDesc led control color value) := ⟨rfl, rfl⟩

theorem keeps_setDescRgb {m : Machine} {led control : Nat} {r g b : UInt8} :
    Keeps m (setDescRgb led control r g b m) := ⟨rfl, rfl⟩

theorem keeps_swapColor {m : Machine} {led color : Nat} : Keeps m (swapColor led color m) := ⟨rfl, rfl⟩

theorem keeps_decode8 {m : Machine} {d : UInt8 × Machine} (h : decode8 m = some d) : Keeps m d.2 := by
  rw [decode8] at h
  split at h
  · cases h
  · cases h
    exact keeps_advance

theorem keeps_decode32 {m : Machine} {d : UInt32 × Machine} (h : decode32 m = some d) : Keeps m d.2 := by
  rw [decode32] at h
  split at h
  · cases h
  · cases h
    exact ⟨rfl, rfl⟩

theorem keeps_setDelay {m : Machine} {store : UInt32 → Machine → Machine} (hstore : ∀ d m, Keeps m (store d m)) :
    Keeps m (setDelay m store).1 := by
  rw [setDelay]
  cases h : decode32 m with
  | none => exact .refl
  | some d => exact (keeps_decode32 h).trans (hstore d.1 d.2)

theorem keeps_operand {m : Machine} {rest : UInt8 → Machine → Machine × Outcome}
    (hrest : ∀ b m, Keeps m (rest b m).1) : Keeps m (operand m rest).1 := by
  rw [operand]
  cases h : decode8 m with
  | none => exact .refl
  | some d => exact (keeps_decode8 h).trans (hrest d.1 d.2)

theorem keeps_foldl {β : Type} {f : Machine → β → Machine} (hf : ∀ m b, Keeps m (f m b)) (l : List β) (m : Machine) :
    Keeps m (l.foldl f m) := by
  induction l generalizing m with
  | nil => exact .refl
  | cons b l ih => exact (hf m b).trans (ih (f m b))

theorem keeps_forLeds {led : UInt8} {f : Nat → Machine → Machine} (hf : ∀ i m, Keeps m (f i m)) (m : Machine) :
    Keeps m (forLeds led f m) := by
  refine keeps_foldl (fun m i => ?_) _ m
  split
  · exact hf i m
  · exact .refl

theorem keeps_rampAllLeds {w stopAt : Nat} {m : Machine} : Keeps m (rampAllLeds w stopAt m).1 := by
  rw [rampAllLeds]
  split <;> exact ⟨rfl, rfl⟩

theorem keeps_dispatch {i : Input} {m : Machine} (op : Opcode) : Keeps m (dispatch i m op).1 := by
  cases op with
  | on | off | halt => exact ⟨rfl, rfl⟩
  | jump | setBrightness => exact keeps_operand fun b m => ⟨rfl, rfl⟩
  | jumpBattery =>
    refine keeps_operand fun low m => keeps_operand fun high m => ?_
    dsimp only
    split
    · exact ⟨rfl, rfl⟩
    · split <;> exact ⟨rfl, rfl⟩
  | jumpIfCharging =>
    refine keeps_operand fun b m => ?_
    split <;> exact ⟨rfl, rfl⟩
  | setWaitDelay | setRampDelay => exact keeps_setDelay fun delay m => ⟨rfl, rfl⟩
  | wait =>
    simp only [dispatch, lightbyteWait]
    split <;> exact .refl
  | setColorSingle =>
    refine keeps_operand fun packedLoc m => keeps_operand fun value m => ?_
    dsimp only
    split
    · exact .refl
    · dsimp only
      exact keeps_forLeds (fun i m => keeps_setDesc) m
  | setColorRgb =>
    refine keeps_operand fun packedLoc m => keeps_operand fun r m => keeps_operand fun g m =>
      keeps_operand fun b m => ?_
    dsimp only
    split
    · exact .refl
    · dsimp only
      exact keeps_forLeds (fun i m => keeps_setDescRgb) m
  | getColors =>
    dsimp only [dispatch, lightbyteGetColors]
    exact keeps_foldl (fun m i => keeps_setDescRgb) _ m
  | swapColors =>
    dsimp only [dispatch, lightbyteSwapColors]
    exact keeps_foldl (fun m i => keeps_foldl (fun m j => keeps_swapColor) _ m) _ m
  | rampOnce =>
    simp only [dispatch, lightbyteRampOnce]
    split
    · exact ⟨rfl, rfl⟩
    · exact keeps_rampAllLeds
  | cycleOnce =>
    simp only [dispatch, lightbyteCycleOnce]
    split
    · exact ⟨rfl, rfl⟩
    · exact keeps_rampAllLeds
  | cycle =>
    simp only [dispatch, lightbyteCycle]
    split <;> exact ⟨rfl, rfl⟩

theorem keeps_finish {r : Machine × Outcome} : Keeps r.1 (finish r) := by
  obtain ⟨m, rc | wait⟩ := r
  · rw [finish]
    split <;> exact ⟨rfl, rfl⟩
  · exact ⟨rfl, rfl⟩

theorem keeps_execute {i : Input} {m : Machine} : Keeps m (execute i m) := by
  rw [execute]
  cases h : decode8 m with
  | none => exact ⟨rfl, rfl⟩
  | some d =>
    refine (keeps_decode8 h).trans ?_
    dsimp only
    split
    · exact ⟨rfl, rfl⟩
    · exact (keeps_dispatch _).trans keeps_finish

theorem keeps_resume {m : Machine} (wait : Wait) : Keeps m (resume m wait).1 := by
  cases wait with
  | delay => exact .refl
  | ramp w stopAt => exact keeps_rampAllLeds
  | cycle w => exact ⟨rfl, rfl⟩

theorem step_cases {i : Input} {s s' : Machine} (h : step i s = some s') :
    s.control = .fetch ∧ s' = execute i (i.found s) ∨
    (∃ wait msg, s.control = .inside wait ∧ waitOrRet i = some msg ∧ s' = (i.found s).restored msg.num true) ∨
    (∃ wait, s.control = .inside wait ∧ waitOrRet i = none ∧ s' = finish (resume (i.found s) wait)) ∨
    (∃ msg, s.control = .pause ∧ waitOrRet i = some msg ∧
      s' = { i.found s with control := .returned msg.num true }) ∨
    s.control = .pause ∧ waitOrRet i = none ∧ s' = { i.found s with control := .fetch } := by
  have hfound : (i.found s).control = s.control := rfl
  cases hc : s.control with
  | fetch =>
    simp only [step, hfound, hc, Option.some.injEq] at h
    exact .inl ⟨rfl, h.symm⟩
  | inside wait =>
    cases hmsg : waitOrRet i with
    | some msg =>
      simp only [step, hfound, hc, hmsg, Option.some.injEq] at h
      exact .inr (.inl ⟨wait, msg, rfl, rfl, h.symm⟩)
    | none =>
      simp only [step, hfound, hc, hmsg, Option.some.injEq] at h
      exact .inr (.inr (.inl ⟨wait, rfl, rfl, h.symm⟩))
  | pause =>
    cases hmsg : waitOrRet i with
    | some msg =>
      simp only [step, hfound, hc, hmsg, Option.some.injEq] at h
      exact .inr (.inr (.inr (.inl ⟨msg, rfl, rfl, h.symm⟩)))
    | none =>
      simp only [step, hfound, hc, hmsg, Option.some.injEq] at h
      exact .inr (.inr (.inr (.inr ⟨rfl, rfl, h.symm⟩)))
  | returned rc requested => simp only [step, hfound, hc, reduceCtorEq] at h

theorem keeps_step {i : Input} {s s' : Machine} (h : step i s = some s') : Keeps s s' := by
  have hfound : Keeps s (i.found s) := ⟨rfl, rfl⟩
  refine hfound.trans ?_
  obtain ⟨-, rfl⟩ | ⟨_, _, -, -, rfl⟩ | ⟨wait, -, -, rfl⟩ | ⟨_, -, -, rfl⟩ | ⟨-, -, rfl⟩ := step_cases h
  · exact keeps_execute
  · exact ⟨rfl, rfl⟩
  · exact (keeps_resume wait).trans keeps_finish
  · exact ⟨rfl, rfl⟩
  · exact ⟨rfl, rfl⟩

theorem keeps_run {l : List (Machine × Input)} {s s' : Machine} (h : Lib.Steps.Run step s l s') : Keeps s s' :=
  h.holds .refl fun _ _ _ hs hnext => hs.trans (keeps_step hnext)

end ChromeEc.Lightbar
