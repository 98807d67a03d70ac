import ChromeEc.PdRequest.Model
import Mathlib.Algebra.BigOperators.Group.List.Basic

/- Dynamic PDO selection: `common/dps.c`.

  Voltages, currents and powers are natural numbers, but for the current limit of the charger,
  which is an `int` that may hold anything when it was not read. The configuration is that of
  the board: `k_window` and `k_sample` are within what the console command and `dps_init`
  accept, and the windows hold what was recorded since the count was last cleared, no power
  of which is 0 (`Stats.recorded`). What other modules answer in an iteration is its `Env`; a
  charge port that is not there is `none`, for `CHARGE_PORT_NONE`.

  An iteration of `dps_task` is a step, also one that only sets a flag; the waits are part of it
  (`later` is when the task has woken up and `update_timeout` reads the clock).

  Correspondence (C ↔ Lean):
    `struct dps_config_t` ↔ `Config`
    `struct pdo_candidate` ↔ `Candidate`
    `is_near_limit`, `is_more_efficient`, `get_desired_input_power`, `has_srccap`, `dps_reset`,
      `dps_enable`, `dps_update_stabilized_time` ↔ the same in camelCase
    `has_new_power_request` ↔ `hasNewPowerRequest`: `averages` up to the averages, `scanPorts`
      and `consider` for its loops
    `dps_task` ↔ `dpsTask` (one iteration) -/
namespace ChromeEc.Dps
open PdRequest

def int32Max : Nat := 2147483647

structure Config where
  kLessPwr : Nat
  kMorePwr : Nat
  kSample : Nat
  kWindow : Nat
  tStable : Nat
  tCheck : Nat
  /-- The measure of the board, if it has one: the voltages compared, the battery's voltage and power, the input power. -/
  isMoreEfficient : Option (Nat → Nat → Nat → Nat → Nat → Bool)
  kWindow_pos : 0 < kWindow
  kSample_pos : 0 < kSample

structure Port where
  connected : Bool
  role : PowerRole
  srcCaps : List Pdo

structure Env where
  activePort : Option Nat
  reqMv : Nat
  reqMa : Nat
  /-- The target voltage of the battery, if it could be read, and its charge power. -/
  battMv : Option Nat
  battMw : Nat
  /-- The input current, if it could be read, and VBUS. -/
  inputCurrent : Option Nat
  vbus : Nat
  fake : Option (Nat × Nat)
  /-- The current limit of the charger, if it could be read, and what is in the variable before. -/
  inputCurrentLimit : Option Int
  staleLimit : Int
  maxVoltage : Nat
  ports : List Port
  batteryPresent : Bool

structure Candidate where
  port : Option Nat
  mv : Nat
  mw : Nat
  deriving DecidableEq

def noCandidate : Candidate := ⟨none, int32Max, 0⟩

def isNearLimit (c : Config) (val limit : Int) : Bool := decide ((limit * c.kMorePwr).tdiv 100 ≤ val)

def distance (mv battMv : Nat) : Nat := ((mv : Int) - battMv).natAbs

def isMoreEfficient (c : Config) (currMv prevMv battMv battMw inputMw : Nat) : Bool :=
  match c.isMoreEfficient with
  | some f => f currMv prevMv battMv battMw inputMw
  | none => decide (distance currMv battMv < distance prevMv battMv)

/-! ## The averages -/

def getDesiredInputPower (e : Env) : Nat × Nat :=
  match e.activePort with
  | none => (0, 0)
  | some _ =>
    match e.fake with
    | some (mv, ma) => (mv * ma / 1000, ma)
    | none =>
      match e.inputCurrent with
      | none => (0, 0)
      | some ma => (e.vbus * ma / 1000, ma)

/-- The static variables of `has_new_power_request`. -/
structure Stats (c : Config) where
  inputPwrs : Nat → Nat
  inputCurrs : Nat → Nat
  prevActivePort : Option Nat
  prevReqMv : Nat
  movingAvgCount : Nat
  recorded : ∀ i, i < movingAvgCount → i < c.kWindow → 0 < inputPwrs i

variable {c : Config}

def Stats.clear (s : Stats c) : Stats c :=
  { s with movingAvgCount := 0, recorded := fun _ h => absurd h (Nat.not_lt_zero _) }

/-- The count starts again when the request or the port is another one. -/
def Stats.compare (port reqMv : Nat) (s : Stats c) : Stats c :=
  if s.prevReqMv ≠ reqMv ∨ s.prevActivePort ≠ some port then
    { s.clear with prevActivePort := some port, prevReqMv := reqMv }
  else s

theorem recorded_update {s : Stats c} {pwr i : Nat} (hpwr : 0 < pwr) (hcount : i < s.movingAvgCount + 1)
    (hi : i < c.kWindow) : 0 < Function.update s.inputPwrs (s.movingAvgCount % c.kWindow) pwr i := by
  by_cases heq : i = s.movingAvgCount % c.kWindow
  · rw [heq, Function.update_self]
    exact hpwr
  · rw [Function.update_of_ne heq]
    refine s.recorded i ?_ hi
    by_contra hge
    obtain rfl : i = s.movingAvgCount := by omega
    exact heq (Nat.mod_eq_of_lt hi).symm

def Stats.record (pwr curr : Nat) (hpwr : 0 < pwr) (s : Stats c) : Stats c :=
  { s with
    inputPwrs := Function.update s.inputPwrs (s.movingAvgCount % c.kWindow) pwr
    inputCurrs := Function.update s.inputCurrs (s.movingAvgCount % c.kWindow) curr
    movingAvgCount := s.movingAvgCount + 1
    recorded := fun _ => recorded_update hpwr }

def Stats.average (s : Stats c) : Nat × Nat :=
  (((List.range c.kWindow).map s.inputPwrs).sum / c.kWindow, ((List.range c.kWindow).map s.inputCurrs).sum / c.kWindow)

/-- The active port and the voltage of the battery, if there is enough to evaluate. -/
def averages (e : Env) (s : Stats c) : Stats c × Option (Nat × Nat) :=
  match e.activePort with
  | none => (s.clear, none)
  | some port =>
    if e.reqMv = 0 then (s.clear, none)
    else
      match e.battMv with
      | none => (s.clear, none)
      | some battMv =>
        let s := s.compare port e.reqMv
        if hpwr : 0 < (getDesiredInputPower e).1 then
          let s := s.record (getDesiredInputPower e).1 (getDesiredInputPower e).2 hpwr
          if s.movingAvgCount < c.kWindow then (s, none) else (s, some (port, battMv))
        else (s.clear, none)

/-! ## The scan -/

/-- The limit that is compared with: the requested current if it could be read, and else what the variable held. -/
def usedLimit (e : Env) : Int :=
  match e.inputCurrentLimit with
  | some _ => e.reqMa
  | none => e.staleLimit

def reqPwr (e : Env) : Nat := e.reqMv * e.reqMa / 1000

/-- What the scan compares with. -/
structure Demand where
  needMore : Bool
  inputPwrAvg : Nat
  battMv : Nat
  battMw : Nat
  maxMv : Nat
  activePort : Nat

def demand (e : Env) (s : Stats c) (port battMv : Nat) : Demand :=
  let needMore := isNearLimit c s.average.1 (reqPwr e) || isNearLimit c s.average.2 (min e.reqMa (usedLimit e))
  { needMore := needMore
    inputPwrAvg := if needMore = true ∧ e.fake = none then reqPwr e + 1 else s.average.1
    battMv := battMv
    battMw := e.battMw
    maxMv := e.maxVoltage
    activePort := port }

def adjust (c : Config) (mw : Nat) : Nat := mw * c.kLessPwr / 100

/-- A PDO that is better takes the place of the candidate. -/
def replaces (c : Config) (x : Demand) (o cand : Candidate) : Bool :=
  let efficient := isMoreEfficient c o.mv cand.mv x.battMv x.battMw x.inputPwrAvg
  if x.needMore = true then
    decide (cand.mw < x.inputPwrAvg ∧ (cand.mw < o.mw ∨ o.mw = cand.mw ∧ efficient = true)) ||
      decide (x.inputPwrAvg ≤ o.mw ∧ efficient = true)
  else
    decide (cand.mw = 0) ||
      (decide (adjust c cand.mw < x.inputPwrAvg ∧ cand.mw < o.mw) ||
        decide (x.inputPwrAvg ≤ adjust c cand.mw ∧ x.inputPwrAvg ≤ adjust c o.mw ∧ efficient = true))

def consider (c : Config) (x : Demand) (cand o : Candidate) : Candidate :=
  let cand := if replaces c x o cand = true then o else cand
  if o.mw = cand.mw ∧ o.mv = cand.mv ∧ o.port = some x.activePort then o else cand

def pdoMw (b : Board) (pdo : Pdo) : Nat :=
  min (pdExtractPdoPower b pdo).ma b.maxCurrentMa * (pdExtractPdoPower b pdo).maxMv / 1000

def scanPdo (b : Board) (c : Config) (x : Demand) (i : Nat) (cand : Candidate) (pdo : Pdo) : Candidate :=
  if pdoType pdo ≠ .fixed then cand
  else if x.maxMv < (pdExtractPdoPower b pdo).maxMv then cand
  else consider c x cand ⟨some i, (pdExtractPdoPower b pdo).maxMv, pdoMw b pdo⟩

def scanPorts (b : Board) (c : Config) (x : Demand) : Nat → List Port → Candidate → Candidate
  | _, [], cand => cand
  | i, p :: rest, cand =>
    scanPorts b c x (i + 1) rest (if p.role = .sink then p.srcCaps.foldl (scanPdo b c x i) cand else cand)

def hasNewPowerRequest (b : Board) (e : Env) (s : Stats c) : Stats c × Candidate × Bool :=
  match averages e s with
  | (s, none) => (s, noCandidate, false)
  | (s, some (port, battMv)) =>
    let cand := scanPorts b c (demand e s port battMv) 0 e.ports noCandidate
    (s, cand, cand.mv != e.reqMv)

/-! ## The task -/

structure Flags where
  disabled : Bool
  noSrccap : Bool
  noBattery : Bool
  waiting : Bool
  sampled : Bool
  needMorePwr : Bool

def Flags.clear : Flags := ⟨false, false, false, false, false, false⟩

def Flags.stop (f : Flags) : Bool := f.disabled || f.noSrccap || f.noBattery

structure Task (c : Config) where
  flag : Flags
  timeout : Nat
  isEnabled : Bool
  dynamicMv : Nat
  dpsPort : Option Nat
  lastCand : Candidate
  sampleCount : Nat
  stats : Stats c

def dpsReset (b : Board) (t : Task c) : Task c := { t with dynamicMv := b.maxVoltageMv, dpsPort := none }

def updateTimeout (now us : Nat) (t : Task c) : Task c := { t with timeout := max t.timeout (now + us) }

def hasSrccap (e : Env) : Bool :=
  e.ports.any fun p => p.connected && decide (p.role = .sink) && decide (0 < p.srcCaps.length)

/-- The samples of the candidate in a row. -/
def nextCount (t : Task c) (cand : Candidate) (new : Bool) : Nat :=
  if new = true then if t.lastCand = cand then t.sampleCount + 1 else 1 else 0

/-- Whether the power limit is near, for the flag. -/
def nearLimit (e : Env) (t : Task c) : Bool :=
  match averages e t.stats with
  | (_, none) => t.flag.needMorePwr
  | (s, some (port, battMv)) => (demand e s port battMv).needMore

/-- An iteration that evaluates, and whether it requests a new power level on `dps_port`. -/
def evaluate (b : Board) (later : Nat) (e : Env) (t : Task c) : Task c × Bool :=
  let r := hasNewPowerRequest b e t.stats
  let cand := r.2.1
  let count := nextCount t cand r.2.2
  let flag := { t.flag with sampled := r.2.2, needMorePwr := nearLimit e t }
  let t := { t with stats := r.1, lastCand := cand }
  if count = c.kSample then
    (updateTimeout later c.tCheck { t with
      dynamicMv := cand.mv, dpsPort := cand.port, sampleCount := 0
      flag := { flag with sampled := false, needMorePwr := false } }, true)
  else (updateTimeout later c.tCheck { t with sampleCount := count, flag := flag }, false)

def dpsTask (b : Board) (now later : Nat) (e : Env) (t : Task c) : Task c × Bool :=
  if t.flag.stop = true then (updateTimeout later c.tCheck { dpsReset b t with flag := .clear }, false)
  else if now < t.timeout then ({ t with flag := { t.flag with waiting := false } }, false)
  else if t.isEnabled = false then ({ t with flag := { t.flag with disabled := true } }, false)
  else if hasSrccap e = false then ({ t with flag := { t.flag with noSrccap := true } }, false)
  else if e.batteryPresent = false then ({ t with flag := { t.flag with noBattery := true } }, false)
  else evaluate b later e t

/-- When DPS is disabled, a request for the default voltage is made if there is a port. -/
def dpsEnable (en : Bool) (t : Task c) : Task c × Bool := ({ t with isEnabled := en }, !en && t.dpsPort.isSome)

def dpsUpdateStabilizedTime (now : Nat) (t : Task c) : Task c := updateTimeout now c.tStable t

end ChromeEc.Dps
