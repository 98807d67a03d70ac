import ChromeEc.Queue.Model

/- The motion sense FIFO, `common/motion_sense_fifo.c`.

  Entries are staged behind the tail of the queue and are committed by moving the tail.
  The queue is that of `Queue.Model`, with units of eight bytes, and an entry is read from
  the bytes it has there. The counters of the source keep their widths.

  Sensors other than those of `motion_sensors` have no `struct motion_sensor_t`, which is
  where `NULL` is passed. Of this structure only what the FIFO reads is modelled. The
  three axes are not copied to the sensor, since nothing here reads them.

  Correspondence (C ↔ Lean):
    `struct ec_response_motion_sensor_data` ↔ `SensorData`, in the view with a timestamp
    `struct fifo_staged` ↔ `FifoStaged`
    `next_timestamp_initialized` ↔ one `Bool` for each sensor
    the do-while of `fifo_ensure_space` ↔ `popEnough`
    the body of the loop of
      `motion_sense_fifo_commit_data` ↔ `spreadEntry`
    `CPRINTS` ↔ entries of `St.prints`
  The last fields of `St` are a record of the run and are not read by any function. -/
namespace ChromeEc.MotionSense
open Lib

structure Config (w : Nat) where
  fifo : Queue.Config w
  unitBytes_eq : fifo.unitBytes.toNat = 8
  /-- `size_t` holds a `uint16_t`. -/
  width_le : 16 ≤ w
  maxMotionSensors : Nat
  /-- There is a bit in `next_timestamp_initialized` for each sensor. -/
  maxMotionSensors_le : maxMotionSensors ≤ 32
  tightTimestamps : Bool
  tabletMode : Bool

/-! ## Entries -/

/-- `struct ec_response_motion_sensor_data`. For data, `reserved` and `timestamp` are the
three axes. -/
structure SensorData where
  flags : BitVec 8
  sensorNum : BitVec 8
  reserved : BitVec 16
  timestamp : BitVec 32
  deriving DecidableEq

def flagTimestamp : BitVec 8 := 0x02
def flagWakeup : BitVec 8 := 0x04
def flagTabletMode : BitVec 8 := 0x08
def flagOdr : BitVec 8 := 0x10
def flagBypassFifo : BitVec 8 := 0x80

/-- `enum motion_sense_async_event`. -/
inductive AsyncEvent where
  | flush
  | odr
  deriving DecidableEq

def AsyncEvent.flags : AsyncEvent → BitVec 8
  | .flush => 0x03
  | .odr => 0x12

def SensorData.sensor (d : SensorData) : Nat := d.sensorNum.toNat

def isTimestamp (d : SensorData) : Bool := d.flags &&& flagTimestamp != 0

def isData (d : SensorData) : Bool := d.flags &&& (flagTimestamp ||| flagOdr) == 0

def byteOf {n : Nat} (x : BitVec n) (i : Nat) : UInt8 := .ofBitVec (x.extractLsb' (8 * i) 8)

def timestampBytes (t : BitVec 32) : Queue.Mem := byteOf t

def SensorData.bytes (d : SensorData) : Queue.Mem := fun i =>
  if i = 0 then byteOf d.flags 0
  else if i = 1 then byteOf d.sensorNum 0
  else if i < 4 then byteOf d.reserved (i - 2)
  else timestampBytes d.timestamp (i - 4)

def ofBytes (us : List UInt8) : SensorData :=
  let byte := fun i => (us.getD i 0).toBitVec
  { flags := byte 0
    sensorNum := byte 1
    reserved := byte 3 ++ byte 2
    timestamp := byte 7 ++ byte 6 ++ byte 5 ++ byte 4 }

/-! ## State -/

structure FifoStaged where
  count : BitVec 16
  sampleCount : Nat → BitVec 8
  requiresSpreading : Bool

structure TimestampState where
  prev : BitVec 32
  next : BitVec 32

/-- What the FIFO reads of `struct motion_sensor_t`. The rate and the ODR are those of
`SENSOR_CONFIG_AP`. -/
structure Sensor where
  oversampling : BitVec 16
  oversamplingRatio : BitVec 16
  ecRate : BitVec 32
  odr : BitVec 32

inductive Print where
  | failedToGetWriteChunk
  | spreadingSkipped
  | outOfOrder
  deriving DecidableEq

/-- What happens to the timestamps of a sensor: one is staged, or one is spread. -/
inductive Mark where
  | sighted (sensor : Nat) (raw : BitVec 32)
  | stamped (sensor : Nat) (raw stamp : BitVec 32)
  deriving DecidableEq

structure St (w : Nat) where
  fifo : Queue.State w
  fifoLost : BitVec 32
  fifoSensorLost : Nat → BitVec 16
  fifoStaged : FifoStaged
  nextTimestamp : Nat → TimestampState
  expectedDataPeriods : Nat → BitVec 32
  nextTimestampInitialized : Nat → Bool
  bypassNeeded : Bool
  wakeUpNeeded : Bool
  apInterruptNeeded : Bool
  tsLastInt : Nat → BitVec 32
  motionSensors : Nat → Sensor
  prints : List Print
  calls : Nat
  /-- The entries that were copied to the queue, each with the call that did it. -/
  written : List (SensorData × Nat)
  /-- The entries that were read. -/
  returned : List SensorData
  /-- The entries of each commit, as they were staged and as they are committed. -/
  batches : List (List SensorData × List SensorData)
  /-- The counters of losses, each time they were reset. -/
  resets : List (BitVec 32 × (Nat → BitVec 16))
  marks : List Mark

/-- What the FIFO asks others, and the bytes that an uninitialized `reserved` has. -/
structure Env where
  tabletGetMode : Bool
  hwClockSourceRead : BitVec 32
  reserved : BitVec 16
  mkbpLastEventTime : BitVec 32

def timeAfter (a b : BitVec 32) : Bool := (b - a).toInt < 0

variable {w : Nat}

def update {α : Type} (f : Nat → α) (n : Nat) (x : α) : Nat → α := fun i => if i = n then x else f i

@[simp] theorem update_same {α : Type} (f : Nat → α) (n : Nat) (x : α) : update f n x n = x := if_pos rfl

theorem update_other {α : Type} (f : Nat → α) {n i : Nat} (x : α) (h : i ≠ n) : update f n x i = f i :=
  if_neg h

section

variable (c : Config w)

/-! ## The oldest entries are dropped -/

def entryAt (s : St w) (p : BitVec w) : SensorData := ofBytes (Queue.unitAt c.fifo s.fifo p)

def getFifoHead (s : St w) : SensorData :=
  entryAt c s ((s.fifo.head &&& c.fifo.bufferUnitsMask) * c.fifo.unitBytes)

/-- `fifo_staged.count` as a `size_t`. -/
def stagedCount (s : St w) : BitVec w := s.fifoStaged.count.setWidth w

def FifoStaged.pop (staged : FifoStaged) (head : SensorData) : FifoStaged :=
  let staged := { staged with count := staged.count - 1 }
  if isTimestamp head then staged
  else
    let staged := { staged with
      sampleCount := update staged.sampleCount head.sensor (staged.sampleCount head.sensor - 1) }
    if staged.sampleCount head.sensor < 2 then
      { staged with
        requiresSpreading := (List.range c.maxMotionSensors).any fun i => staged.sampleCount i > 1 }
    else staged

def fifoPop (s : St w) : St w :=
  let head := getFifoHead c s
  let initialCount := Queue.queueCount s.fifo
  if initialCount == 0 && s.fifoStaged.count == 0 then s
  else
    -- Without committed entries, the tail moves with the head.
    let s := if initialCount == 0 then { s with fifo := (Queue.queueAdvanceTail c.fifo s.fifo 1).2 } else s
    let s := if head.flags &&& flagWakeup != 0 then { s with wakeUpNeeded := true } else s
    let s := { s with fifo := (Queue.queueAdvanceHead s.fifo 1).2, fifoLost := s.fifoLost + 1 }
    let s :=
      if isTimestamp head then s
      else { s with
        fifoSensorLost := update s.fifoSensorLost head.sensor (s.fifoSensorLost head.sensor + 1) }
    if initialCount != 0 then s
    else { s with fifoStaged := s.fifoStaged.pop c head }

/-- The loop pops at most as often as there is fuel. -/
def popEnough : Nat → St w → St w
  | 0, s => s
  | n + 1, s =>
    let s := fifoPop c s
    if c.tightTimestamps && !isTimestamp (getFifoHead c s) &&
        Queue.queueCount s.fifo + stagedCount s != 0 then
      popEnough n s
    else s

/-- There are not more entries than the queue has units. -/
def fifoEnsureSpace (s : St w) : St w :=
  if Queue.queueSpace c.fifo s.fifo > stagedCount s then s
  else popEnough c c.fifo.bufferUnits.toNat s

/-! ## Staging -/

def isNewTimestamp (s : St w) (sensorNum : Nat) : Bool :=
  sensorNum < c.maxMotionSensors && !s.nextTimestampInitialized sensorNum

/-- The first timestamp of a sensor is where the next one is expected. -/
def sightTimestamp (data : SensorData) (s : St w) : St w :=
  if isTimestamp data then
    let s := { s with marks := s.marks ++ [.sighted data.sensor data.timestamp] }
    if isNewTimestamp c s data.sensor then
      { s with
        nextTimestamp := update s.nextTimestamp data.sensor ⟨data.timestamp, data.timestamp⟩
        nextTimestampInitialized := update s.nextTimestampInitialized data.sensor true }
    else s
  else s

/-- Whether the AP does not need the data, by the oversampling ratio of the sensor. -/
def oversample (sensor : Nat) (s : St w) : Bool × St w :=
  let m := s.motionSensors sensor
  if m.oversamplingRatio == 0 then (true, s)
  else
    (m.oversampling != 0,
      { s with
        motionSensors := update s.motionSensors sensor
          { m with oversampling := (m.oversampling + 1) % m.oversamplingRatio } })

def FifoStaged.push (staged : FifoStaged) (data : SensorData) : FifoStaged :=
  let staged := { staged with count := staged.count + 1 }
  if c.tightTimestamps && !isTimestamp data then
    let staged := { staged with
      sampleCount := update staged.sampleCount data.sensor (staged.sampleCount data.sensor + 1) }
    if staged.sampleCount data.sensor > 1 then { staged with requiresSpreading := true } else staged
  else staged

/-- The second half of `fifo_stage_unit`, which makes space and copies the entry. -/
def writeUnit (e : Env) (data : SensorData) (s : St w) : St w :=
  let s := fifoEnsureSpace c s
  let data :=
    if c.tabletMode && e.tabletGetMode then { data with flags := data.flags ||| flagTabletMode } else data
  match (Queue.queueGetWriteChunk c.fifo s.fifo (stagedCount s)).buffer with
  | none => { s with prints := s.prints ++ [.failedToGetWriteChunk] }
  | some p =>
    { s with
      fifo := Queue.store s.fifo p data.bytes c.fifo.unitBytes
      fifoStaged := s.fifoStaged.push c data
      written := s.written ++ [(data, s.calls)] }

/-- `fifo_stage_unit`. The sensor is its index in `motion_sensors`. -/
def fifoStageUnit (e : Env) (data : SensorData) (sensor : Option Nat) (validData : Nat) (s : St w) : St w :=
  if validData == 0 then writeUnit c e data (sightTimestamp c data s)
  else
    match sensor with
    | none => s
    | some i =>
      let (removed, s) := oversample i (sightTimestamp c data s)
      if removed then s else writeUnit c e data s

def fifoStageTimestamp (e : Env) (timestamp : BitVec 32) (sensorNum : BitVec 8) (s : St w) : St w :=
  fifoStageUnit c e ⟨flagTimestamp, sensorNum, e.reserved, timestamp⟩ none 0 s

/-! ## Committing -/

def peekFifoStaged (s : St w) (offset : BitVec w) : Option (BitVec w) :=
  (Queue.queueGetWriteChunk c.fifo s.fifo offset).buffer

def noteFlags (data : SensorData) (s : St w) : St w :=
  { s with
    bypassNeeded := s.bypassNeeded || data.flags &&& flagBypassFifo != 0
    wakeUpNeeded := s.wakeUpNeeded || data.flags &&& flagWakeup != 0 }

/-- The timestamp at `p`, which is that of data of the sensor, is spread. -/
def spreadTimestamp (sensorNum : Nat) (p : BitVec w) (s : St w) : St w :=
  let raw := (entryAt c s p).timestamp
  let s :=
    if isNewTimestamp c s sensorNum || timeAfter raw (s.nextTimestamp sensorNum).next then
      { s with
        nextTimestamp := update s.nextTimestamp sensorNum
          { s.nextTimestamp sensorNum with next := raw }
        nextTimestampInitialized := update s.nextTimestampInitialized sensorNum true }
    else s
  let next := (s.nextTimestamp sensorNum).next
  { s with
    fifo := Queue.store s.fifo (p + 4) (timestampBytes next) 4
    nextTimestamp := update s.nextTimestamp sensorNum ⟨next, next + s.expectedDataPeriods sensorNum⟩
    marks := s.marks ++ [.stamped sensorNum raw next] }

/-- One round of the loop. With `i` zero the offset of the timestamp is not one of the
queue. -/
def spreadEntry (s : St w) (i : Nat) : St w :=
  match peekFifoStaged c s (BitVec.ofNat w i) with
  | none => s
  | some p =>
    let data := entryAt c s p
    let s := noteFlags data s
    if !isData data then s
    else
      match peekFifoStaged c s (BitVec.ofNat w i - 1) with
      | none => s
      | some p =>
        if !isTimestamp (entryAt c s p) then { s with prints := s.prints ++ [.outOfOrder] }
        else spreadTimestamp c data.sensor p s

def stagedEntries (s : St w) : List SensorData :=
  (List.range s.fifoStaged.count.toNat).map fun i =>
    entryAt c s (((s.fifo.tail + BitVec.ofNat w i) &&& c.fifo.bufferUnitsMask) * c.fifo.unitBytes)

/-- Spreading is skipped if the first staged entry is not a timestamp. -/
def checkSpreading (s : St w) : St w :=
  if s.fifoStaged.requiresSpreading then
    match peekFifoStaged c s 0 with
    | none => s
    | some p =>
      if isTimestamp (entryAt c s p) then s
      else { s with
        prints := s.prints ++ [.spreadingSkipped]
        fifoStaged := { s.fifoStaged with requiresSpreading := false } }
  else s

/-- The label is before the loop, which is run in any case. -/
def motionSenseFifoCommitData (s : St w) : St w :=
  if s.fifoStaged.count == 0 then s
  else
    let raw := stagedEntries c s
    let s := (List.range s.fifoStaged.count.toNat).foldl (spreadEntry c) (checkSpreading c s)
    { s with
      fifo := (Queue.queueAdvanceTail c.fifo s.fifo (stagedCount s)).2
      fifoStaged := ⟨0, fun _ => 0, false⟩
      batches := s.batches ++ [(raw, stagedEntries c s)] }

/-! ## The interface -/

def motionSenseFifoResetNeededFlags (s : St w) : St w :=
  let s :=
    if s.apInterruptNeeded then
      { s with
        apInterruptNeeded := false
        tsLastInt := fun i =>
          if i < c.maxMotionSensors && !isNewTimestamp c s i then (s.nextTimestamp i).prev
          else s.tsLastInt i }
    else s
  { s with nextTimestampInitialized := fun _ => false, wakeUpNeeded := false, bypassNeeded := false }

def motionSenseFifoInsertAsyncEvent (e : Env) (sensor : BitVec 8) (event : AsyncEvent) (s : St w) : St w :=
  motionSenseFifoCommitData c
    (fifoStageUnit c e ⟨event.flags, sensor, e.reserved, e.hwClockSourceRead⟩ (some sensor.toNat) 0 s)

def motionSenseFifoAddTimestamp (e : Env) (timestamp : BitVec 32) (s : St w) : St w :=
  motionSenseFifoCommitData c (fifoStageTimestamp c e timestamp 0xff s)

/-- The AP is interrupted when the data is about due. -/
def noteInterrupt (data : SensorData) (sensor : Option Nat) (time : BitVec 32) (s : St w) : St w :=
  match sensor with
  | none => s
  | some i =>
    let m := s.motionSensors i
    if m.ecRate > 0 && m.odr > 0 &&
        timeAfter time (s.tsLastInt data.sensor + m.ecRate - s.expectedDataPeriods data.sensor / 2) then
      { s with apInterruptNeeded := true }
    else s

def motionSenseFifoStageData (e : Env) (data : SensorData) (sensor : Option Nat) (validData : Nat)
    (time : BitVec 32) (s : St w) : St w :=
  let s := if c.tightTimestamps then fifoStageTimestamp c e time data.sensorNum s else s
  fifoStageUnit c e data sensor validData (noteInterrupt data sensor time s)

/-- `struct ec_response_motion_sense_fifo_info`. -/
structure FifoInfo where
  size : BitVec 16
  count : BitVec 16
  timestamp : BitVec 32
  totalLost : BitVec 16
  lost : List (BitVec 16)

def motionSenseFifoGetInfo (e : Env) (reset : Bool) (s : St w) : FifoInfo × St w :=
  ({ size := c.fifo.bufferUnits.setWidth 16
     count := (Queue.queueCount s.fifo).setWidth 16
     timestamp := e.mkbpLastEventTime
     totalLost := s.fifoLost.setWidth 16
     lost := (List.range c.maxMotionSensors).map s.fifoSensorLost },
    if reset then
      { s with
        fifoLost := 0
        fifoSensorLost := fun _ => 0
        resets := s.resets ++ [(s.fifoLost, s.fifoSensorLost)] }
    else s)

/-- The number of entries read, with the entries in `out`. -/
def motionSenseFifoRead (capacityBytes maxCount : BitVec w) (out : Queue.Mem) (s : St w) : BitVec w × St w :=
  let count := Queue.MIN (capacityBytes / c.fifo.unitBytes) (Queue.MIN (Queue.queueCount s.fifo) maxCount)
  let (count, out, fifo) := Queue.queueRemoveUnits c.fifo s.fifo out count
  (count,
    { s with
      fifo := fifo
      returned := s.returned ++ window (fun u => ofBytes (Queue.units c.fifo out u)) 0 count.toNat })

def motionSenseFifoReset (e : Env) (s : St w) : St w :=
  (motionSenseFifoGetInfo c e true
    { s with
      nextTimestampInitialized := fun _ => false
      fifoStaged := ⟨0, fun _ => 0, false⟩
      fifo := Queue.queueInit s.fifo }).2

def motionSenseSetDataPeriod (e : Env) (sensorNum : Nat) (dataPeriod : BitVec 32) (s : St w) : St w :=
  { s with
    expectedDataPeriods := update s.expectedDataPeriods sensorNum dataPeriod
    tsLastInt := update s.tsLastInt sensorNum e.hwClockSourceRead
    nextTimestampInitialized := update s.nextTimestampInitialized sensorNum false }

/-! ## Runs -/

def initial (buffer : Queue.Mem) : St w where
  fifo := ⟨0, 0, false, buffer, [], []⟩
  fifoLost := 0
  fifoSensorLost _ := 0
  fifoStaged := ⟨0, fun _ => 0, false⟩
  nextTimestamp _ := ⟨0, 0⟩
  expectedDataPeriods _ := 0
  nextTimestampInitialized _ := false
  bypassNeeded := false
  wakeUpNeeded := false
  apInterruptNeeded := false
  tsLastInt _ := 0
  motionSensors _ := ⟨0, 0, 0, 0⟩
  prints := []
  calls := 0
  written := []
  returned := []
  batches := []
  resets := []
  marks := []

/-- A call. The sensor of data is one that the arrays have. `configure` stands for what
`motion_sense.c` does to a sensor. -/
inductive Call where
  | stageData (data : SensorData) (valid : data.sensor < c.maxMotionSensors) (sensor : Option Nat)
      (validData : Nat) (time : BitVec 32)
  | addTimestamp (timestamp : BitVec 32)
  | insertAsyncEvent (sensor : BitVec 8) (event : AsyncEvent)
  | commitData
  | read (capacityBytes maxCount : BitVec w) (out : Queue.Mem)
  | getInfo (reset : Bool)
  | resetNeededFlags
  | setDataPeriod (sensorNum : Nat) (dataPeriod : BitVec 32)
  | fifoReset
  | configure (sensor : Nat) (m : Sensor)

variable {c}

def call (e : Env) (s : St w) : Call c → St w
  | .stageData data _ sensor validData time => motionSenseFifoStageData c e data sensor validData time s
  | .addTimestamp timestamp => motionSenseFifoAddTimestamp c e timestamp s
  | .insertAsyncEvent sensor event => motionSenseFifoInsertAsyncEvent c e sensor event s
  | .commitData => motionSenseFifoCommitData c s
  | .read capacityBytes maxCount out => (motionSenseFifoRead c capacityBytes maxCount out s).2
  | .getInfo reset => (motionSenseFifoGetInfo c e reset s).2
  | .resetNeededFlags => motionSenseFifoResetNeededFlags c s
  | .setDataPeriod sensorNum dataPeriod => motionSenseSetDataPeriod e sensorNum dataPeriod s
  | .fifoReset => motionSenseFifoReset c e s
  | .configure sensor m => { s with motionSensors := update s.motionSensors sensor m }

def step (s : St w) (i : Env × Call c) : St w :=
  let s := call i.1 s i.2
  { s with calls := s.calls + 1 }

def run (s : St w) (is : List (Env × Call c)) : St w := is.foldl step s

end

end ChromeEc.MotionSense
