import ChromeEc.MotionSense.Conservation

/- The metadata of what is staged.

  `sample_count` is to count the staged entries of each sensor that are not timestamps, with
  tight timestamps, and to be zero without. `requires_spreading` is to say whether one of
  these counts is more than one (`Metadata`).

  This is not so where a count leaves its range. `fifo_pop` counts down also without tight
  timestamps, where the count is zero; a count of 255 goes to zero with the next sample; and
  a `count` of 65535 goes to zero with the next entry, while the samples stay counted.

  What is proved: as long as no entry is staged in one of these cases (`Fits`), the metadata
  is right in every state (`metadata_of_fits`). With tight timestamps and a buffer of less
  than 256 entries none of the cases arises (`runFits_of_small`). -/
namespace ChromeEc.MotionSense
open Lib

variable {w : Nat}

/-- An entry that counts as a sample of the sensor. -/
def isSampleOf (n : Nat) (x : SensorData) : Bool := !isTimestamp x && x.sensor == n

def samples (n : Nat) (xs : List SensorData) : Nat := xs.countP (isSampleOf n)

structure Metadata (c : Config w) (s : St w) : Prop where
  sampleCount : ∀ n, (s.fifoStaged.sampleCount n).toNat =
    if c.tightTimestamps then samples n (staged c s) else 0
  requiresSpreading : s.fifoStaged.requiresSpreading = true ↔
    ∃ n, n < c.maxMotionSensors ∧ s.fifoStaged.sampleCount n > 1

/-- An entry can be staged without a count leaving its range. -/
structure Fits (c : Config w) (data : SensorData) (s : St w) : Prop where
  /-- With tight timestamps there are not 255 staged samples of the sensor, after space was
  made. -/
  samples : c.tightTimestamps = true → isTimestamp data = false →
    samples data.sensor (staged c (fifoEnsureSpace c s)) < 255
  /-- With tight timestamps the 65536th staged entry is a timestamp like all before it. -/
  count : c.tightTimestamps = true → (fifoEnsureSpace c s).fifoStaged.count = 0xffff →
    isTimestamp data = true ∧ ∀ x ∈ staged c (fifoEnsureSpace c s), isTimestamp x = true
  /-- Without tight timestamps no staged sample is dropped to make space. -/
  pop : c.tightTimestamps = false → (committed c s ++ staged c s).length = c.fifo.cap →
    committed c s = [] → ∀ x ∈ (staged c s).head?, isTimestamp x = true

/-- The metadata is right, and the samples are of sensors that there are. -/
structure Tallied (c : Config w) (s : St w) : Prop extends Metadata c s where
  valid : Valid c s
  sensors : ∀ x ∈ staged c s, isTimestamp x = false → x.sensor < c.maxMotionSensors

section

variable {c : Config w} {s s' : St w}

/-! ## Dropping -/

theorem FifoStaged.pop_timestamp (staged : FifoStaged) {x : SensorData} (h : isTimestamp x = true) :
    (staged.pop c x).sampleCount = staged.sampleCount ∧
      (staged.pop c x).requiresSpreading = staged.requiresSpreading := by
  simp [FifoStaged.pop, h]

theorem FifoStaged.pop_sample (staged : FifoStaged) {x : SensorData} (h : isTimestamp x = false) :
    (staged.pop c x).sampleCount =
        update staged.sampleCount x.sensor (staged.sampleCount x.sensor - 1) ∧
      (staged.pop c x).requiresSpreading =
        if staged.sampleCount x.sensor - 1 < 2 then
          (List.range c.maxMotionSensors).any fun i =>
            update staged.sampleCount x.sensor (staged.sampleCount x.sensor - 1) i > 1
        else staged.requiresSpreading := by
  simp only [FifoStaged.pop, h, Bool.false_eq_true, if_false, update_same]
  split
  · exact ⟨rfl, rfl⟩
  · exact ⟨rfl, rfl⟩

theorem samples_cons (n : Nat) (x : SensorData) (xs : List SensorData) :
    samples n (x :: xs) = samples n xs + if isSampleOf n x then 1 else 0 := List.countP_cons

theorem samples_timestamp {n : Nat} {x : SensorData} (h : isTimestamp x = true) : isSampleOf n x = false := by
  simp [isSampleOf, h]

theorem Tallied.popped {x : SensorData} (h : Tallied c s) (hx : Popped c x s s')
    (hpop : c.tightTimestamps = false → committed c s = [] → isTimestamp x = true) : Tallied c s' := by
  obtain ⟨-, hs, hmeta⟩ | ⟨hc, -, hs, hmeta⟩ := hx.lists
  · refine ⟨⟨?_, ?_⟩, hx.valid, ?_⟩
    · rw [hmeta, hs]
      exact h.sampleCount
    · rw [hmeta]
      exact h.requiresSpreading
    · rw [hs]
      exact h.sensors
  · have hsensors : ∀ y ∈ staged c s', isTimestamp y = false → y.sensor < c.maxMotionSensors := by
      intro y hy
      apply h.sensors
      rw [hs]
      exact List.mem_cons_of_mem x hy
    have hcounts := h.sampleCount
    rw [hs] at hcounts
    cases hts : isTimestamp x with
    | true =>
      obtain ⟨hcount, hspread⟩ := s.fifoStaged.pop_timestamp (c := c) hts
      refine ⟨⟨?_, ?_⟩, hx.valid, hsensors⟩
      · intro n
        rw [hmeta, hcount, hcounts, samples_cons, samples_timestamp hts]
        rfl
      · rw [hmeta, hcount, hspread]
        exact h.requiresSpreading
    | false =>
      have htight : c.tightTimestamps = true := by
        cases htight : c.tightTimestamps with
        | true => rfl
        | false =>
          rw [hpop htight hc] at hts
          cases hts
      obtain ⟨hcount, hspread⟩ := s.fifoStaged.pop_sample (c := c) hts
      have hxsensor := h.sensors x (by rw [hs]; exact List.mem_cons_self ..) hts
      have hself : isSampleOf x.sensor x = true := by simp [isSampleOf, hts]
      have hold : (s.fifoStaged.sampleCount x.sensor).toNat = samples x.sensor (staged c s') + 1 := by
        rw [hcounts, if_pos htight, samples_cons, hself]
        rfl
      have hnew : (s.fifoStaged.sampleCount x.sensor - 1).toNat = samples x.sensor (staged c s') := by
        rw [BitVec.toNat_sub_of_le, hold]
        · rfl
        · rw [BitVec.le_def, hold]
          exact Nat.le_add_left 1 _
      refine ⟨⟨?_, ?_⟩, hx.valid, hsensors⟩
      · intro n
        rw [hmeta, hcount, if_pos htight]
        by_cases hn : n = x.sensor
        · rw [hn, update_same, hnew]
        · have hother : isSampleOf n x = false := by simp [isSampleOf, Ne.symm hn]
          rw [update_other _ _ hn, hcounts, if_pos htight, samples_cons, hother]
          rfl
      · rw [hmeta, hcount, hspread]
        split
        · simp only [List.any_eq_true, List.mem_range, decide_eq_true_eq]
        · -- The sensor has at least two samples left, so there was spreading before.
          rename_i hmany
          have htwo : s.fifoStaged.sampleCount x.sensor - 1 > 1 := by
            rw [BitVec.lt_def, hnew] at hmany
            rw [gt_iff_lt, BitVec.lt_def, hnew]
            exact Nat.not_lt.mp hmany
          have hbefore : s.fifoStaged.requiresSpreading = true := by
            refine h.requiresSpreading.mpr ⟨x.sensor, hxsensor, ?_⟩
            rw [gt_iff_lt, BitVec.lt_def, hnew] at htwo
            rw [gt_iff_lt, BitVec.lt_def, hold]
            exact Nat.lt_succ_of_lt htwo
          refine iff_of_true hbefore ⟨x.sensor, hxsensor, ?_⟩
          rw [update_same]
          exact htwo

theorem Pops.tallied (htight : c.tightTimestamps = true) {xs : List SensorData} (h : Pops c xs s s')
    (ht : Tallied c s) : Tallied c s' := by
  induction h with
  | nil => exact ht
  | cons hx _ ih =>
    refine ih (ht.popped hx ?_)
    intro hnot
    rw [htight] at hnot
    cases hnot

theorem Tallied.ensureSpace {data : SensorData} (h : Tallied c s) (hfits : Fits c data s) :
    Tallied c (fifoEnsureSpace c s) := by
  obtain ⟨-, hsame | ⟨hfull, xs, hne, henough⟩⟩ := fifoEnsureSpace_spec h.valid
  · rw [hsame]
    exact h
  · cases htight : c.tightTimestamps with
    | true => exact henough.pops.tallied htight h
    | false =>
      -- Without tight timestamps one entry is dropped.
      have hpops := henough.pops
      have hpending := henough.pops.pending
      obtain ⟨x, rest, rfl⟩ := List.exists_cons_of_ne_nil hne
      have hnil : rest = [] := by
        apply List.eq_nil_of_length_eq_zero
        by_contra hlen
        obtain ⟨y, hy⟩ := List.exists_mem_of_length_pos (Nat.pos_of_ne_zero hlen)
        have htight' := (henough.more y hy).1
        rw [htight] at htight'
        cases htight'
      subst hnil
      generalize fifoEnsureSpace c s = s' at hpops hpending
      cases hpops with
      | cons hx hlast =>
        cases hlast with
        | nil _ =>
          refine h.popped hx fun _ hcommitted => hfits.pop htight hfull hcommitted x ?_
          rw [hcommitted, List.nil_append] at hpending
          rw [hpending]
          rfl

/-! ## Staging -/

theorem FifoStaged.push_uncounted (staged : FifoStaged) {x : SensorData}
    (h : c.tightTimestamps = false ∨ isTimestamp x = true) :
    (staged.push c x).sampleCount = staged.sampleCount ∧
      (staged.push c x).requiresSpreading = staged.requiresSpreading := by
  have hnot : (c.tightTimestamps && !isTimestamp x) = false := by
    obtain h | h := h
    · rw [h, Bool.false_and]
    · rw [h, Bool.not_true, Bool.and_false]
  simp [FifoStaged.push, hnot]

theorem FifoStaged.push_sample (staged : FifoStaged) {x : SensorData} (htight : c.tightTimestamps = true)
    (h : isTimestamp x = false) :
    (staged.push c x).sampleCount =
        update staged.sampleCount x.sensor (staged.sampleCount x.sensor + 1) ∧
      (staged.push c x).requiresSpreading =
        (decide (staged.sampleCount x.sensor + 1 > 1) || staged.requiresSpreading) := by
  simp only [FifoStaged.push, htight, h, Bool.not_false, Bool.and_self, if_true, update_same]
  split
  · rename_i hmany
    exact ⟨rfl, by rw [decide_eq_true hmany, Bool.true_or]⟩
  · rename_i hmany
    exact ⟨rfl, by rw [decide_eq_false hmany, Bool.false_or]⟩

theorem samples_append (n : Nat) (x : SensorData) (xs : List SensorData) :
    samples n (xs ++ [x]) = samples n xs + if isSampleOf n x then 1 else 0 := by
  rw [samples, List.countP_append, List.countP_singleton]
  rfl

theorem samples_eq_zero {xs : List SensorData} (h : ∀ x ∈ xs, isTimestamp x = true) (n : Nat) :
    samples n xs = 0 := by
  rw [samples, List.countP_eq_zero]
  intro x hx
  rw [samples_timestamp (h x hx)]
  exact Bool.false_ne_true

theorem Wrote.sensors {x : SensorData} (hx : Wrote c x s s')
    (h : ∀ y ∈ MotionSense.staged c s, isTimestamp y = false → y.sensor < c.maxMotionSensors)
    (hsensor : isTimestamp x = false → x.sensor < c.maxMotionSensors) :
    ∀ y ∈ MotionSense.staged c s', isTimestamp y = false → y.sensor < c.maxMotionSensors := by
  intro y hy
  rw [hx.staged] at hy
  split at hy
  · cases hy
  · obtain hy | hy := List.mem_append.mp hy
    · exact h y hy
    · rw [List.mem_singleton.mp hy]
      exact hsensor

/-- A timestamp, or any entry without tight timestamps, is not counted. -/
theorem Tallied.wrote_uncounted {x : SensorData} (h : Tallied c s) (hx : Wrote c x s s')
    (hsensor : isTimestamp x = false → x.sensor < c.maxMotionSensors)
    (huncounted : c.tightTimestamps = false ∨ isTimestamp x = true)
    (hcount : c.tightTimestamps = true → s.fifoStaged.count = 0xffff →
      ∀ y ∈ staged c s, isTimestamp y = true) : Tallied c s' := by
  have hmeta : s'.fifoStaged = s.fifoStaged.push c x := by rw [hx.rest]
  obtain ⟨hsame, hspread⟩ := s.fifoStaged.push_uncounted huncounted
  refine ⟨⟨?_, ?_⟩, hx.valid, hx.sensors h.sensors hsensor⟩
  · intro n
    rw [hmeta, hsame, h.sampleCount]
    cases htight : c.tightTimestamps with
    | false => rfl
    | true =>
      have hts : isTimestamp x = true := by
        obtain hnot | hts := huncounted
        · rw [htight] at hnot
          cases hnot
        · exact hts
      rw [if_pos rfl, if_pos rfl, hx.staged]
      split
      · rename_i hwraps
        rw [samples_eq_zero (hcount htight hwraps)]
        rfl
      · rw [samples_append, samples_timestamp hts]
        rfl
  · rw [hmeta, hsame, hspread]
    exact h.requiresSpreading

theorem Tallied.wrote_sample {x : SensorData} (h : Tallied c s) (hx : Wrote c x s s')
    (htight : c.tightTimestamps = true) (hts : isTimestamp x = false) (hsensor : x.sensor < c.maxMotionSensors)
    (hsamples : samples x.sensor (staged c s) < 255) (hcount : s.fifoStaged.count ≠ 0xffff) :
    Tallied c s' := by
  have hmeta : s'.fifoStaged = s.fifoStaged.push c x := by rw [hx.rest]
  have hstaged : staged c s' = staged c s ++ [x] := by rw [hx.staged, if_neg hcount]
  obtain ⟨hcounts, hspread⟩ := s.fifoStaged.push_sample htight hts
  have hold : (s.fifoStaged.sampleCount x.sensor).toNat = samples x.sensor (staged c s) := by
    rw [h.sampleCount, if_pos htight]
  have hnew : (s.fifoStaged.sampleCount x.sensor + 1).toNat = samples x.sensor (staged c s) + 1 := by
    rw [BitVec.toNat_add, hold]
    exact Nat.mod_eq_of_lt (Nat.succ_lt_succ hsamples)
  refine ⟨⟨?_, ?_⟩, hx.valid, hx.sensors h.sensors fun _ => hsensor⟩
  · intro n
    rw [hmeta, hcounts, if_pos htight, hstaged, samples_append]
    by_cases hn : n = x.sensor
    · have hself : isSampleOf x.sensor x = true := by simp [isSampleOf, hts]
      rw [hn, update_same, hnew, hself]
      rfl
    · have hother : isSampleOf n x = false := by simp [isSampleOf, Ne.symm hn]
      rw [update_other _ _ hn, h.sampleCount, if_pos htight, hother]
      rfl
  · rw [hmeta, hcounts, hspread, Bool.or_eq_true, decide_eq_true_eq]
    constructor
    · rintro (hmany | hbefore)
      · exact ⟨x.sensor, hsensor, by rw [update_same]; exact hmany⟩
      · obtain ⟨n, hn, hmany⟩ := h.requiresSpreading.mp hbefore
        refine ⟨n, hn, ?_⟩
        by_cases hx : n = x.sensor
        · rw [hx, gt_iff_lt, BitVec.lt_def, hold] at hmany
          rw [hx, update_same, gt_iff_lt, BitVec.lt_def, hnew]
          exact Nat.lt_succ_of_lt hmany
        · rw [update_other _ _ hx]
          exact hmany
    · rintro ⟨n, hn, hmany⟩
      by_cases hx : n = x.sensor
      · rw [hx, update_same] at hmany
        exact .inl hmany
      · rw [update_other _ _ hx] at hmany
        exact .inr (h.requiresSpreading.mpr ⟨n, hn, hmany⟩)

theorem flagged_eq (e : Env) (data : SensorData) :
    (flagged c e data).sensor = data.sensor ∧ isTimestamp (flagged c e data) = isTimestamp data :=
  ⟨flagged_sensor e data, isTimestamp_flagged e data⟩

theorem Tallied.writeUnit (h : Tallied c s) (e : Env) {data : SensorData}
    (hsensor : isTimestamp data = false → data.sensor < c.maxMotionSensors) (hfits : Fits c data s) :
    Tallied c (writeUnit c e data s) := by
  have hspaced := h.ensureSpace hfits
  have hwrote := writeUnit_wrote h.valid e data
  obtain ⟨hsame, hts⟩ := flagged_eq (c := c) e data
  have hsensor' : isTimestamp (flagged c e data) = false → (flagged c e data).sensor < c.maxMotionSensors := by
    rw [hsame, hts]
    exact hsensor
  by_cases huncounted : c.tightTimestamps = false ∨ isTimestamp (flagged c e data) = true
  · exact hspaced.wrote_uncounted hwrote hsensor' huncounted
      fun htight hwraps => (hfits.count htight hwraps).2
  · simp only [not_or, Bool.not_eq_false, Bool.not_eq_true] at huncounted
    obtain ⟨htight, hnot⟩ := huncounted
    have hnot' : isTimestamp data = false := hts.symm.trans hnot
    refine hspaced.wrote_sample hwrote htight hnot (hsensor' hnot) ?_ ?_
    · rw [hsame]
      exact hfits.samples htight hnot'
    · intro hwraps
      have hstamp := (hfits.count htight hwraps).1
      rw [hnot'] at hstamp
      cases hstamp

end

/-! ## Runs -/

section

variable (c : Config w)

/-- The state in which `fifo_stage_unit` makes space, if it gets there. -/
def beforeSpace (data : SensorData) (sensor : Option Nat) (validData : Nat) (s : St w) : Option (St w) :=
  if validData == 0 then some (sightTimestamp c data s)
  else
    match sensor with
    | none => none
    | some i =>
      let (removed, s) := oversample i (sightTimestamp c data s)
      if removed then none else some s

def UnitFits (data : SensorData) (sensor : Option Nat) (validData : Nat) (s : St w) : Prop :=
  ∀ s₁ ∈ beforeSpace c data sensor validData s, Fits c data s₁

variable {c}

/-- The entries of a call can be staged without a count leaving its range. -/
def CallFits (e : Env) (s : St w) : Call c → Prop
  | .stageData data _ sensor validData time =>
    (c.tightTimestamps = true → UnitFits c ⟨flagTimestamp, data.sensorNum, e.reserved, time⟩ none 0 s) ∧
      UnitFits c data sensor validData (noteInterrupt data sensor time
        (if c.tightTimestamps then fifoStageTimestamp c e time data.sensorNum s else s))
  | .addTimestamp timestamp => UnitFits c ⟨flagTimestamp, 0xff, e.reserved, timestamp⟩ none 0 s
  | .insertAsyncEvent sensor event =>
    UnitFits c ⟨event.flags, sensor, e.reserved, e.hwClockSourceRead⟩ (some sensor.toNat) 0 s
  | _ => True

def RunFits (s : St w) : List (Env × Call c) → Prop
  | [] => True
  | i :: is => CallFits i.1 s i.2 ∧ RunFits (step s i) is

end

section

variable {c : Config w} {s s' : St w}

theorem Tallied.congr (h : Tallied c s) (hvalid : Valid c s') (hstaged : staged c s' = staged c s)
    (hmeta : s'.fifoStaged = s.fifoStaged) : Tallied c s' := by
  refine ⟨⟨?_, ?_⟩, hvalid, ?_⟩
  · rw [hmeta, hstaged]
    exact h.sampleCount
  · rw [hmeta]
    exact h.requiresSpreading
  · rw [hstaged]
    exact h.sensors

theorem tallied_empty (hvalid : Valid c s) (hstaged : staged c s = [])
    (hmeta : s.fifoStaged = ⟨0, fun _ => 0, false⟩) : Tallied c s := by
  refine ⟨⟨?_, ?_⟩, hvalid, ?_⟩
  · intro n
    rw [hmeta, hstaged]
    split
    · rfl
    · rfl
  · rw [hmeta]
    simp
  · rw [hstaged]
    intro x hx
    cases hx

theorem Tallied.prepared {data : SensorData} {s₁ : St w} (h : Tallied c s) (hp : Prepared c data s s₁) :
    Tallied c s₁ := by
  rw [hp, sightTimestamp_eq]
  exact h.congr h.valid rfl rfl

/-- Space is made and the entry written, or nothing is staged. -/
theorem fifoStageUnit_spaced (e : Env) (data : SensorData) (sensor : Option Nat) (validData : Nat) (s : St w) :
    (∃ s₁ ∈ beforeSpace c data sensor validData s, Prepared c data s s₁ ∧
        fifoStageUnit c e data sensor validData s = writeUnit c e data s₁) ∨
      fifoStageUnit c e data sensor validData s = s ∨
        Prepared c data s (fifoStageUnit c e data sensor validData s) := by
  unfold fifoStageUnit beforeSpace
  split
  · exact .inl ⟨_, rfl, by rw [Prepared], rfl⟩
  · split
    · exact .inr (.inl rfl)
    · dsimp only
      split
      · exact .inr (.inr (oversample_eq _ _))
      · exact .inl ⟨_, rfl, oversample_eq _ _, rfl⟩

theorem Tallied.stageUnit (h : Tallied c s) (e : Env) {data : SensorData} (sensor : Option Nat)
    (validData : Nat) (hsensor : isTimestamp data = false → data.sensor < c.maxMotionSensors)
    (hfits : UnitFits c data sensor validData s) : Tallied c (fifoStageUnit c e data sensor validData s) := by
  obtain ⟨s₁, hs₁, hp, heq⟩ | hsame | hp := fifoStageUnit_spaced (c := c) e data sensor validData s
  · rw [heq]
    exact (h.prepared hp).writeUnit e hsensor (hfits s₁ hs₁)
  · rw [hsame]
    exact h
  · exact h.prepared hp

theorem Tallied.stageStamp (h : Tallied c s) (e : Env) {data : SensorData} (sensor : Option Nat)
    (hts : isTimestamp data = true) (hfits : UnitFits c data sensor 0 s) :
    Tallied c (fifoStageUnit c e data sensor 0 s) := by
  refine h.stageUnit e sensor 0 ?_ hfits
  intro hnot
  rw [hts] at hnot
  cases hnot

theorem Tallied.commitData (h : Tallied c s) : Tallied c (motionSenseFifoCommitData c s) := by
  by_cases hcount : s.fifoStaged.count = 0
  · rw [motionSenseFifoCommitData, if_pos (by simpa using hcount)]
    exact h
  · obtain ⟨s₀, s₁, hc⟩ := commitData_commits h.valid hcount
    exact tallied_empty hc.valid hc.staged (by rw [hc.rest])

theorem call_tallied (e : Env) (h : Tallied c s) (i : Call c) (hfits : CallFits e s i) :
    Tallied c (call e s i) := by
  cases i with
  | stageData data hvalid sensor validData time =>
    obtain ⟨hstampFits, hdataFits⟩ := hfits
    have hstamped : Tallied c
        (if c.tightTimestamps then fifoStageTimestamp c e time data.sensorNum s else s) := by
      split
      · rename_i htight
        exact h.stageStamp e none (isTimestamp_stamp e time data.sensorNum) (hstampFits htight)
      · exact h
    have hnoted : Tallied c (noteInterrupt data sensor time
        (if c.tightTimestamps then fifoStageTimestamp c e time data.sensorNum s else s)) := by
      apply hstamped.congr
      · rw [noteInterrupt_eq]
        exact hstamped.valid
      · rw [noteInterrupt_eq]
        rfl
      · rw [noteInterrupt_eq]
    exact hnoted.stageUnit e sensor validData (fun _ => hvalid) hdataFits
  | addTimestamp timestamp =>
    exact (h.stageStamp e none (isTimestamp_stamp e timestamp 0xff) hfits).commitData
  | insertAsyncEvent sensor event =>
    exact (h.stageStamp e (some sensor.toNat) (isTimestamp_async e sensor event) hfits).commitData
  | commitData => exact h.commitData
  | read capacityBytes maxCount out =>
    have hr := read_reads h.valid capacityBytes maxCount out
    exact h.congr hr.valid hr.staged (by simp only [call]; rw [hr.rest])
  | getInfo reset =>
    cases reset with
    | false => exact h
    | true => exact h.congr h.valid rfl rfl
  | resetNeededFlags =>
    simp only [call, motionSenseFifoResetNeededFlags]
    split
    · exact h.congr h.valid rfl rfl
    · exact h.congr h.valid rfl rfl
  | setDataPeriod sensorNum dataPeriod => exact h.congr h.valid rfl rfl
  | fifoReset =>
    obtain ⟨hvalid, -, hstaged⟩ := empty_queueInit (c := c) (s := call e s .fifoReset) s.fifo rfl rfl
    exact tallied_empty hvalid hstaged rfl
  | configure sensor m => exact h.congr h.valid rfl rfl

theorem run_tallied (h : Tallied c s) (is : List (Env × Call c)) (hfits : RunFits s is) :
    Tallied c (run s is) := by
  induction is generalizing s with
  | nil => exact h
  | cons i is ih =>
    have hcall := call_tallied i.1 h i.2 hfits.1
    exact ih (hcall.congr hcall.valid rfl rfl) hfits.2

theorem RunFits.take {is : List (Env × Call c)} (h : RunFits s is) (k : Nat) : RunFits s (is.take k) := by
  induction is generalizing s k with
  | nil =>
    rw [List.take_nil]
    exact h
  | cons i is ih =>
    cases k with
    | zero => exact trivial
    | succ k => exact ⟨h.1, ih h.2 k⟩

end

theorem tallied_initial {c : Config w} (buffer : Queue.Mem) : Tallied c (initial buffer) := by
  obtain ⟨hvalid, -, hstaged⟩ := empty_queueInit (c := c) (s := initial buffer)
    ⟨0, 0, false, buffer, [], []⟩ rfl rfl
  exact tallied_empty hvalid hstaged rfl

/-- While no count leaves its range the metadata is right, in every state of the run. -/
theorem metadata_of_fits {c : Config w} (buffer : Queue.Mem) (is : List (Env × Call c))
    (hfits : RunFits (initial buffer) is) (k : Nat) : Metadata c (run (initial buffer) (is.take k)) :=
  (run_tallied (tallied_initial buffer) (is.take k) (hfits.take k)).toMetadata

/-! ## Small buffers with tight timestamps -/

section

variable {c : Config w} {s : St w} (htight : c.tightTimestamps = true) (hcap : c.fifo.cap < 256)

include htight hcap

/-- A small buffer does not hold enough entries for a count to leave its range. -/
theorem fits_of_small (h : Valid c s) (data : SensorData) : Fits c data s := by
  have hspace := (fifoEnsureSpace_spec h).1
  have hlen : (staged c (fifoEnsureSpace c s)).length < 255 := by
    rw [List.length_append] at hspace
    omega
  refine ⟨?_, ?_, ?_⟩
  · intro _ _
    exact Nat.lt_of_le_of_lt List.countP_le_length hlen
  · intro _ hwraps
    rw [length_staged, hwraps] at hlen
    exact absurd hlen (by decide)
  · intro hnot
    rw [htight] at hnot
    cases hnot

theorem unitFits_of_small (h : Tallied c s) (data : SensorData) (sensor : Option Nat) (validData : Nat) :
    UnitFits c data sensor validData s := by
  intro s₁ hs₁
  have hvalid : Valid c s₁ := by
    unfold beforeSpace at hs₁
    split at hs₁
    · cases hs₁
      rw [sightTimestamp_eq]
      exact h.valid
    · split at hs₁
      · cases hs₁
      · dsimp only at hs₁
        split at hs₁
        · cases hs₁
        · cases hs₁
          rw [oversample_eq, sightTimestamp_eq]
          exact h.valid
  exact fits_of_small htight hcap hvalid data

theorem callFits_of_small (e : Env) (h : Tallied c s) (i : Call c) : CallFits e s i := by
  cases i with
  | stageData data hvalid sensor validData time =>
    have hstampFits := unitFits_of_small htight hcap h ⟨flagTimestamp, data.sensorNum, e.reserved, time⟩ none 0
    have hstamped := h.stageStamp e none (isTimestamp_stamp e time data.sensorNum) hstampFits
    refine ⟨fun _ => hstampFits, unitFits_of_small htight hcap ?_ data sensor validData⟩
    rw [if_pos htight]
    exact hstamped.congr (by rw [noteInterrupt_eq]; exact hstamped.valid)
      (by rw [noteInterrupt_eq]; rfl) (by rw [noteInterrupt_eq]; rfl)
  | addTimestamp timestamp => exact unitFits_of_small htight hcap h _ none 0
  | insertAsyncEvent sensor event => exact unitFits_of_small htight hcap h _ (some sensor.toNat) 0
  | _ => exact trivial

theorem runFits_of_small (h : Tallied c s) (is : List (Env × Call c)) : RunFits s is := by
  induction is generalizing s with
  | nil => exact trivial
  | cons i is ih =>
    have hfits := callFits_of_small htight hcap i.1 h i.2
    have hcall := call_tallied i.1 h i.2 hfits
    exact ⟨hfits, ih (hcall.congr hcall.valid rfl rfl)⟩

end

theorem metadata_of_fits_overflow :
    RunFits (initial fun _ => 0) overflow ∧
      ∀ k, Metadata (narrowConfig true) (run (initial fun _ => 0) (overflow.take k)) := by
  have hfits : RunFits (initial fun _ => 0) overflow :=
    runFits_of_small rfl (by decide) (tallied_initial fun _ => 0) overflow
  exact ⟨hfits, metadata_of_fits (fun _ => 0) overflow hfits⟩

/-- The third sample of a buffer of two drops the first, which is not counted. -/
theorem metadata_wrong :
    ((run (initial fun _ => 0) (List.replicate 3 (sample false))).fifoStaged.sampleCount 0).toNat = 255 ∧
      ¬Metadata (narrowConfig false) (run (initial fun _ => 0) (List.replicate 3 (sample false))) := by
  have hcount : ((run (initial fun _ => 0)
      (List.replicate 3 (sample false))).fifoStaged.sampleCount 0).toNat = 255 := by
    decide +kernel
  refine ⟨hcount, fun h => ?_⟩
  have hzero := h.sampleCount 0
  rw [hcount] at hzero
  cases hzero

end ChromeEc.MotionSense
