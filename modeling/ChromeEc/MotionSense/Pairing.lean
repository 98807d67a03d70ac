import ChromeEc.MotionSense.Conservation

/- Data and its timestamp.

  With tight timestamps a sample is staged as a timestamp and the data behind it. Where the
  buffer overflows, the loop of `fifo_ensure_space` drops entries up to the next timestamp,
  so that what is left begins with one; the AP may have read the timestamp of dropped data,
  never the other way round.

  What is proved: of all entries that were not dropped, read ones included, each is a
  timestamp or stands right behind the one that was staged with it (`Paired`). The
  timestamp of a sample survives making space for the data, for which two entries are
  enough (`Paired.ensureSpace`). -/
namespace ChromeEc.MotionSense
open Lib

variable {w : Nat}

def Stamps (written : List (SensorData × Nat)) (i : Nat) : Prop :=
  ∃ y, written[i]? = some y ∧ isTimestamp y.1 = true

/-- Entry `i` is a timestamp and entry `j` was staged right behind it, for the same sensor and
by the same call. -/
def Pairs (written : List (SensorData × Nat)) (i j : Nat) : Prop :=
  j = i + 1 ∧ ∃ t x k, written[i]? = some (t, k) ∧ written[j]? = some (x, k) ∧
    isTimestamp t = true ∧ t.sensorNum = x.sensorNum

/-- The books are kept, and no data is without its timestamp. -/
structure Paired (c : Config w) (s : St w) (b : Belt) : Prop where
  kept : Kept c s b
  tied : Tied (Stamps s.written) (Pairs s.written) b.line

/-- The newest entry is a timestamp of the sensor, staged by this call. -/
def Fresh (s : St w) (b : Belt) (sensorNum : BitVec 8) : Prop :=
  ∃ i t, i ∈ b.waiting.getLast? ∧ i + 1 = s.written.length ∧ s.written[i]? = some (t, s.calls) ∧
    isTimestamp t = true ∧ t.sensorNum = sensorNum

section

variable {c : Config w} {s s' : St w} {b b' : Belt}

theorem getElem?_append_some {α : Type} {l : List α} {i : Nat} {a : α} (h : l[i]? = some a) (b : α) :
    (l ++ [b])[i]? = some a := by
  rw [List.getElem?_append_left (List.getElem?_eq_some_iff.mp h).1]
  exact h

theorem Stamps.append {written : List (SensorData × Nat)} {i : Nat} (h : Stamps written i)
    (y : SensorData × Nat) : Stamps (written ++ [y]) i := by
  obtain ⟨z, hz, hts⟩ := h
  exact ⟨z, getElem?_append_some hz y, hts⟩

theorem Pairs.append {written : List (SensorData × Nat)} {i j : Nat} (h : Pairs written i j)
    (y : SensorData × Nat) : Pairs (written ++ [y]) i j := by
  obtain ⟨hj, t, x, k, ht, hx, hts, hsensor⟩ := h
  exact ⟨hj, t, x, k, getElem?_append_some ht y, getElem?_append_some hx y, hts, hsensor⟩

theorem Is.stamps {written : List (SensorData × Nat)} {i : Nat} {x : SensorData} (h : Is written i x) :
    Stamps written i ↔ isTimestamp x = true := by
  obtain ⟨y, hy, hyx⟩ := h
  constructor
  · rintro ⟨z, hz, hts⟩
    rw [Option.some.inj (hy.symm.trans hz)] at hyx
    rw [hyx.isTimestamp]
    exact hts
  · intro hts
    exact ⟨y, hy, by rw [← hyx.isTimestamp]; exact hts⟩

theorem Books.waiting (h : Books c s b) :
    List.Forall₂ (Is s.written) b.waiting (MotionSense.committed c s ++ MotionSense.staged c s) :=
  List.rel_append h.committed h.staged

theorem Paired.stays (h : Paired c s b) (hs : Stays c s s' b b') : Paired c s' b' := by
  refine ⟨hs.kept, ?_⟩
  rw [hs.written, hs.line]
  exact h.tied

theorem Pops.written {xs : List SensorData} (h : Pops c xs s s') :
    s'.written = s.written ∧ s'.calls = s.calls := by
  induction h with
  | nil => exact ⟨rfl, rfl⟩
  | cons hx _ ih =>
    have hfirst := hx.rest
    rw [ih.1, ih.2, hfirst]
    exact ⟨rfl, rfl⟩

/-! ## Making space -/

theorem head?_forall₂ {α β : Type} {R : α → β → Prop} {xs : List α} {ys : List β}
    (h : List.Forall₂ R xs ys) {a : α} (ha : a ∈ xs.head?) : ∃ y ys', ys = y :: ys' ∧ R a y := by
  cases h with
  | nil => cases ha
  | cons hxy hrest =>
    cases ha
    exact ⟨_, _, rfl, hxy⟩

theorem getLast?_forall₂ {α β : Type} {R : α → β → Prop} {xs : List α} {ys : List β}
    (h : List.Forall₂ R xs ys) {a : α} (ha : a ∈ xs.getLast?) : ∃ y, y ∈ ys.getLast? ∧ R a y := by
  rw [Option.mem_def, List.getLast?_eq_getElem?] at ha
  obtain ⟨y, hy, hay⟩ := forall₂_getElem? h ha
  exact ⟨y, by rw [Option.mem_def, List.getLast?_eq_getElem?, ← h.length_eq]; exact hy, hay⟩

theorem mem_tail_of_getLast? {α : Type} {l : List α} {a : α} (hlen : 2 ≤ l.length) (ha : a ∈ l.getLast?) :
    a ∈ l.tail := by
  match l with
  | x :: y :: rest =>
    rw [Option.mem_def, List.getLast?_cons_cons] at ha
    exact List.mem_of_getLast? ha

theorem Paired.enough (hcap : c.fifo.cap < 2 ^ 16) (htight : c.tightTimestamps = true) (h : Paired c s b)
    {xs : List SensorData} (henough : Enough c xs s s') : Paired c s' (Belt.drop^[xs.length] b) := by
  have hkept := henough.pops.kept h.kept
  obtain ⟨hreturned, hwaiting⟩ := Belt.drops (b := b) xs.length
  have hsplit : b.line = b.returned ++ (b.waiting.take xs.length ++ b.waiting.drop xs.length) := by
    rw [List.take_append_drop, Belt.line]
  refine ⟨hkept, ?_⟩
  have htied := h.tied
  rw [hsplit] at htied
  rw [Belt.line, hreturned, hwaiting, henough.pops.written.1]
  refine htied.cut fun i hi => ?_
  rw [← hwaiting] at hi
  obtain ⟨x, rest, hx, his⟩ := head?_forall₂ (hkept.books hcap).waiting hi
  rw [henough.pops.written.1] at his
  exact his.stamps.mpr (henough.stops htight x rest hx)

/-- If the newest entry is a timestamp it is not dropped: it would be one after the first. -/
theorem Enough.left (hcap : 2 ≤ c.fifo.cap) (hfull : (committed c s ++ staged c s).length = c.fifo.cap)
    {t : SensorData} (hlast : t ∈ (committed c s ++ staged c s).getLast?) (hts : isTimestamp t = true)
    {xs : List SensorData} (henough : Enough c xs s s') : committed c s' ++ staged c s' ≠ [] := by
  intro hrest
  have hpending := henough.pops.pending
  rw [hrest, List.append_nil] at hpending
  rw [hpending] at hlast hfull
  have hlater : t ∈ xs.tail := mem_tail_of_getLast? (by omega) hlast
  rw [(henough.more t hlater).2] at hts
  cases hts

/-- Making space for the data leaves its timestamp. -/
theorem Fresh.enough (hcap : 2 ≤ c.fifo.cap) (hcap' : c.fifo.cap < 2 ^ 16) {sensorNum : BitVec 8}
    (h : Kept c s b) (hfresh : Fresh s b sensorNum)
    (hfull : (committed c s ++ staged c s).length = c.fifo.cap) {xs : List SensorData}
    (henough : Enough c xs s s') : Fresh s' (Belt.drop^[xs.length] b) sensorNum := by
  obtain ⟨i, t, hlast, hlen, ht, hts, hsensor⟩ := hfresh
  obtain ⟨hwritten, hcalls⟩ := henough.pops.written
  rw [← hwritten] at hlen ht
  rw [← hcalls] at ht
  refine ⟨i, t, ?_, hlen, ht, hts, hsensor⟩
  have hwaiting := (h.books hcap').waiting
  obtain ⟨x, hx, his⟩ := getLast?_forall₂ hwaiting hlast
  have hstamp : isTimestamp x = true := by
    refine his.stamps.mp ⟨(t, s.calls), ?_, hts⟩
    rw [← hcalls, ← hwritten]
    exact ht
  have hleft : ¬b.waiting.length ≤ xs.length := by
    intro hge
    rw [hwaiting.length_eq, henough.pops.pending, List.length_append] at hge
    exact henough.left hcap hfull hx hstamp (List.eq_nil_of_length_eq_zero (by omega))
  rw [(Belt.drops xs.length).2, Option.mem_def, List.getLast?_drop, if_neg hleft]
  exact hlast

theorem Paired.ensureSpace (hcap : 2 ≤ c.fifo.cap) (hcap' : c.fifo.cap < 2 ^ 16)
    (htight : c.tightTimestamps = true) (h : Paired c s b) :
    ∃ b', Paired c (fifoEnsureSpace c s) b' ∧
      ∀ sensorNum, Fresh s b sensorNum → Fresh (fifoEnsureSpace c s) b' sensorNum := by
  obtain ⟨-, hsame | ⟨hfull, xs, -, henough⟩⟩ := fifoEnsureSpace_spec h.kept.valid
  · rw [hsame]
    exact ⟨b, h, fun _ => id⟩
  · exact ⟨_, h.enough hcap' htight henough,
      fun _ hfresh => hfresh.enough hcap hcap' h.kept hfull henough⟩

end

/-! ## Staging -/

section

variable {c : Config w} {s s' : St w} {b b' : Belt}

/-- A timestamp may be written anywhere, data only behind its timestamp. -/
theorem Paired.wrote {x : SensorData} (h : Paired c s b)
    (hspace : (committed c s ++ staged c s).length < c.fifo.cap) (hx : Wrote c x s s')
    (hstamp : isTimestamp x = true ∨ Fresh s b x.sensorNum) :
    Paired c s' (b.write s.written.length) := by
  have hwritten : s'.written = s.written ++ [(x, s.calls)] := by rw [hx.rest]
  have hnew : (s.written ++ [(x, s.calls)])[s.written.length]? = some (x, s.calls) := by simp
  refine ⟨h.kept.wrote hspace hx, ?_⟩
  rw [hwritten, Belt.line_write]
  have htied := h.tied.mono (fun _ hi => Stamps.append hi (x, s.calls))
    (fun _ _ hij => Pairs.append hij (x, s.calls))
  refine htied.snoc ?_
  obtain hts | ⟨i, t, hlast, hlen, ht, hts, hsensor⟩ := hstamp
  · exact .inl ⟨(x, s.calls), hnew, hts⟩
  · refine .inr ⟨i, ?_, hlen.symm, t, x, s.calls, getElem?_append_some ht _, hnew, hts, hsensor⟩
    rw [Option.mem_def, Belt.line, List.getLast?_append, Option.mem_def.mp hlast]
    rfl

theorem Wrote.fresh {x : SensorData} (hx : Wrote c x s s') (hts : isTimestamp x = true) :
    Fresh s' (b.write s.written.length) x.sensorNum := by
  have hwritten : s'.written = s.written ++ [(x, s.calls)] := by rw [hx.rest]
  have hcalls : s'.calls = s.calls := by rw [hx.rest]
  refine ⟨s.written.length, x, ?_, ?_, ?_, hts, rfl⟩
  · simp [Belt.write, Belt.waiting]
  · rw [hwritten, List.length_append]
    rfl
  · rw [hwritten, hcalls]
    simp

theorem Prepared.record {data : SensorData} {s₁ : St w} (hp : Prepared c data s s₁) :
    s₁.written = s.written ∧ s₁.calls = s.calls := by
  rw [hp, sightTimestamp_eq]
  exact ⟨rfl, rfl⟩

theorem Paired.prepared {data : SensorData} {s₁ : St w} (h : Paired c s b) (hp : Prepared c data s s₁) :
    Paired c s₁ b := by
  refine ⟨hp.kept h.kept, ?_⟩
  rw [hp.record.1]
  exact h.tied

theorem Fresh.of_eq {sensorNum : BitVec 8} (hfresh : Fresh s b sensorNum) (hwritten : s'.written = s.written)
    (hcalls : s'.calls = s.calls) : Fresh s' b sensorNum := by
  unfold Fresh
  rw [hwritten, hcalls]
  exact hfresh

end

section

variable {c : Config w} {s s' : St w} {b : Belt} (hcap : 2 ≤ c.fifo.cap) (hcap' : c.fifo.cap < 2 ^ 16)
  (htight : c.tightTimestamps = true)

include hcap hcap' htight

theorem Paired.writeUnit (h : Paired c s b) (e : Env) (data : SensorData)
    (hstamp : isTimestamp data = true ∨ Fresh s b data.sensorNum) :
    ∃ b', Paired c (writeUnit c e data s) b' ∧
      (isTimestamp data = true → Fresh (writeUnit c e data s) b' data.sensorNum) := by
  obtain ⟨b₁, h₁, hfresh⟩ := h.ensureSpace hcap hcap' htight
  have hspace := (fifoEnsureSpace_spec h.kept.valid).1
  have hwrote := writeUnit_wrote h.kept.valid e data
  have hsensor : (flagged c e data).sensorNum = data.sensorNum :=
    BitVec.eq_of_toNat_eq (flagged_sensor e data)
  refine ⟨_, h₁.wrote hspace hwrote ?_, ?_⟩
  · rw [isTimestamp_flagged, hsensor]
    exact hstamp.imp id (hfresh data.sensorNum)
  · intro hts
    rw [← hsensor]
    exact hwrote.fresh ((isTimestamp_flagged e data).trans hts)

theorem Paired.stageTimestamp (h : Paired c s b) (e : Env) (time : BitVec 32) (sensorNum : BitVec 8) :
    ∃ b', Paired c (fifoStageTimestamp c e time sensorNum s) b' ∧
      Fresh (fifoStageTimestamp c e time sensorNum s) b' sensorNum := by
  have hstamp := isTimestamp_stamp e time sensorNum
  have hp : Prepared c ⟨flagTimestamp, sensorNum, e.reserved, time⟩ s
      (sightTimestamp c ⟨flagTimestamp, sensorNum, e.reserved, time⟩ s) := by
    rw [Prepared]
  obtain ⟨b', hpaired, hfresh⟩ := (h.prepared hp).writeUnit hcap hcap' htight e _ (.inl hstamp)
  rw [fifoStageTimestamp_eq]
  exact ⟨b', hpaired, hfresh hstamp⟩

theorem Paired.stageUnit (h : Paired c s b) (e : Env) (data : SensorData) (sensor : Option Nat)
    (validData : Nat) (hstamp : isTimestamp data = true ∨ Fresh s b data.sensorNum) :
    ∃ b', Paired c (fifoStageUnit c e data sensor validData s) b' := by
  obtain hsame | ⟨s₁, hp, hs₁ | hs₁⟩ := fifoStageUnit_cases (c := c) e data sensor validData s
  · rw [hsame]
    exact ⟨b, h⟩
  · rw [hs₁]
    exact ⟨b, h.prepared hp⟩
  · rw [hs₁]
    obtain ⟨b', hpaired, -⟩ := (h.prepared hp).writeUnit hcap hcap' htight e data
      (hstamp.imp id fun hfresh => hfresh.of_eq hp.record.1 hp.record.2)
    exact ⟨b', hpaired⟩

/-! ## Runs -/

theorem call_paired (e : Env) (h : Paired c s b) (i : Call c) (hi : i.isFifoReset = false) :
    ∃ b', Paired c (call e s i) b' := by
  cases hstages : i.stages with
  | false =>
    obtain ⟨b', hstays⟩ := call_stays e h.kept i hi hstages
    exact ⟨b', h.stays hstays⟩
  | true =>
    cases i with
    | stageData data _ sensor validData time =>
      obtain ⟨b₁, h₁, hfresh⟩ := h.stageTimestamp hcap hcap' htight e time data.sensorNum
      simp only [call, motionSenseFifoStageData]
      rw [if_pos htight]
      -- Only the need for an interrupt is noted between the two.
      have hnote := noteInterrupt_eq data sensor time (fifoStageTimestamp c e time data.sensorNum s)
      refine Paired.stageUnit hcap hcap' htight (b := b₁) ⟨h₁.kept.noteInterrupt data sensor time, ?_⟩ e data
        sensor validData (.inr (hfresh.of_eq ?_ ?_))
      · rw [hnote]
        exact h₁.tied
      · rw [hnote]
      · rw [hnote]
    | addTimestamp timestamp =>
      obtain ⟨b₁, h₁, -⟩ := h.stageTimestamp hcap hcap' htight e timestamp 0xff
      obtain ⟨b', hstays⟩ := h₁.kept.commitData
      exact ⟨b', h₁.stays hstays⟩
    | insertAsyncEvent sensor event =>
      obtain ⟨b₁, h₁⟩ := h.stageUnit hcap hcap' htight e _ (some sensor.toNat) 0
        (.inl (isTimestamp_async e sensor event))
      obtain ⟨b', hstays⟩ := h₁.kept.commitData
      exact ⟨b', h₁.stays hstays⟩
    | _ => cases hstages

theorem run_paired (h : Paired c s b) (is : List (Env × Call c))
    (his : ∀ i ∈ is, i.2.isFifoReset = false) : ∃ b', Paired c (run s is) b' := by
  induction is generalizing s b with
  | nil => exact ⟨b, h⟩
  | cons i is ih =>
    obtain ⟨b₁, h₁⟩ := call_paired hcap hcap' htight i.1 h i.2 (his i (List.mem_cons_self ..))
    have hstep : Paired c (step s i) b₁ := ⟨h₁.kept.frame rfl, h₁.tied⟩
    exact ih hstep fun j hj => his j (List.mem_cons_of_mem i hj)

end

/-- Data at place `j` of what was returned stands behind the timestamp that was staged with
it: both have their numbers `k` and `k + 1`, for the same sensor and from the same call. -/
def HasTimestamp (s : St w) (b : Belt) (j : Nat) (x : SensorData) : Prop :=
  ∃ i t k, j = i + 1 ∧ s.returned[i]? = some t ∧ isTimestamp t = true ∧ t.sensorNum = x.sensorNum ∧
    b.returned[i]? = some k ∧ b.returned[j]? = some (k + 1) ∧ Pairs s.written k (k + 1)

theorem Is.sensorNum {written : List (SensorData × Nat)} {i : Nat} {x : SensorData} (h : Is written i x)
    {y : SensorData × Nat} (hy : written[i]? = some y) : x.sensorNum = y.1.sensorNum := by
  obtain ⟨z, hz, hzx⟩ := h
  rw [Option.some.inj (hy.symm.trans hz)]
  exact BitVec.eq_of_toNat_eq hzx.sensor

theorem Paired.hasTimestamp {c : Config w} {s : St w} {b : Belt} (h : Paired c s b)
    (hcap : c.fifo.cap < 2 ^ 16) {j : Nat} {x : SensorData} (hx : s.returned[j]? = some x)
    (hdata : isTimestamp x = false) : HasTimestamp s b j x := by
  have hreturned := (h.kept.books hcap).returned
  obtain ⟨m, hm, his⟩ := forall₂_getElem? (R := flip (Is s.written)) hreturned.flip hx
  have hnot : ¬Stamps s.written m := by
    rw [his.stamps, hdata]
    exact Bool.false_ne_true
  obtain ⟨i, k, hj, hk, hpair⟩ := (h.tied.left).before hm hnot
  obtain ⟨t, ht, hist⟩ := forall₂_getElem? hreturned hk
  obtain ⟨rfl, y, z, call, hy, hz, hts, hsensor⟩ := hpair
  refine ⟨i, t, k, hj, ht, hist.stamps.mp ⟨_, hy, hts⟩, ?_, hk, hm, rfl, y, z, call, hy, hz, hts, hsensor⟩
  rw [hist.sensorNum hy, his.sensorNum hz]
  exact hsensor

/-- Every data entry that was returned stands behind its timestamp. -/
theorem data_after_timestamp (c : Config w) (hcap : 2 ≤ c.fifo.cap) (hcap' : c.fifo.cap < 2 ^ 16)
    (htight : c.tightTimestamps = true) (buffer : Queue.Mem) (is : List (Env × Call c))
    (his : ∀ i ∈ is, i.2.isFifoReset = false) :
    ∃ b, Books c (run (initial buffer) is) b ∧
      ∀ j x, (run (initial buffer) is).returned[j]? = some x → isTimestamp x = false →
        HasTimestamp (run (initial buffer) is) b j x := by
  obtain ⟨b, h⟩ := run_paired hcap hcap' htight ⟨kept_initial buffer, tied_nil⟩ is his
  exact ⟨b, h.kept.books hcap', fun j x hx hdata => h.hasTimestamp hcap' hx hdata⟩

theorem data_after_timestamp_overflow :
    (2 ≤ (narrowConfig true).fifo.cap ∧ (narrowConfig true).fifo.cap < 2 ^ 16 ∧
        (narrowConfig true).tightTimestamps = true ∧ ∀ i ∈ overflow, i.2.isFifoReset = false) ∧
      (run (initial fun _ => 0) overflow).returned.map isTimestamp = [true, false] ∧
      ∃ b, Books (narrowConfig true) (run (initial fun _ => 0) overflow) b ∧
        ∀ j x, (run (initial fun _ => 0) overflow).returned[j]? = some x → isTimestamp x = false →
          HasTimestamp (run (initial fun _ => 0) overflow) b j x := by
  have hcap : 2 ≤ (narrowConfig true).fifo.cap := by decide
  have hcap' : (narrowConfig true).fifo.cap < 2 ^ 16 := by decide
  exact ⟨⟨hcap, hcap', rfl, overflow_calls⟩, by decide +kernel,
    data_after_timestamp (narrowConfig true) hcap hcap' rfl (fun _ => 0) overflow overflow_calls⟩

/-! ## A buffer as large as the count -/

theorem sensor_lt : (⟨0, 0, 0, 0⟩ : SensorData).sensor < wideConfig.maxMotionSensors := by decide

/-- A sample that is not checked for whether the AP needs it. -/
def needed : Env × Call wideConfig := (calmEnv, .stageData ⟨0, 0, 0, 0⟩ sensor_lt none 0 0)

def committing : Env × Call wideConfig := (calmEnv, .commitData)

def readingOne : Env × Call wideConfig := (calmEnv, .read 8 1 fun _ => 0)

/-- The count of staged entries wraps at the timestamp, and the data behind it is read. -/
def strayed : List (Env × Call wideConfig) :=
  List.replicate 65535 unneeded ++ [needed, committing, readingOne]

/-- Without anything committed or staged the entry is written where the buffer begins. -/
theorem writeUnit_alone {s : St 32} (hvalid : Valid wideConfig s) (hcommitted : committed wideConfig s = [])
    (hcount : s.fifoStaged.count = 0) (data : SensorData) :
    ∃ s', writeUnit wideConfig calmEnv data s = s' ∧ Valid wideConfig s' ∧ committed wideConfig s' = [] ∧
      staged wideConfig s' = [data] ∧ s'.fifoStaged.count = 1 ∧ s'.returned = s.returned := by
  have hstaged : staged wideConfig s = [] := by
    rw [← List.length_eq_zero_iff, length_staged, hcount]
    rfl
  have hspace : fifoEnsureSpace wideConfig s = s := by
    obtain ⟨-, hsame | ⟨hfull, -⟩⟩ := fifoEnsureSpace_spec hvalid
    · exact hsame
    · rw [hcommitted, hstaged] at hfull
      exact absurd hfull (by decide)
  have hwrote := writeUnit_wrote hvalid calmEnv data
  rw [hspace, flagged_wideConfig] at hwrote
  refine ⟨_, rfl, hwrote.valid, hwrote.committed.trans hcommitted, ?_, ?_, ?_⟩
  · rw [hwrote.staged, hcount, if_neg (by decide), hstaged]
    rfl
  · rw [hwrote.rest, push_count, hcount]
    rfl
  · rw [hwrote.rest]

theorem commitData_alone {s : St 32} (hvalid : Valid wideConfig s) (hcommitted : committed wideConfig s = [])
    {x : SensorData} (hstaged : staged wideConfig s = [x]) (hdata : isTimestamp x = false)
    (hcount : s.fifoStaged.count = 1) :
    ∃ s', motionSenseFifoCommitData wideConfig s = s' ∧ Valid wideConfig s' ∧
      committed wideConfig s' = [x] ∧ s'.returned = s.returned := by
  obtain ⟨s₀, s₁, hc⟩ := commitData_commits hvalid (by rw [hcount]; decide)
  have hstaged₀ : staged wideConfig s₀ = [x] := by
    rw [← hstaged, hc.check]
    rfl
  have hrestamped := hc.rounds.restamped
  rw [hstaged₀] at hrestamped
  obtain ⟨y, ys, hxy, hnil, hys⟩ := List.forall₂_cons_left_iff.mp hrestamped
  obtain rfl := List.forall₂_nil_left_iff.mp hnil
  have hy : y = x := by
    obtain heq | ⟨hts, -⟩ := hxy
    · exact heq
    · rw [hdata] at hts
      cases hts
  refine ⟨_, rfl, hc.valid, ?_, ?_⟩
  · rw [hc.committed, hcommitted, hys, hy]
    rfl
  · exact (Prod.mk.inj (Prod.mk.inj hc.kept).2).1

theorem read_alone {s : St 32} (hvalid : Valid wideConfig s) {x : SensorData}
    (hcommitted : committed wideConfig s = [x]) : (step s readingOne).returned = s.returned ++ [x] := by
  have hr := read_reads hvalid 8 1 fun _ => 0
  have hcount : Queue.queueCount s.fifo = 1 := by
    apply BitVec.eq_of_toNat_eq
    rw [← length_committed (c := wideConfig), hcommitted]
    rfl
  have hmin : (Queue.MIN ((8 : BitVec 32) / wideConfig.fifo.unitBytes)
      (Queue.MIN (Queue.queueCount s.fifo) 1)).toNat = 1 := by
    rw [hcount]
    decide
  rw [hmin] at hr
  have hreturned : (step s readingOne).returned =
      (motionSenseFifoRead wideConfig 8 1 (fun _ => 0) s).2.returned := rfl
  rw [hreturned, hr.rest, hcommitted]
  rfl

theorem stageData_unchecked {c : Config w} (htight : c.tightTimestamps = true) (e : Env) {data : SensorData}
    (hdata : isTimestamp data = false) (time : BitVec 32) {s s₁ : St w}
    (hs₁ : fifoStageTimestamp c e time data.sensorNum s = s₁) :
    motionSenseFifoStageData c e data none 0 time s = writeUnit c e data s₁ := by
  rw [motionSenseFifoStageData, if_pos htight, hs₁]
  simp [noteInterrupt, fifoStageUnit, sightTimestamp, hdata]

theorem step_committing (s : St 32) :
    step s committing = { motionSenseFifoCommitData wideConfig s with
      calls := (motionSenseFifoCommitData wideConfig s).calls + 1 } := rfl

theorem returned_needed {s : St 32} (h : Filled 65535 s) :
    (run s [needed, committing, readingOne]).returned = [⟨0, 0, 0, 0⟩] := by
  have hfilled := h.stageTimestamp (by decide)
  obtain ⟨s₁, hs₁⟩ : ∃ s₁, fifoStageTimestamp wideConfig calmEnv 0 0 s = s₁ := ⟨_, rfl⟩
  rw [hs₁] at hfilled
  obtain ⟨s₂, hs₂, hvalid₂, hcommitted₂, hstaged₂, hcount₂, hreturned₂⟩ :=
    writeUnit_alone hfilled.valid hfilled.committed hfilled.count ⟨0, 0, 0, 0⟩
  have hstep₂ : step s needed = { s₂ with calls := s₂.calls + 1 } := by
    have hstage := stageData_unchecked (c := wideConfig) rfl calmEnv
      (show isTimestamp ⟨0, 0, 0, 0⟩ = false from rfl) 0 hs₁
    rw [← hs₂, ← hstage]
    rfl
  obtain ⟨s₃, hs₃, hvalid₃, hcommitted₃, hreturned₃⟩ :=
    commitData_alone (s := { s₂ with calls := s₂.calls + 1 }) hvalid₂ hcommitted₂ hstaged₂ rfl hcount₂
  have hstep₃ : step (step s needed) committing = { s₃ with calls := s₃.calls + 1 } := by
    rw [hstep₂, step_committing, hs₃]
  calc (run s [needed, committing, readingOne]).returned
      = (step (step (step s needed) committing) readingOne).returned := rfl
    _ = s₃.returned ++ [⟨0, 0, 0, 0⟩] := by
        rw [hstep₃]
        exact read_alone (s := { s₃ with calls := s₃.calls + 1 }) hvalid₃ hcommitted₃
    _ = [⟨0, 0, 0, 0⟩] := by
        rw [hreturned₃, hreturned₂, hfilled.record.1]
        rfl

/-- The data is the first entry that is returned. -/
theorem data_without_timestamp :
    (∀ i ∈ strayed, i.2.isFifoReset = false) ∧
      (run (initial fun _ => 0) strayed).returned = [⟨0, 0, 0, 0⟩] ∧
      ∀ b, ¬HasTimestamp (run (initial fun _ => 0) strayed) b 0 ⟨0, 0, 0, 0⟩ := by
  refine ⟨?_, ?_, ?_⟩
  · intro i hi
    obtain hi | hi := List.mem_append.mp hi
    · rw [List.eq_of_mem_replicate hi]
      rfl
    · simp only [List.mem_cons, List.not_mem_nil, or_false] at hi
      obtain rfl | rfl | rfl := hi
      all_goals rfl
  · rw [strayed, run, List.foldl_append]
    exact returned_needed (filled_run 65535 (by decide))
  · rintro b ⟨i, t, k, hj, -⟩
    cases hj

end ChromeEc.MotionSense
