import ChromeEc.Lib.Pace
import ChromeEc.MotionSense.Pairing

/- The timestamps that data is committed with.

  Each sensor has its own `Pace`: where the next timestamp is expected, and whether one has
  been seen since the last reset. Staging a timestamp may set the pace, and committing data
  replaces the timestamp before it by the stamp of the pace. What is dropped in between has
  been seen nevertheless.

  What is proved: the stamps of a sensor are those of its own pace (`Paces`), whatever the
  other sensors do, so a stamp is not earlier than the timestamp that was staged, and two of
  them in a row are at least the data period apart (`timestamps_spread`). Data is committed
  without a timestamp only if the buffer is too small or too large for pairs
  (`data_carried`). -/
namespace ChromeEc.MotionSense
open Lib

variable {w : Nat}

/-! ## Paces of sensors -/

def paceOf (c : Config w) (s : St w) (n : Nat) : Pace 32 :=
  ⟨!isNewTimestamp c s n, (s.nextTimestamp n).next⟩

def Mark.tick (n : Nat) : Mark → Option (Tick 32)
  | .sighted sensor raw => if sensor = n then some (.sight raw) else none
  | .stamped sensor raw stamp => if sensor = n then some (.stamp raw stamp) else none

def ticks (n : Nat) (ms : List Mark) : List (Tick 32) := ms.filterMap (Mark.tick n)

/-- From `s` to `s'` the marks `ms` are made, and the pace of the sensor goes along. -/
structure Ticks (c : Config w) (n : Nat) (s s' : St w) (ms : List Mark) : Prop where
  marks : s'.marks = s.marks ++ ms
  period : s'.expectedDataPeriods n = s.expectedDataPeriods n
  keeps : Keeps (s.expectedDataPeriods n) (paceOf c s n) (ticks n ms)
  pace : paceOf c s' n = (paceOf c s n).run (s.expectedDataPeriods n) (ticks n ms)

/-- What the timestamps depend on, with the record of them. -/
def clocks (s : St w) : List Mark × (Nat → TimestampState) × (Nat → Bool) × (Nat → BitVec 32) :=
  (s.marks, s.nextTimestamp, s.nextTimestampInitialized, s.expectedDataPeriods)

section

variable {c : Config w} {n : Nat} {s s' s'' : St w} {ms ms' : List Mark}

theorem ticks_append : ticks n (ms ++ ms') = ticks n ms ++ ticks n ms' := List.filterMap_append ..

theorem Ticks.refl (c : Config w) (n : Nat) (s : St w) : Ticks c n s s [] :=
  ⟨(List.append_nil _).symm, rfl, trivial, rfl⟩

theorem Ticks.trans (h : Ticks c n s s' ms) (h' : Ticks c n s' s'' ms') : Ticks c n s s'' (ms ++ ms') := by
  have hkeeps := h'.keeps
  have hpace := h'.pace
  rw [h.pace, h.period] at hkeeps hpace
  refine ⟨?_, h'.period.trans h.period, ?_, ?_⟩
  · rw [h'.marks, h.marks, List.append_assoc]
  · rw [ticks_append]
    exact h.keeps.append hkeeps
  · rw [ticks_append, Pace.run_append]
    exact hpace

theorem Ticks.congr (h : Ticks c n s s' ms) (heq : clocks s'' = clocks s') : Ticks c n s s'' ms := by
  simp only [clocks, Prod.mk.injEq] at heq
  obtain ⟨hmarks, hnext, hinitialized, hperiods⟩ := heq
  refine ⟨hmarks.trans h.marks, ?_, h.keeps, ?_⟩
  · rw [hperiods]
    exact h.period
  · rw [← h.pace, paceOf, paceOf, isNewTimestamp, isNewTimestamp, hnext, hinitialized]

theorem ticks_single {m : Mark} (hmarks : s'.marks = s.marks ++ [m])
    (hperiod : s'.expectedDataPeriods n = s.expectedDataPeriods n)
    (hother : m.tick n = none → paceOf c s' n = paceOf c s n)
    (hown : ∀ t, m.tick n = some t →
      t.Fits (paceOf c s n) ∧ paceOf c s' n = (paceOf c s n).step (s.expectedDataPeriods n) t) :
    Ticks c n s s' [m] := by
  cases htick : m.tick n with
  | none =>
    have hticks : ticks n [m] = [] := by simp [ticks, htick]
    refine ⟨hmarks, hperiod, ?_, ?_⟩
    · rw [hticks]
      exact trivial
    · rw [hticks]
      exact hother htick
  | some t =>
    have hticks : ticks n [m] = [t] := by simp [ticks, htick]
    obtain ⟨hfits, hpace⟩ := hown t htick
    refine ⟨hmarks, hperiod, ?_, ?_⟩
    · rw [hticks]
      exact ⟨hfits, trivial⟩
    · rw [hticks]
      exact hpace

theorem isNewTimestamp_of_set {k : Nat} (h : s.nextTimestampInitialized k = true) :
    isNewTimestamp c s k = false := by
  simp [isNewTimestamp, h]

theorem isNewTimestamp_mono {k : Nat}
    (h : s.nextTimestampInitialized k = true → s'.nextTimestampInitialized k = true)
    (hnew : isNewTimestamp c s k = false) : isNewTimestamp c s' k = false := by
  simp only [isNewTimestamp, Bool.and_eq_false_iff, decide_eq_false_iff_not, Bool.not_eq_false'] at hnew ⊢
  exact hnew.imp id h

theorem isNewTimestamp_update {m k : Nat} (hne : m ≠ k) (s : St w) (next : Nat → TimestampState) (ms : List Mark) :
    isNewTimestamp c { s with
      nextTimestamp := next
      nextTimestampInitialized := update s.nextTimestampInitialized k true
      marks := ms } m = isNewTimestamp c s m := by
  simp only [isNewTimestamp, update_other _ _ hne]

theorem sightTimestamp_ticks (c : Config w) (n : Nat) (data : SensorData) (s : St w) :
    ∃ ms, Ticks c n s (sightTimestamp c data s) ms ∧ stamps (ticks n ms) = [] := by
  by_cases hts : isTimestamp data = true
  · refine ⟨[.sighted data.sensor data.timestamp], ticks_single ?_ ?_ ?_ ?_, ?_⟩
    · simp only [sightTimestamp, if_pos hts]
      split
      · rfl
      · rfl
    · simp only [sightTimestamp, if_pos hts]
      split
      · rfl
      · rfl
    · intro hother
      have hne : n ≠ data.sensor := by
        rintro rfl
        simp [Mark.tick] at hother
      simp only [sightTimestamp, if_pos hts]
      split
      · simp only [paceOf, isNewTimestamp_update hne, update_other _ _ hne]
      · rfl
    · intro t ht
      obtain ⟨rfl, rfl⟩ : n = data.sensor ∧ t = .sight data.timestamp := by
        by_cases hn : data.sensor = n
        · simp only [Mark.tick, if_pos hn, Option.some.injEq] at ht
          exact ⟨hn.symm, ht.symm⟩
        · simp [Mark.tick, hn] at ht
      refine ⟨trivial, ?_⟩
      simp only [sightTimestamp, if_pos hts]
      cases hnew : isNewTimestamp c s data.sensor with
      | true =>
        have hnew' : isNewTimestamp c { s with
            marks := s.marks ++ [.sighted data.sensor data.timestamp] } data.sensor = true := hnew
        rw [if_pos hnew']
        simp only [paceOf, Pace.step, hnew, update_same]
        rw [isNewTimestamp_of_set (update_same ..)]
        rfl
      | false =>
        have hnew' : isNewTimestamp c { s with
            marks := s.marks ++ [.sighted data.sensor data.timestamp] } data.sensor = false := hnew
        rw [if_neg (by rw [hnew']; exact Bool.false_ne_true)]
        simp only [paceOf, Pace.step, hnew, hnew', Bool.not_false, if_true]
    · by_cases hn : data.sensor = n
      · simp [ticks, Mark.tick, hn, stamps]
      · simp [ticks, Mark.tick, hn, stamps]
  · refine ⟨[], ?_, rfl⟩
    rw [sightTimestamp, if_neg hts]
    exact .refl c n s

end

/-! ## Committing -/

/-- The timestamp as staged and as committed that is right before entry `i`, if that is data
of the sensor. -/
def carriedAt (n : Nat) (batch : List SensorData × List SensorData) : Nat → Option (BitVec 32 × BitVec 32)
  | 0 => none
  | j + 1 =>
    match batch.1[j]?, batch.1[j + 1]?, batch.2[j]? with
    | some t, some x, some t' =>
      if isTimestamp t && isData x && x.sensor == n then some (t.timestamp, t'.timestamp) else none
    | _, _, _ => none

/-- The timestamps of the data of the sensor in one commit. -/
def carried (n : Nat) (batch : List SensorData × List SensorData) : List (BitVec 32 × BitVec 32) :=
  (List.range batch.1.length).filterMap (carriedAt n batch)

section

variable {c : Config w} {n : Nat} {s s' : St w}

theorem carriedAt_succ {j : Nat} {raw out : List SensorData} {t x t' : SensorData} (ht : raw[j]? = some t)
    (hx : raw[j + 1]? = some x) (ht' : out[j]? = some t') :
    carriedAt n (raw, out) (j + 1) =
      if isTimestamp t && isData x && x.sensor == n then some (t.timestamp, t'.timestamp) else none := by
  simp only [carriedAt, ht, hx, ht']

/-- Only the entry before `i` matters among those that are committed. -/
theorem carriedAt_congr {i : Nat} {raw out out' : List SensorData}
    (h : ∀ j, i = j + 1 → out'[j]? = out[j]?) : carriedAt n (raw, out') i = carriedAt n (raw, out) i := by
  cases i with
  | zero => rfl
  | succ j => simp only [carriedAt, h j rfl]

theorem stampOf_eq (c : Config w) (s : St w) (n : Nat) (raw : BitVec 32) :
    stampOf c s n raw = (paceOf c s n).stamp raw := by
  rw [stampOf, Pace.stamp, paceOf, Bool.not_not]
  rfl

theorem paceOf_stamped {x t : SensorData} {stamp : BitVec 32}
    (hnext : s'.nextTimestamp = update s.nextTimestamp x.sensor
      ⟨stamp, stamp + s.expectedDataPeriods x.sensor⟩)
    (hinitialized : s'.nextTimestampInitialized =
      if isNewTimestamp c s x.sensor || timeAfter t.timestamp (s.nextTimestamp x.sensor).next then
        update s.nextTimestampInitialized x.sensor true
      else s.nextTimestampInitialized) :
    paceOf c s' n = if x.sensor = n then ⟨true, stamp + s.expectedDataPeriods n⟩ else paceOf c s n := by
  by_cases hn : x.sensor = n
  · subst hn
    have hknown : isNewTimestamp c s' x.sensor = false := by
      cases hnew : isNewTimestamp c s x.sensor with
      | true =>
        apply isNewTimestamp_of_set
        rw [hinitialized, hnew, Bool.true_or, if_pos rfl, update_same]
      | false =>
        refine isNewTimestamp_mono ?_ hnew
        intro hset
        rw [hinitialized]
        split
        · exact update_same ..
        · exact hset
    rw [if_pos rfl, paceOf, hknown, hnext, update_same]
    rfl
  · have hne : n ≠ x.sensor := Ne.symm hn
    have hsame : s'.nextTimestampInitialized n = s.nextTimestampInitialized n := by
      rw [hinitialized]
      split
      · rw [update_other _ _ hne]
      · rfl
    rw [if_neg hn, paceOf, paceOf, isNewTimestamp, isNewTimestamp, hsame, hnext, update_other _ _ hne]

/-- Entry `i` has its round: the stamp is that of the pace, and it is the one carried. -/
theorem Round.ticks {i : Nat} (h : Round c i s s') {raw : List SensorData}
    (hraw : ∀ j, i ≤ j + 1 → (staged c s)[j]? = raw[j]?) :
    ∃ ms, Ticks c n s s' ms ∧
      stamps (MotionSense.ticks n ms) = (carriedAt n (raw, staged c s') i).toList ∧
      ∀ j, i ≠ j + 1 → (staged c s')[j]? = (staged c s)[j]? := by
  cases h with
  | quiet unpaired _ rest =>
    have hclocks : clocks s' = clocks s := by
      rw [rest]
      rfl
    have hstaged : staged c s' = staged c s := by
      rw [rest]
      rfl
    refine ⟨[], (Ticks.refl c n s).congr hclocks, ?_, fun j _ => by rw [hstaged]⟩
    cases i with
    | zero => rfl
    | succ j =>
      simp only [carriedAt]
      split
      · rename_i t x t' ht hx ht'
        rw [if_neg]
        · rfl
        · intro hpair
          simp only [Bool.and_eq_true] at hpair
          obtain ⟨⟨hts, hdata⟩, -⟩ := hpair
          have hnot := unpaired j x t rfl ((hraw (j + 1) (by omega)).trans hx)
            ((hraw j (by omega)).trans ht) hdata
          rw [hnot] at hts
          cases hts
      · rfl
  | spread j x t index data timestamp hdata hts valid committed hstaged rest initialized =>
    subst index
    obtain ⟨stamp, hstamp⟩ : ∃ stamp, stamp = stampOf c s x.sensor t.timestamp := ⟨_, rfl⟩
    rw [← hstamp] at hstaged rest
    have hlt : j < (staged c s).length := (List.getElem?_eq_some_iff.mp timestamp).1
    have hout : (staged c s')[j]? = some { t with timestamp := stamp } := by
      rw [hstaged, List.getElem?_set_self hlt]
    have hpace := paceOf_stamped (n := n) (by rw [rest]) initialized
    refine ⟨[.stamped x.sensor t.timestamp stamp], ticks_single ?_ ?_ ?_ ?_, ?_, ?_⟩
    · rw [rest]
    · rw [rest]
    · intro hother
      rw [hpace, if_neg]
      intro hn
      simp [Mark.tick, hn] at hother
    · intro k hk
      obtain ⟨rfl, rfl⟩ : x.sensor = n ∧ k = .stamp t.timestamp stamp := by
        by_cases hn : x.sensor = n
        · simp only [Mark.tick, if_pos hn, Option.some.injEq] at hk
          exact ⟨hn, hk.symm⟩
        · simp [Mark.tick, hn] at hk
      refine ⟨?_, ?_⟩
      · rw [Tick.Fits, ← stampOf_eq, hstamp]
      · rw [hpace, if_pos rfl]
        rfl
    · rw [carriedAt_succ ((hraw j (by omega)).symm.trans timestamp)
        ((hraw (j + 1) (by omega)).symm.trans data) hout, hts, hdata]
      by_cases hn : x.sensor = n
      · simp [MotionSense.ticks, Mark.tick, hn, stamps]
      · simp [MotionSense.ticks, Mark.tick, hn, stamps]
    · intro k hk
      rw [hstaged, List.getElem?_set_ne (by omega)]

theorem Rounds.ticks {k : Nat} (h : Rounds c s k s') :
    ∃ ms, Ticks c n s s' ms ∧
      stamps (MotionSense.ticks n ms) =
        (List.range k).filterMap (carriedAt n (staged c s, staged c s')) ∧
      ∀ j, k ≤ j + 1 → (staged c s')[j]? = (staged c s)[j]? := by
  induction h with
  | zero => exact ⟨[], .refl c n s, rfl, fun _ _ => rfl⟩
  | @succ k s₁ s₂ _ hround ih =>
    obtain ⟨ms, hticks, hstamps, hraw⟩ := ih
    obtain ⟨ms', hticks', hstamps', hkept⟩ := hround.ticks (n := n) hraw
    refine ⟨ms ++ ms', hticks.trans hticks', ?_, ?_⟩
    · have hsame : (List.range k).filterMap (carriedAt n (staged c s, staged c s₂)) =
          (List.range k).filterMap (carriedAt n (staged c s, staged c s₁)) := by
        apply List.filterMap_congr
        intro i hi
        apply carriedAt_congr
        intro j hj
        have hlt := List.mem_range.mp hi
        exact hkept j (by omega)
      rw [ticks_append, stamps_append, hstamps, hstamps', List.range_succ, List.filterMap_append, hsame]
      congr 1
    · intro j hj
      rw [hkept j (by omega), hraw j (by omega)]

/-- Entry by entry, the timestamps as committed are not earlier than those that were staged. -/
def NotEarlier (batch : List SensorData × List SensorData) : Prop :=
  List.Forall₂ (fun x y => timeAfter x.timestamp y.timestamp = false) batch.1 batch.2

theorem Rounds.notEarlier {k : Nat} (h : Rounds c s k s') : NotEarlier (staged c s, staged c s') := by
  induction h with
  | zero => exact List.forall₂_same.mpr fun x _ => after_self x.timestamp
  | @succ k s₁ s₂ hrounds hround ih =>
    cases hround with
    | quiet _ _ rest =>
      rw [rest]
      exact ih
    | spread j x t index _ ht _ _ _ _ hstaged =>
      obtain ⟨-, -, -, hraw⟩ := hrounds.ticks (n := x.sensor)
      rw [NotEarlier, hstaged]
      apply forall₂_set ih
      intro y hy
      -- The round is the only one for this timestamp, which is still as it was staged.
      rw [hraw j (by omega)] at ht
      obtain rfl : y = t := Option.some.inj (hy.symm.trans ht)
      dsimp only
      rw [stampOf_eq]
      exact Pace.not_after_stamp _ _

/-- From `s` to `s'` the batches `bs` are committed, and the data of the sensor carries the
stamps of its pace. -/
structure Paces (c : Config w) (n : Nat) (s s' : St w) (ms : List Mark)
    (bs : List (List SensorData × List SensorData)) : Prop where
  valid : Valid c s'
  ticks : Ticks c n s s' ms
  batches : s'.batches = s.batches ++ bs
  carried : stamps (MotionSense.ticks n ms) = bs.flatMap (carried n)
  notEarlier : ∀ batch ∈ bs, NotEarlier batch

theorem Paces.refl (n : Nat) (h : Valid c s) : Paces c n s s [] [] :=
  ⟨h, .refl c n s, (List.append_nil _).symm, rfl, fun _ hbatch => nomatch hbatch⟩

theorem Paces.trans {s'' : St w} {ms ms' : List Mark} {bs bs' : List (List SensorData × List SensorData)}
    (h : Paces c n s s' ms bs) (h' : Paces c n s' s'' ms' bs') :
    Paces c n s s'' (ms ++ ms') (bs ++ bs') := by
  refine ⟨h'.valid, h.ticks.trans h'.ticks, ?_, ?_, ?_⟩
  · rw [h'.batches, h.batches, List.append_assoc]
  · rw [ticks_append, stamps_append, h.carried, h'.carried, List.flatMap_append]
  · intro batch hbatch
    exact (List.mem_append.mp hbatch).elim (h.notEarlier batch) (h'.notEarlier batch)

theorem Paces.congr {s'' : St w} {ms : List Mark} {bs : List (List SensorData × List SensorData)}
    (h : Paces c n s s' ms bs) (hvalid : Valid c s'')
    (heq : (clocks s'', s''.batches) = (clocks s', s'.batches)) : Paces c n s s'' ms bs := by
  obtain ⟨hclocks, hbatches⟩ := Prod.mk.inj heq
  exact ⟨hvalid, h.ticks.congr hclocks, hbatches.trans h.batches, h.carried, h.notEarlier⟩

theorem Commits.batches {s₀ s₁ : St w} (h : Commits c s s₀ s₁ s') :
    s'.batches = s.batches ++ [(MotionSense.staged c s, MotionSense.staged c s₁)] := by
  have hsame : s₁.batches = s.batches := by
    rw [h.rounds.rest.1, h.check]
  rw [h.rest, ← hsame]

theorem commitData_paces (n : Nat) (h : Valid c s) :
    ∃ ms bs, Paces c n s (motionSenseFifoCommitData c s) ms bs := by
  by_cases hcount : s.fifoStaged.count = 0
  · rw [motionSenseFifoCommitData, if_pos (by simpa using hcount)]
    exact ⟨[], [], .refl n h⟩
  · obtain ⟨s₀, s₁, hc⟩ := commitData_commits h hcount
    obtain ⟨ms, hticks, hstamps, -⟩ := hc.rounds.ticks (n := n)
    have hclocks₀ : clocks s₀ = clocks s := by
      rw [hc.check]
      rfl
    have hstaged₀ : staged c s₀ = staged c s := by
      rw [hc.check]
      rfl
    rw [hstaged₀] at hstamps
    have hnotEarlier := hc.rounds.notEarlier
    rw [hstaged₀] at hnotEarlier
    refine ⟨ms, [(staged c s, staged c s₁)], hc.valid, ?_, ?_, ?_, ?_⟩
    · have hclocks' : clocks (motionSenseFifoCommitData c s) = clocks s₁ := by
        rw [hc.rest]
        rfl
      exact (((Ticks.refl c n s).congr hclocks₀).trans hticks).congr hclocks'
    · exact hc.batches
    · rw [hstamps, List.flatMap_singleton, MotionSense.carried, length_staged]
    · intro batch hbatch
      rw [List.mem_singleton.mp hbatch]
      exact hnotEarlier

end

/-! ## Staging -/

section

variable {c : Config w} {n : Nat} {s s' : St w}

theorem Pops.clocks {xs : List SensorData} (h : Pops c xs s s') :
    (MotionSense.clocks s', s'.batches) = (MotionSense.clocks s, s.batches) := by
  induction h with
  | nil => rfl
  | cons hx _ ih =>
    rw [ih, hx.rest]
    rfl

theorem writeUnit_clocks (h : Valid c s) (e : Env) (data : SensorData) :
    (clocks (writeUnit c e data s), (writeUnit c e data s).batches) = (clocks s, s.batches) := by
  have hspace : (clocks (fifoEnsureSpace c s), (fifoEnsureSpace c s).batches) = (clocks s, s.batches) := by
    obtain ⟨-, hsame | ⟨-, xs, -, henough⟩⟩ := fifoEnsureSpace_spec h
    · rw [hsame]
    · exact henough.pops.clocks
  rw [← hspace, (writeUnit_wrote h e data).rest]
  rfl

theorem Prepared.paces (n : Nat) (h : Valid c s) {data : SensorData} {s₁ : St w}
    (hp : Prepared c data s s₁) : ∃ ms, Paces c n s s₁ ms [] := by
  obtain ⟨ms, hticks, hstamps⟩ := sightTimestamp_ticks c n data s
  refine ⟨ms, ?_, hticks.congr ?_, ?_, hstamps, fun _ hbatch => nomatch hbatch⟩
  · rw [hp, sightTimestamp_eq]
    exact h
  · rw [hp]
    rfl
  · rw [hp, sightTimestamp_eq, List.append_nil]

theorem stageUnit_paces (n : Nat) (h : Valid c s) (e : Env) (data : SensorData) (sensor : Option Nat)
    (validData : Nat) : ∃ ms, Paces c n s (fifoStageUnit c e data sensor validData s) ms [] := by
  obtain hsame | ⟨s₁, hp, hs₁ | hs₁⟩ := fifoStageUnit_cases (c := c) e data sensor validData s
  · rw [hsame]
    exact ⟨[], .refl n h⟩
  · rw [hs₁]
    exact hp.paces n h
  · obtain ⟨ms, hpaces⟩ := hp.paces n h
    rw [hs₁]
    exact ⟨ms, hpaces.congr (writeUnit_wrote hpaces.valid e data).valid
      (writeUnit_clocks hpaces.valid e data)⟩

theorem stageTimestamp_paces (n : Nat) (h : Valid c s) (e : Env) (time : BitVec 32) (sensorNum : BitVec 8) :
    ∃ ms, Paces c n s (fifoStageTimestamp c e time sensorNum s) ms [] :=
  stageUnit_paces n h e _ none 0

theorem stageData_paces (n : Nat) (h : Valid c s) (e : Env) (data : SensorData) (sensor : Option Nat)
    (validData : Nat) (time : BitVec 32) :
    ∃ ms, Paces c n s (motionSenseFifoStageData c e data sensor validData time s) ms [] := by
  obtain ⟨ms, hstamped⟩ : ∃ ms, Paces c n s
      (if c.tightTimestamps then fifoStageTimestamp c e time data.sensorNum s else s) ms [] := by
    split
    · exact stageTimestamp_paces n h e time data.sensorNum
    · exact ⟨[], .refl n h⟩
  have hnote := noteInterrupt_eq data sensor time
    (if c.tightTimestamps then fifoStageTimestamp c e time data.sensorNum s else s)
  have hnoted : Paces c n s (noteInterrupt data sensor time
      (if c.tightTimestamps then fifoStageTimestamp c e time data.sensorNum s else s)) ms [] :=
    hstamped.congr (by rw [hnote]; exact hstamped.valid) (by rw [hnote]; rfl)
  obtain ⟨ms', hstaged⟩ := stageUnit_paces n hnoted.valid e data sensor validData
  exact ⟨_, hnoted.trans hstaged⟩

end

/-! ## Runs -/

/-- A call that resets whether the timestamp of the sensor has been seen. -/
def Call.resetsTimestamp {c : Config w} (n : Nat) : Call c → Bool
  | .resetNeededFlags => true
  | .fifoReset => true
  | .setDataPeriod sensorNum _ => sensorNum == n
  | _ => false

section

variable {c : Config w} {s : St w}

theorem call_paces (n : Nat) (e : Env) (h : Valid c s) (i : Call c) (hi : i.resetsTimestamp n = false) :
    ∃ ms bs, Paces c n s (call e s i) ms bs := by
  cases i with
  | stageData data _ sensor validData time =>
    obtain ⟨ms, hpaces⟩ := stageData_paces n h e data sensor validData time
    exact ⟨ms, [], hpaces⟩
  | addTimestamp timestamp =>
    obtain ⟨ms, hpaces⟩ := stageTimestamp_paces n h e timestamp 0xff
    obtain ⟨ms', bs, hcommit⟩ := commitData_paces n hpaces.valid
    exact ⟨_, _, hpaces.trans hcommit⟩
  | insertAsyncEvent sensor event =>
    obtain ⟨ms, hpaces⟩ := stageUnit_paces n h e ⟨event.flags, sensor, e.reserved, e.hwClockSourceRead⟩
      (some sensor.toNat) 0
    obtain ⟨ms', bs, hcommit⟩ := commitData_paces n hpaces.valid
    exact ⟨_, _, hpaces.trans hcommit⟩
  | commitData => exact commitData_paces n h
  | read capacityBytes maxCount out =>
    have hr := read_reads h capacityBytes maxCount out
    refine ⟨[], [], (Paces.refl n h).congr hr.valid ?_⟩
    simp only [call]
    rw [hr.rest]
    rfl
  | getInfo reset =>
    cases reset with
    | false => exact ⟨[], [], .refl n h⟩
    | true => exact ⟨[], [], (Paces.refl n h).congr h rfl⟩
  | resetNeededFlags => cases hi
  | setDataPeriod sensorNum dataPeriod =>
    have hne : n ≠ sensorNum := by
      rintro rfl
      simp [Call.resetsTimestamp] at hi
    refine ⟨[], [], h, ⟨(List.append_nil _).symm, ?_, trivial, ?_⟩, (List.append_nil _).symm, rfl, ?_⟩
    · simp only [call, motionSenseSetDataPeriod, update_other _ _ hne]
    · simp only [call, motionSenseSetDataPeriod, paceOf, isNewTimestamp, update_other _ _ hne]
      rfl
    · intro _ hbatch
      cases hbatch
  | fifoReset => cases hi
  | configure sensor m => exact ⟨[], [], (Paces.refl n h).congr h rfl⟩

/-- Without a reset the sensor keeps its pace over a whole run. -/
theorem run_paces (n : Nat) (h : Valid c s) (is : List (Env × Call c))
    (his : ∀ i ∈ is, i.2.resetsTimestamp n = false) : ∃ ms bs, Paces c n s (run s is) ms bs := by
  induction is generalizing s with
  | nil => exact ⟨[], [], .refl n h⟩
  | cons i is ih =>
    obtain ⟨ms, bs, hcall⟩ := call_paces n i.1 h i.2 (his i (List.mem_cons_self ..))
    have hstep : Paces c n s (step s i) ms bs := hcall.congr hcall.valid rfl
    obtain ⟨ms', bs', hrun⟩ := ih hstep.valid fun j hj => his j (List.mem_cons_of_mem i hj)
    exact ⟨_, _, hstep.trans hrun⟩

theorem call_valid (e : Env) (h : Valid c s) (i : Call c) : Valid c (call e s i) := by
  cases hi : i.resetsTimestamp 0 with
  | false =>
    obtain ⟨ms, bs, hpaces⟩ := call_paces 0 e h i hi
    exact hpaces.valid
  | true =>
    cases i with
    | resetNeededFlags =>
      simp only [call, motionSenseFifoResetNeededFlags]
      split
      · exact h
      · exact h
    | setDataPeriod sensorNum dataPeriod => exact h
    | fifoReset => exact (empty_queueInit s.fifo rfl rfl).1
    | _ => cases hi

theorem run_valid (h : Valid c s) (is : List (Env × Call c)) : Valid c (run s is) := by
  induction is generalizing s with
  | nil => exact h
  | cons i is ih => exact ih (call_valid i.1 h i.2)

end

/-! ## Data is committed behind its timestamp -/

/-- The staged entries and each commit begin with a timestamp, and data stands right behind a
timestamp of its sensor. -/
structure Accompanied (c : Config w) (s : St w) : Prop where
  valid : Valid c s
  tied : Tied (isTimestamp · = true) (fun t x => isTimestamp t = true ∧ t.sensorNum = x.sensorNum)
    (staged c s)
  batches : ∀ batch ∈ s.batches,
    Tied (isTimestamp · = true) (fun t x => isTimestamp t = true ∧ t.sensorNum = x.sensorNum) batch.1 ∧
      List.Forall₂ Restamped batch.1 batch.2

/-- The newest staged entry is a timestamp of the sensor. -/
def StagedStamp (c : Config w) (s : St w) (sensorNum : BitVec 8) : Prop :=
  ∃ t ∈ (staged c s).getLast?, isTimestamp t = true ∧ t.sensorNum = sensorNum

section

variable {c : Config w} {s s' : St w}

/-- Staged entries are dropped after all committed ones, oldest first. -/
theorem Pops.staged {xs : List SensorData} (h : Pops c xs s s') :
    staged c s' = staged c s ∨
      (committed c s' = [] ∧ ∃ ys, MotionSense.staged c s = ys ++ MotionSense.staged c s') := by
  induction h with
  | nil => exact .inl rfl
  | @cons s s₁ s' x xs hx hrest ih =>
    obtain ⟨-, hs, -⟩ | ⟨-, hc', hs, -⟩ := hx.lists
    · rw [← hs]
      exact ih
    · refine .inr ?_
      obtain hsame | ⟨hc, ys, hys⟩ := ih
      · have hpending := congrArg List.length hrest.pending
        rw [hc', hsame] at hpending
        simp only [List.length_append, List.length_nil] at hpending
        refine ⟨List.eq_nil_of_length_eq_zero (by omega), [x], ?_⟩
        rw [hs, hsame]
        rfl
      · exact ⟨hc, x :: ys, by rw [hs, hys]; rfl⟩

theorem Accompanied.enough (htight : c.tightTimestamps = true) (h : Accompanied c s) {xs : List SensorData}
    (henough : Enough c xs s s') : Accompanied c s' := by
  refine ⟨henough.pops.valid, ?_, ?_⟩
  · obtain hsame | ⟨hnil, ys, hys⟩ := henough.pops.staged
    · rw [hsame]
      exact h.tied
    · have htied := h.tied
      rw [hys] at htied
      refine htied.right ?_
      intro t ht
      obtain ⟨rest, hs⟩ := List.head?_eq_some_iff.mp ht
      exact henough.stops htight t rest (by rw [hnil, hs]; rfl)
  · intro batch hbatch
    rw [(Prod.mk.inj henough.pops.clocks).2] at hbatch
    exact h.batches batch hbatch

theorem StagedStamp.enough (hcap : 2 ≤ c.fifo.cap)
    (hfull : (committed c s ++ staged c s).length = c.fifo.cap) {sensorNum : BitVec 8}
    (h : StagedStamp c s sensorNum) {xs : List SensorData} (henough : Enough c xs s s') :
    StagedStamp c s' sensorNum := by
  obtain ⟨t, hlast, hts, hsensor⟩ := h
  refine ⟨t, ?_, hts, hsensor⟩
  obtain hsame | ⟨hnil, ys, hys⟩ := henough.pops.staged
  · rw [hsame]
    exact hlast
  · have hpending : t ∈ (committed c s ++ staged c s).getLast? := by
      rw [Option.mem_def, List.getLast?_append, Option.mem_def.mp hlast]
      rfl
    have hleft := henough.left hcap hfull hpending hts
    rw [hnil, List.nil_append] at hleft
    rw [hys, Option.mem_def, List.getLast?_append_of_ne_nil _ hleft] at hlast
    exact hlast

theorem Accompanied.wrote (hcap : c.fifo.cap < 2 ^ 16) {x : SensorData} (h : Accompanied c s)
    (hspace : (committed c s ++ staged c s).length < c.fifo.cap) (hx : Wrote c x s s')
    (hstamp : isTimestamp x = true ∨ StagedStamp c s x.sensorNum) :
    Accompanied c s' ∧ (isTimestamp x = true → StagedStamp c s' x.sensorNum) := by
  have hstaged : staged c s' = staged c s ++ [x] := by
    rw [hx.staged, if_neg (count_ne_of_cap hcap hspace)]
  refine ⟨⟨hx.valid, ?_, ?_⟩, ?_⟩
  · rw [hstaged]
    exact h.tied.snoc hstamp
  · intro batch hbatch
    rw [hx.rest] at hbatch
    exact h.batches batch hbatch
  · intro hts
    exact ⟨x, by rw [hstaged]; simp, hts, rfl⟩

theorem Accompanied.congr (h : Accompanied c s) (hvalid : Valid c s') (hstaged : staged c s' = staged c s)
    (hbatches : s'.batches = s.batches) : Accompanied c s' := by
  refine ⟨hvalid, ?_, ?_⟩
  · rw [hstaged]
    exact h.tied
  · rw [hbatches]
    exact h.batches

theorem Prepared.same {data : SensorData} {s₁ : St w} (hp : Prepared c data s s₁) :
    committed c s₁ = committed c s ∧ staged c s₁ = staged c s ∧ s₁.batches = s.batches := by
  rw [hp, sightTimestamp_eq]
  exact ⟨rfl, rfl, rfl⟩

theorem Accompanied.prepared {data : SensorData} {s₁ : St w} (h : Accompanied c s)
    (hp : Prepared c data s s₁) : Accompanied c s₁ := by
  obtain ⟨ms, hpaces⟩ := hp.paces 0 h.valid
  exact h.congr hpaces.valid hp.same.2.1 hp.same.2.2

theorem StagedStamp.of_eq {sensorNum : BitVec 8} (h : StagedStamp c s sensorNum)
    (hstaged : staged c s' = staged c s) : StagedStamp c s' sensorNum := by
  rw [StagedStamp, hstaged]
  exact h

end

section

variable {c : Config w} {s s' : St w} (hcap : 2 ≤ c.fifo.cap) (hcap' : c.fifo.cap < 2 ^ 16)
  (htight : c.tightTimestamps = true)

include hcap hcap' htight

omit hcap' in
theorem Accompanied.ensureSpace (h : Accompanied c s) :
    Accompanied c (fifoEnsureSpace c s) ∧
      ∀ sensorNum, StagedStamp c s sensorNum → StagedStamp c (fifoEnsureSpace c s) sensorNum := by
  obtain ⟨-, hsame | ⟨hfull, xs, -, henough⟩⟩ := fifoEnsureSpace_spec h.valid
  · rw [hsame]
    exact ⟨h, fun _ => id⟩
  · exact ⟨h.enough htight henough, fun _ hstamp => hstamp.enough hcap hfull henough⟩

theorem Accompanied.writeUnit (h : Accompanied c s) (e : Env) (data : SensorData)
    (hstamp : isTimestamp data = true ∨ StagedStamp c s data.sensorNum) :
    Accompanied c (writeUnit c e data s) ∧
      (isTimestamp data = true → StagedStamp c (writeUnit c e data s) data.sensorNum) := by
  obtain ⟨hspaced, hkept⟩ := h.ensureSpace hcap htight
  have hsensor : (flagged c e data).sensorNum = data.sensorNum :=
    BitVec.eq_of_toNat_eq (flagged_sensor e data)
  have hwrote := hspaced.wrote hcap' (fifoEnsureSpace_spec h.valid).1 (writeUnit_wrote h.valid e data)
  rw [isTimestamp_flagged, hsensor] at hwrote
  exact hwrote (hstamp.imp id (hkept data.sensorNum))

theorem Accompanied.stageTimestamp (h : Accompanied c s) (e : Env) (time : BitVec 32) (sensorNum : BitVec 8) :
    Accompanied c (fifoStageTimestamp c e time sensorNum s) ∧
      StagedStamp c (fifoStageTimestamp c e time sensorNum s) sensorNum := by
  have hp : Prepared c ⟨flagTimestamp, sensorNum, e.reserved, time⟩ s
      (sightTimestamp c ⟨flagTimestamp, sensorNum, e.reserved, time⟩ s) := by
    rw [Prepared]
  obtain ⟨hwritten, hstamp⟩ := (h.prepared hp).writeUnit hcap hcap' htight e _
    (.inl (isTimestamp_stamp e time sensorNum))
  rw [fifoStageTimestamp_eq]
  exact ⟨hwritten, hstamp (isTimestamp_stamp e time sensorNum)⟩

theorem Accompanied.stageUnit (h : Accompanied c s) (e : Env) (data : SensorData) (sensor : Option Nat)
    (validData : Nat) (hstamp : isTimestamp data = true ∨ StagedStamp c s data.sensorNum) :
    Accompanied c (fifoStageUnit c e data sensor validData s) := by
  obtain hsame | ⟨s₁, hp, hs₁ | hs₁⟩ := fifoStageUnit_cases (c := c) e data sensor validData s
  · rw [hsame]
    exact h
  · rw [hs₁]
    exact h.prepared hp
  · rw [hs₁]
    exact ((h.prepared hp).writeUnit hcap hcap' htight e data
      (hstamp.imp id fun hs => hs.of_eq hp.same.2.1)).1

omit hcap hcap' htight in
theorem Accompanied.commitData (h : Accompanied c s) : Accompanied c (motionSenseFifoCommitData c s) := by
  by_cases hcount : s.fifoStaged.count = 0
  · rw [motionSenseFifoCommitData, if_pos (by simpa using hcount)]
    exact h
  · obtain ⟨s₀, s₁, hc⟩ := commitData_commits h.valid hcount
    have hrestamped := hc.rounds.restamped
    have hstaged₀ : staged c s₀ = staged c s := by
      rw [hc.check]
      rfl
    rw [hstaged₀] at hrestamped
    refine ⟨hc.valid, ?_, ?_⟩
    · rw [hc.staged]
      exact tied_nil
    · intro batch hbatch
      rw [hc.batches] at hbatch
      obtain hold | hnew := List.mem_append.mp hbatch
      · exact h.batches batch hold
      · rw [List.mem_singleton.mp hnew]
        exact ⟨h.tied, hrestamped⟩

theorem call_accompanied (e : Env) (h : Accompanied c s) (i : Call c) : Accompanied c (call e s i) := by
  cases i with
  | stageData data _ sensor validData time =>
    obtain ⟨hstamped, hstamp⟩ := h.stageTimestamp hcap hcap' htight e time data.sensorNum
    have hnote := noteInterrupt_eq data sensor time (fifoStageTimestamp c e time data.sensorNum s)
    simp only [call, motionSenseFifoStageData]
    rw [if_pos htight, hnote]
    have hnoted : Accompanied c { fifoStageTimestamp c e time data.sensorNum s with
        apInterruptNeeded := (noteInterrupt data sensor time
          (fifoStageTimestamp c e time data.sensorNum s)).apInterruptNeeded } :=
      hstamped.congr hstamped.valid rfl rfl
    exact hnoted.stageUnit hcap hcap' htight e data sensor validData (.inr hstamp)
  | addTimestamp timestamp =>
    exact (h.stageTimestamp hcap hcap' htight e timestamp 0xff).1.commitData
  | insertAsyncEvent sensor event =>
    exact (h.stageUnit hcap hcap' htight e _ (some sensor.toNat) 0
      (.inl (isTimestamp_async e sensor event))).commitData
  | commitData => exact h.commitData
  | read capacityBytes maxCount out =>
    have hr := read_reads h.valid capacityBytes maxCount out
    exact h.congr hr.valid hr.staged (by simp only [call]; rw [hr.rest])
  | getInfo reset =>
    cases reset with
    | false => exact h
    | true => exact h.congr h.valid rfl rfl
  | resetNeededFlags =>
    simp only [call, motionSenseFifoResetNeededFlags]
    split
    · exact h.congr h.valid rfl rfl
    · exact h.congr h.valid rfl rfl
  | setDataPeriod sensorNum dataPeriod => exact h.congr h.valid rfl rfl
  | fifoReset =>
    obtain ⟨hvalid, -, hstaged⟩ := empty_queueInit (c := c) (s := call e s .fifoReset) s.fifo rfl rfl
    refine ⟨hvalid, ?_, h.batches⟩
    rw [hstaged]
    exact tied_nil
  | configure sensor m => exact h.congr h.valid rfl rfl

theorem run_accompanied (h : Accompanied c s) (is : List (Env × Call c)) : Accompanied c (run s is) := by
  induction is generalizing s with
  | nil => exact h
  | cons i is ih =>
    have hcall := call_accompanied hcap hcap' htight i.1 h i.2
    exact ih (hcall.congr hcall.valid rfl rfl)

end

theorem accompanied_initial (c : Config w) (buffer : Queue.Mem) : Accompanied c (initial buffer) := by
  obtain ⟨hvalid, -, hstaged⟩ := empty_queueInit (c := c) (s := initial buffer)
    ⟨0, 0, false, buffer, [], []⟩ rfl rfl
  refine ⟨hvalid, ?_, ?_⟩
  · rw [hstaged]
    exact tied_nil
  · intro batch hbatch
    cases hbatch

/-! ## Timestamps of a run -/

/-- The timestamps as staged and as committed that the data of the sensor carries, from `s`
to `s'`. -/
def carriedIn (n : Nat) (s s' : St w) : List (BitVec 32 × BitVec 32) :=
  (s'.batches.drop s.batches.length).flatMap (carried n)

/-- What happens to the timestamps of the sensor from `s` to `s'`. -/
def ticksIn (n : Nat) (s s' : St w) : List (Tick 32) := ticks n (s'.marks.drop s.marks.length)

/-- Data of the sensor carries a timestamp. -/
def Carried (n : Nat) (batch : List SensorData × List SensorData) : Prop :=
  ∀ j x, batch.2[j]? = some x → isData x = true → x.sensor = n → (carriedAt n batch j).isSome = true

section

variable {c : Config w} {n : Nat} {s s' : St w}

theorem Paces.in_eq {ms : List Mark} {bs : List (List SensorData × List SensorData)}
    (h : Paces c n s s' ms bs) :
    Keeps (s.expectedDataPeriods n) (paceOf c s n) (ticksIn n s s') ∧
      stamps (ticksIn n s s') = carriedIn n s s' := by
  have hticks : ticksIn n s s' = MotionSense.ticks n ms := by
    rw [ticksIn, h.ticks.marks, List.drop_left]
  have hcarried : carriedIn n s s' = bs.flatMap (MotionSense.carried n) := by
    rw [carriedIn, h.batches, List.drop_left]
  rw [hticks, hcarried]
  exact ⟨h.ticks.keeps, h.carried⟩

theorem isTimestamp_of_isData {x : SensorData} (h : isData x = true) : isTimestamp x = false := by
  simp only [isData, beq_iff_eq] at h
  have hzero : x.flags &&& flagTimestamp = 0 := by
    have hand := congrArg (· &&& flagTimestamp) h
    simp only [BitVec.and_assoc] at hand
    rw [show (flagTimestamp ||| flagOdr) &&& flagTimestamp = flagTimestamp from rfl] at hand
    rw [hand]
    rfl
  simp [isTimestamp, hzero]

/-- Data is committed right behind a timestamp, which it carries. -/
theorem Accompanied.data_carried (h : Accompanied c s) (n : Nat) : ∀ batch ∈ s.batches, Carried n batch := by
  rintro ⟨raw, out⟩ hbatch j x hx hdata hn
  obtain ⟨htied, hrestamped⟩ := h.batches (raw, out) hbatch
  have hnot := isTimestamp_of_isData hdata
  obtain ⟨y, hy, hyx⟩ := forall₂_getElem? (R := flip Restamped) hrestamped.flip hx
  obtain rfl : x = y := by
    obtain heq | ⟨hts, t, heq⟩ := hyx
    · exact heq
    · rw [heq] at hnot
      exact absurd hts (by rw [show isTimestamp y = false from hnot]; exact Bool.false_ne_true)
  obtain ⟨i, t, rfl, ht, hts, -⟩ := htied.before hy (by rw [hnot]; exact Bool.false_ne_true)
  obtain ⟨t', ht', -⟩ := forall₂_getElem? hrestamped ht
  rw [carriedAt_succ ht hy ht', hts, hdata, hn]
  simp

end

/-- A run from a reachable state `s` to `s'` without a reset of whether the timestamp of the
sensor has been seen. -/
def BetweenResets (c : Config w) (n : Nat) (s s' : St w) : Prop :=
  ∃ (buffer : Queue.Mem) (before is : List (Env × Call c)),
    s = run (initial buffer) before ∧ s' = run s is ∧ ∀ i ∈ is, i.2.resetsTimestamp n = false

/-- Timestamps are not committed earlier than they were staged, and those that data carries are
at least the data period later than the last, if as staged they were less than half a turn
away from where they were expected. -/
structure Spread (n : Nat) (s s' : St w) : Prop where
  notEarlier : ∀ batch ∈ s'.batches.drop s.batches.length, NotEarlier batch
  spaced : (carriedIn n s s').IsChain fun x y => Near y.1 (x.2 + s.expectedDataPeriods n) →
    timeAfter (x.2 + s.expectedDataPeriods n) y.2 = false

/-- The timestamps of a sensor are spread. They depend on nothing but what was staged for the
sensor, and where there is room for pairs all data of the sensor carries one. -/
theorem timestamps_spread {c : Config w} {n : Nat} {s s' : St w} (h : BetweenResets c n s s') :
    Spread n s s' ∧
      (∀ t t', BetweenResets c n t t' → (paceOf c s n).Same (paceOf c t n) →
        s.expectedDataPeriods n = t.expectedDataPeriods n →
        (ticksIn n s s').map Tick.raw = (ticksIn n t t').map Tick.raw →
        carriedIn n s s' = carriedIn n t t') ∧
      (2 ≤ c.fifo.cap → c.fifo.cap < 2 ^ 16 → c.tightTimestamps = true →
        ∀ batch ∈ s'.batches, Carried n batch) := by
  have hkeeps : ∀ t t', BetweenResets c n t t' → Keeps (t.expectedDataPeriods n) (paceOf c t n) (ticksIn n t t') ∧
      stamps (ticksIn n t t') = carriedIn n t t' := by
    rintro t t' ⟨buffer, before, is, rfl, rfl, his⟩
    have hvalid := run_valid (accompanied_initial c buffer).valid before
    obtain ⟨ms, bs, hpaces⟩ := run_paces n hvalid is his
    exact hpaces.in_eq
  obtain ⟨hk, hstamps⟩ := hkeeps s s' h
  refine ⟨⟨?_, ?_⟩, ?_, ?_⟩
  · obtain ⟨buffer, before, is, rfl, rfl, his⟩ := h
    have hvalid := run_valid (accompanied_initial c buffer).valid before
    obtain ⟨ms, bs, hpaces⟩ := run_paces n hvalid is his
    rw [hpaces.batches, List.drop_left]
    exact hpaces.notEarlier
  · rw [← hstamps]
    exact hk.spaced
  · intro t t' ht hsame hperiod hraw
    obtain ⟨hk', hstamps'⟩ := hkeeps t t' ht
    rw [← hperiod] at hk'
    rw [← hstamps, ← hstamps', hk.unique hsame hk' hraw]
  · intro hcap hcap' htight
    obtain ⟨buffer, before, is, rfl, rfl, -⟩ := h
    have hbefore := run_accompanied hcap hcap' htight (accompanied_initial c buffer) before
    exact (run_accompanied hcap hcap' htight hbefore is).data_carried n

/-- With a period of ten, a sample is staged at five and another at seven. -/
def hurried : List (Env × Call (narrowConfig true)) :=
  let sampleAt := fun time => (calmEnv, .stageData ⟨0, 0, 0, 0⟩ (by show 0 < 1; decide) none 0 time)
  [sampleAt 5, (calmEnv, .commitData), (calmEnv, .read 16 2 fun _ => 0), sampleAt 7, (calmEnv, .commitData)]

def periodTen : St 32 := run (initial fun _ => 0) [((calmEnv, .setDataPeriod 0 10) : Env × Call (narrowConfig true))]

theorem timestamps_spread_hurried :
    BetweenResets (narrowConfig true) 0 periodTen (run periodTen hurried) ∧
      carriedIn 0 periodTen (run periodTen hurried) = [(5, 5), (7, 15)] ∧
      Spread 0 periodTen (run periodTen hurried) := by
  have hbetween : BetweenResets (narrowConfig true) 0 periodTen (run periodTen hurried) := by
    refine ⟨fun _ => 0, [(calmEnv, .setDataPeriod 0 10)], hurried, rfl, rfl, ?_⟩
    intro i hi
    simp only [hurried, List.mem_cons, List.not_mem_nil, or_false] at hi
    obtain rfl | rfl | rfl | rfl | rfl := hi
    all_goals rfl
  exact ⟨hbetween, by decide +kernel, (timestamps_spread hbetween).1⟩

end ChromeEc.MotionSense
