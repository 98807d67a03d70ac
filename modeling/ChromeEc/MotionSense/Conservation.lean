import ChromeEc.Lib.Belt
import ChromeEc.MotionSense.Commit

/- No entry is lost without being counted.

  A `Belt` goes with the state: the numbers of the entries that were written, by the place
  where they are now. Every function moves it along (`Books.popped`, `Books.wrote`,
  `Books.commits`, `Books.reads`), and an entry keeps its place in the order.

  The count of staged entries has 16 bits. A buffer of that many entries can be filled
  without a commit, after which the count is zero and all of them are gone without being
  counted.

  What is proved: the entries fit into the buffer and there is always a chunk to write to;
  with a smaller buffer each entry is in one place, and the counters count the losses
  (`fifo_conserved`). -/
namespace ChromeEc.MotionSense
open Lib

variable {w : Nat}

/-! ## The books -/

/-- `x` is the entry that was written as number `i`. -/
def Is (written : List (SensorData × Nat)) (i : Nat) (x : SensorData) : Prop :=
  ∃ y, written[i]? = some y ∧ Restamped y.1 x

def isLossOf (written : List (SensorData × Nat)) (n i : Nat) : Bool :=
  match written[i]? with
  | none => false
  | some y => !isTimestamp y.1 && y.1.sensor == n

def Counts (written : List (SensorData × Nat)) (lost : List Nat) (counters : BitVec 32 × (Nat → BitVec 16)) :
    Prop :=
  counters.1 = BitVec.ofNat 32 lost.length ∧
    ∀ n, counters.2 n = BitVec.ofNat 16 (lost.countP (isLossOf written n))

/-- Where the entries are, and what has been counted, since the last reset and before. -/
structure Books (c : Config w) (s : St w) (b : Belt) : Prop where
  sound : b.Sound s.written.length
  returned : List.Forall₂ (Is s.written) b.returned s.returned
  committed : List.Forall₂ (Is s.written) b.committed (committed c s)
  staged : List.Forall₂ (Is s.written) b.staged (staged c s)
  lost : Counts s.written b.lost (s.fifoLost, s.fifoSensorLost)
  archive : List.Forall₂ (Counts s.written) b.archive s.resets

section

variable {c : Config w} {s s' : St w} {b : Belt}

theorem Is.append {written : List (SensorData × Nat)} {i : Nat} {x : SensorData} (h : Is written i x)
    (y : SensorData × Nat) : Is (written ++ [y]) i x := by
  obtain ⟨z, hz, hx⟩ := h
  have hlt : i < written.length := (List.getElem?_eq_some_iff.mp hz).1
  exact ⟨z, by rw [List.getElem?_append_left hlt]; exact hz, hx⟩

theorem isLossOf_append {written : List (SensorData × Nat)} {n i : Nat} (h : i < written.length)
    (y : SensorData × Nat) : isLossOf (written ++ [y]) n i = isLossOf written n i := by
  unfold isLossOf
  rw [List.getElem?_append_left h]

theorem Is.isLossOf {written : List (SensorData × Nat)} {i : Nat} {x : SensorData} (h : Is written i x)
    (n : Nat) : isLossOf written n i = (!isTimestamp x && x.sensor == n) := by
  obtain ⟨y, hy, hx⟩ := h
  simp only [MotionSense.isLossOf, hy, hx.isTimestamp, hx.sensor]

theorem addLost_eq (lost : Nat → BitVec 16) (x : SensorData) (n : Nat) :
    addLost lost x n = lost n + if !isTimestamp x && x.sensor == n then 1 else 0 := by
  unfold addLost
  cases hts : isTimestamp x with
  | true => simp
  | false =>
    by_cases hn : x.sensor = n
    · subst hn
      simp
    · rw [if_neg (by simp), update_other _ _ (Ne.symm hn)]
      simp [hn]

theorem forall₂_imp_mem {α β : Type} {R S : α → β → Prop} {xs : List α} {ys : List β}
    (hRS : ∀ a b, a ∈ xs → R a b → S a b) (h : List.Forall₂ R xs ys) : List.Forall₂ S xs ys := by
  induction h with
  | nil => exact .nil
  | cons hab _ ih =>
    refine .cons (hRS _ _ (List.mem_cons_self ..) hab) (ih ?_)
    exact fun a b ha => hRS a b (List.mem_cons_of_mem _ ha)

theorem forall₂_trans {α β γ : Type} {R : α → β → Prop} {S : β → γ → Prop} {T : α → γ → Prop}
    (hT : ∀ a b c, R a b → S b c → T a c) {xs : List α} {ys : List β} {zs : List γ}
    (h₁ : List.Forall₂ R xs ys) (h₂ : List.Forall₂ S ys zs) : List.Forall₂ T xs zs := by
  induction h₁ generalizing zs with
  | nil =>
    cases h₂
    exact .nil
  | cons hxy _ ih =>
    cases h₂ with
    | cons hyz hrest => exact .cons (hT _ _ _ hxy hyz) (ih hrest)

theorem Counts.dropped {written : List (SensorData × Nat)} {lost : List Nat} {k : BitVec 32}
    {f : Nat → BitVec 16} (h : Counts written lost (k, f)) {i : Nat} {x : SensorData} (hi : Is written i x) :
    Counts written (lost ++ [i]) (k + 1, addLost f x) := by
  obtain ⟨hk, hf⟩ := h
  dsimp only at hk hf
  refine ⟨?_, ?_⟩
  · rw [hk, List.length_append, List.length_singleton, ← BitVec.ofNat_add_ofNat]
    rfl
  · intro n
    dsimp only
    rw [addLost_eq, hf, List.countP_append, List.countP_singleton, hi.isLossOf,
      ← BitVec.ofNat_add_ofNat]
    split
    · rfl
    · rfl

/-- Entries that are written later are not among the losses. -/
theorem Counts.append {written : List (SensorData × Nat)} {lost : List Nat}
    {counters : BitVec 32 × (Nat → BitVec 16)} (h : Counts written lost counters)
    (hlt : ∀ i ∈ lost, i < written.length) (y : SensorData × Nat) :
    Counts (written ++ [y]) lost counters := by
  refine ⟨h.1, ?_⟩
  intro n
  rw [h.2]
  congr 1
  apply List.countP_congr
  intro i hi
  rw [isLossOf_append (hlt i hi)]

theorem Books.popped (h : Books c s b) {x : SensorData} (hx : Popped c x s s') : Books c s' b.drop := by
  have hwritten : s'.written = s.written := by rw [hx.rest]
  have hreturned : s'.returned = s.returned := by rw [hx.rest]
  have hcounters : (s'.fifoLost, s'.fifoSensorLost) = (s.fifoLost + 1, addLost s.fifoSensorLost x) := by
    rw [hx.rest]
  have hresets : s'.resets = s.resets := by rw [hx.rest]
  have hsound := h.sound.drop
  obtain ⟨hc, hs, -⟩ | ⟨hc, hc', hs, -⟩ := hx.lists
  · have hcommitted := h.committed
    rw [hc] at hcommitted
    obtain ⟨i, is, hi, his, hb⟩ := List.forall₂_cons_right_iff.mp hcommitted
    rw [Belt.drop_committed hb] at hsound ⊢
    constructor
    · rw [hwritten]
      exact hsound
    · rw [hwritten, hreturned]
      exact h.returned
    · rw [hwritten]
      exact his
    · rw [hwritten, hs]
      exact h.staged
    · rw [hwritten, hcounters]
      exact h.lost.dropped hi
    · rw [hwritten, hresets]
      exact h.archive
  · have hcommitted := h.committed
    have hstaged := h.staged
    rw [hc] at hcommitted
    rw [hs] at hstaged
    have hb := List.forall₂_nil_right_iff.mp hcommitted
    obtain ⟨i, is, hi, his, hb'⟩ := List.forall₂_cons_right_iff.mp hstaged
    rw [Belt.drop_staged hb hb'] at hsound ⊢
    constructor
    · rw [hwritten]
      exact hsound
    · rw [hwritten, hreturned]
      exact h.returned
    · rw [hc', hb]
      exact .nil
    · rw [hwritten]
      exact his
    · rw [hwritten, hcounters]
      exact h.lost.dropped hi
    · rw [hwritten, hresets]
      exact h.archive

theorem Books.wrote (h : Books c s b) {x : SensorData} (hx : Wrote c x s s')
    (hcount : s.fifoStaged.count ≠ 0xffff) : Books c s' (b.write s.written.length) := by
  have hwritten : s'.written = s.written ++ [(x, s.calls)] := by rw [hx.rest]
  have hreturned : s'.returned = s.returned := by rw [hx.rest]
  have hcounters : (s'.fifoLost, s'.fifoSensorLost) = (s.fifoLost, s.fifoSensorLost) := by rw [hx.rest]
  have hresets : s'.resets = s.resets := by rw [hx.rest]
  have hgrow : ∀ {is : List Nat} {xs : List SensorData}, List.Forall₂ (Is s.written) is xs →
      List.Forall₂ (Is (s.written ++ [(x, s.calls)])) is xs :=
    fun hall => hall.imp fun _ _ hi => hi.append _
  have hnew : Is (s.written ++ [(x, s.calls)]) s.written.length x :=
    ⟨(x, s.calls), by simp, .inl rfl⟩
  have hdropped : ∀ i ∈ b.dropped, i < s.written.length :=
    fun i hi => h.sound.lt (List.mem_append_right _ hi)
  constructor
  · rw [hwritten, List.length_append]
    exact h.sound.write
  · rw [hwritten, hreturned]
    exact hgrow h.returned
  · rw [hwritten, hx.committed]
    exact hgrow h.committed
  · rw [hwritten, hx.staged, if_neg hcount]
    exact List.rel_append (hgrow h.staged) (.cons hnew .nil)
  · rw [hwritten, hcounters]
    exact h.lost.append (fun i hi => hdropped i (List.mem_append_left _ hi)) _
  · rw [hwritten, hresets]
    refine forall₂_imp_mem ?_ h.archive
    intro lost counters hmem hcounts
    refine hcounts.append (fun i hi => hdropped i ?_) _
    exact List.mem_append_right _ (List.mem_flatten.mpr ⟨lost, hmem, hi⟩)

/-- The rounds of the loop replace timestamps, and nothing else. -/
theorem Rounds.rest {n : Nat} (h : Rounds c s n s') :
    s' = { s with
      fifo := s'.fifo
      bypassNeeded := s'.bypassNeeded
      wakeUpNeeded := s'.wakeUpNeeded
      nextTimestamp := s'.nextTimestamp
      nextTimestampInitialized := s'.nextTimestampInitialized
      prints := s'.prints
      marks := s'.marks } ∧
    (.failedToGetWriteChunk ∈ s'.prints → .failedToGetWriteChunk ∈ s.prints) := by
  induction h with
  | zero => exact ⟨rfl, id⟩
  | @succ n s₁ s₂ _ hround ih =>
    obtain ⟨heq, hprints⟩ := ih
    cases hround with
    | quiet _ hprints' rest =>
      refine ⟨?_, fun hp => hprints (hprints' hp)⟩
      rw [rest]
      rw [heq]
    | spread _ _ _ _ _ _ _ _ _ _ _ rest =>
      refine ⟨?_, ?_⟩
      · rw [rest]
        rw [heq]
      · rw [rest]
        exact hprints

/-- The record of what is written, returned and counted. -/
def books (s : St w) : List (SensorData × Nat) × List SensorData × (BitVec 32 × (Nat → BitVec 16)) ×
    List (BitVec 32 × (Nat → BitVec 16)) :=
  (s.written, s.returned, (s.fifoLost, s.fifoSensorLost), s.resets)

theorem Commits.kept {s₀ s₁ : St w} (h : Commits c s s₀ s₁ s') : books s' = books s := by
  calc books s' = books s₁ := by rw [h.rest]; rfl
    _ = books s₀ := by rw [h.rounds.rest.1]; rfl
    _ = books s := by rw [h.check]; rfl

theorem Books.commits (h : Books c s b) {s₀ s₁ : St w} (hc : Commits c s s₀ s₁ s') :
    Books c s' b.commit := by
  have hkept := hc.kept
  simp only [books, Prod.mk.injEq] at hkept
  obtain ⟨hwritten, hreturned, ⟨hfifoLost, hsensorLost⟩, hresets⟩ := hkept
  have hstaged₀ : MotionSense.staged c s₀ = MotionSense.staged c s := by
    rw [hc.check]
    rfl
  have hrestamped : List.Forall₂ (Is s.written) b.staged (MotionSense.staged c s₁) := by
    have hstep := hc.rounds.restamped
    rw [hstaged₀] at hstep
    refine forall₂_trans ?_ h.staged hstep
    rintro i x y ⟨z, hz, hzx⟩ hxy
    exact ⟨z, hz, hzx.trans hxy⟩
  constructor
  · rw [hwritten]
    exact h.sound.commit
  · rw [hwritten, hreturned]
    exact h.returned
  · rw [hwritten, hc.committed]
    exact List.rel_append h.committed hrestamped
  · rw [hc.staged]
    exact .nil
  · rw [hwritten, hfifoLost, hsensorLost]
    exact h.lost
  · rw [hwritten, hresets]
    exact h.archive

theorem Books.reads (h : Books c s b) {n : Nat} (hr : Reads c n s s') : Books c s' (b.read n) := by
  have hwritten : s'.written = s.written := by rw [hr.rest]
  have hreturned : s'.returned = s.returned ++ (MotionSense.committed c s).take n := by
    rw [hr.rest]
  have hcounters : (s'.fifoLost, s'.fifoSensorLost) = (s.fifoLost, s.fifoSensorLost) := by rw [hr.rest]
  have hresets : s'.resets = s.resets := by rw [hr.rest]
  constructor
  · rw [hwritten]
    exact h.sound.read n
  · rw [hwritten, hreturned]
    exact List.rel_append h.returned (List.forall₂_take n h.committed)
  · rw [hwritten, hr.committed]
    exact List.forall₂_drop n h.committed
  · rw [hwritten, hr.staged]
    exact h.staged
  · rw [hwritten, hcounters]
    exact h.lost
  · rw [hwritten, hresets]
    exact h.archive

end

/-! ## Staging -/

section

variable {c : Config w} {s s' : St w} {b : Belt}

/-- The state is valid, no write chunk was missing, and the books are kept if the count of
staged entries does not overflow. -/
structure Kept (c : Config w) (s : St w) (b : Belt) : Prop where
  valid : Valid c s
  chunks : .failedToGetWriteChunk ∉ s.prints
  books : c.fifo.cap < 2 ^ 16 → Books c s b

theorem Kept.frame (h : Kept c s b)
    (heq : s' = { s with
      nextTimestamp := s'.nextTimestamp
      expectedDataPeriods := s'.expectedDataPeriods
      nextTimestampInitialized := s'.nextTimestampInitialized
      bypassNeeded := s'.bypassNeeded
      wakeUpNeeded := s'.wakeUpNeeded
      apInterruptNeeded := s'.apInterruptNeeded
      tsLastInt := s'.tsLastInt
      motionSensors := s'.motionSensors
      calls := s'.calls
      marks := s'.marks }) : Kept c s' b := by
  rw [heq]
  refine ⟨h.valid, h.chunks, fun hcap => ?_⟩
  have hbooks := h.books hcap
  exact ⟨hbooks.sound, hbooks.returned, hbooks.committed, hbooks.staged, hbooks.lost, hbooks.archive⟩

theorem Pops.kept {xs : List SensorData} (h : Pops c xs s s') (hk : Kept c s b) :
    Kept c s' (Belt.drop^[xs.length] b) := by
  induction h generalizing b with
  | nil => exact hk
  | cons hx _ ih =>
    apply ih
    refine ⟨hx.valid, ?_, fun hcap => (hk.books hcap).popped hx⟩
    rw [hx.rest]
    exact hk.chunks

theorem Kept.ensureSpace (h : Kept c s b) : ∃ n, Kept c (fifoEnsureSpace c s) (Belt.drop^[n] b) := by
  obtain ⟨-, hsame | ⟨-, xs, -, henough⟩⟩ := fifoEnsureSpace_spec h.valid
  · rw [hsame]
    exact ⟨0, h⟩
  · exact ⟨xs.length, henough.pops.kept h⟩

theorem count_ne_of_cap (hcap : c.fifo.cap < 2 ^ 16)
    (hspace : (committed c s ++ staged c s).length < c.fifo.cap) : s.fifoStaged.count ≠ 0xffff := by
  intro h
  rw [List.length_append, length_staged, h] at hspace
  have hmax : (0xffff : BitVec 16).toNat = 65535 := rfl
  omega

theorem Kept.wrote {x : SensorData} (h : Kept c s b)
    (hspace : (committed c s ++ staged c s).length < c.fifo.cap) (hx : Wrote c x s s') :
    Kept c s' (b.write s.written.length) := by
  refine ⟨hx.valid, ?_, fun hcap => (h.books hcap).wrote hx (count_ne_of_cap hcap hspace)⟩
  rw [hx.rest]
  exact h.chunks

theorem Kept.writeUnit (h : Kept c s b) (e : Env) (data : SensorData) :
    ∃ b', Kept c (writeUnit c e data s) b' := by
  obtain ⟨n, hdrops⟩ := h.ensureSpace
  exact ⟨_, hdrops.wrote (fifoEnsureSpace_spec h.valid).1 (writeUnit_wrote h.valid e data)⟩

/-- What staging does before it makes space. -/
def Prepared (c : Config w) (data : SensorData) (s s₁ : St w) : Prop :=
  s₁ = { sightTimestamp c data s with motionSensors := s₁.motionSensors }

theorem sightTimestamp_eq (c : Config w) (data : SensorData) (s : St w) :
    sightTimestamp c data s = { s with
      nextTimestamp := (sightTimestamp c data s).nextTimestamp
      nextTimestampInitialized := (sightTimestamp c data s).nextTimestampInitialized
      marks := (sightTimestamp c data s).marks } := by
  unfold sightTimestamp
  split
  · dsimp only
    split
    · rfl
    · rfl
  · rfl

theorem oversample_eq (i : Nat) (s : St w) :
    (oversample i s).2 = { s with motionSensors := (oversample i s).2.motionSensors } := by
  unfold oversample
  dsimp only
  split
  · rfl
  · rfl

/-- Nothing happens, or the entry is not needed, or it is written. -/
theorem fifoStageUnit_cases (e : Env) (data : SensorData) (sensor : Option Nat) (validData : Nat) (s : St w) :
    fifoStageUnit c e data sensor validData s = s ∨
      ∃ s₁, Prepared c data s s₁ ∧ (fifoStageUnit c e data sensor validData s = s₁ ∨
        fifoStageUnit c e data sensor validData s = writeUnit c e data s₁) := by
  unfold fifoStageUnit
  split
  · exact .inr ⟨sightTimestamp c data s, by rw [Prepared], .inr rfl⟩
  · split
    · exact .inl rfl
    · dsimp only
      split
      · exact .inr ⟨_, oversample_eq _ _, .inl rfl⟩
      · exact .inr ⟨_, oversample_eq _ _, .inr rfl⟩

theorem Prepared.kept {data : SensorData} {s₁ : St w} (hp : Prepared c data s s₁) (h : Kept c s b) :
    Kept c s₁ b := by
  rw [hp, sightTimestamp_eq]
  exact h.frame rfl

theorem Kept.stageUnit (h : Kept c s b) (e : Env) (data : SensorData) (sensor : Option Nat)
    (validData : Nat) :
    ∃ b', Kept c (fifoStageUnit c e data sensor validData s) b' := by
  obtain hsame | ⟨s₁, hp, hs₁ | hs₁⟩ := fifoStageUnit_cases (c := c) e data sensor validData s
  · rw [hsame]
    exact ⟨b, h⟩
  · rw [hs₁]
    exact ⟨b, hp.kept h⟩
  · rw [hs₁]
    exact (hp.kept h).writeUnit e data

/-- The books are kept without an entry being written or dropped. -/
structure Stays (c : Config w) (s s' : St w) (b b' : Belt) : Prop where
  kept : Kept c s' b'
  line : b'.line = b.line
  written : s'.written = s.written

theorem Kept.commitData (h : Kept c s b) : ∃ b', Stays c s (motionSenseFifoCommitData c s) b b' := by
  by_cases hcount : s.fifoStaged.count = 0
  · rw [motionSenseFifoCommitData, if_pos (by simpa using hcount)]
    exact ⟨b, h, rfl, rfl⟩
  · obtain ⟨s₀, s₁, hc⟩ := commitData_commits h.valid hcount
    refine ⟨b.commit, ⟨hc.valid, ?_, fun hcap => (h.books hcap).commits hc⟩, Belt.line_commit, ?_⟩
    · rw [hc.rest]
      exact fun hp => h.chunks (hc.prints (hc.rounds.rest.2 hp))
    · exact (Prod.mk.inj hc.kept).1

end

/-! ## Runs -/

section

variable {c : Config w}

/-- `motion_sense_fifo_reset`, which empties the FIFO without counting. -/
def Call.isFifoReset : Call c → Bool
  | .fifoReset => true
  | _ => false

theorem noteInterrupt_eq (data : SensorData) (sensor : Option Nat) (time : BitVec 32) (s : St w) :
    noteInterrupt data sensor time s =
      { s with apInterruptNeeded := (noteInterrupt data sensor time s).apInterruptNeeded } := by
  unfold noteInterrupt
  split
  · rfl
  · dsimp only
    split
    · rfl
    · rfl

theorem Kept.noteInterrupt {s : St w} {b : Belt} (h : Kept c s b) (data : SensorData) (sensor : Option Nat)
    (time : BitVec 32) : Kept c (noteInterrupt data sensor time s) b := by
  rw [noteInterrupt_eq]
  exact h.frame rfl

def Call.stages : Call c → Bool
  | .stageData .. => true
  | .addTimestamp .. => true
  | .insertAsyncEvent .. => true
  | _ => false

/-- Without a reset the other calls write nothing and drop nothing. -/
theorem call_stays (e : Env) {s : St w} {b : Belt} (h : Kept c s b) (i : Call c)
    (hi : i.isFifoReset = false) (hstages : i.stages = false) : ∃ b', Stays c s (call e s i) b b' := by
  cases i with
  | stageData data _ sensor validData time => cases hstages
  | addTimestamp timestamp => cases hstages
  | insertAsyncEvent sensor event => cases hstages
  | commitData => exact h.commitData
  | read capacityBytes maxCount out =>
    have hr := read_reads h.valid capacityBytes maxCount out
    refine ⟨b.read _, ⟨hr.valid, ?_, fun hcap => (h.books hcap).reads hr⟩, Belt.line_read _, ?_⟩
    · simp only [call]
      rw [hr.rest]
      exact h.chunks
    · simp only [call]
      rw [hr.rest]
  | getInfo reset =>
    cases reset with
    | false => exact ⟨b, h, rfl, rfl⟩
    | true =>
      refine ⟨b.putAway, ⟨h.valid, h.chunks, fun hcap => ?_⟩, rfl, rfl⟩
      have hbooks := h.books hcap
      exact ⟨hbooks.sound.putAway, hbooks.returned, hbooks.committed, hbooks.staged,
        ⟨rfl, fun _ => rfl⟩, List.rel_append hbooks.archive (.cons hbooks.lost .nil)⟩
  | resetNeededFlags =>
    simp only [call, motionSenseFifoResetNeededFlags]
    split
    · exact ⟨b, h.frame rfl, rfl, rfl⟩
    · exact ⟨b, h.frame rfl, rfl, rfl⟩
  | setDataPeriod sensorNum dataPeriod => exact ⟨b, h.frame rfl, rfl, rfl⟩
  | fifoReset => cases hi
  | configure sensor m => exact ⟨b, h.frame rfl, rfl, rfl⟩

theorem call_kept (e : Env) {s : St w} {b : Belt} (h : Kept c s b) (i : Call c)
    (hi : i.isFifoReset = false) : ∃ b', Kept c (call e s i) b' := by
  cases hstages : i.stages with
  | false =>
    obtain ⟨b', hstays⟩ := call_stays e h i hi hstages
    exact ⟨b', hstays.kept⟩
  | true =>
    cases i with
    | stageData data _ sensor validData time =>
      simp only [call, motionSenseFifoStageData]
      split
      · obtain ⟨b₁, h₁⟩ := h.stageUnit e ⟨flagTimestamp, data.sensorNum, e.reserved, time⟩ none 0
        exact (h₁.noteInterrupt data sensor time).stageUnit e data sensor validData
      · exact (h.noteInterrupt data sensor time).stageUnit e data sensor validData
    | addTimestamp timestamp =>
      obtain ⟨b₁, h₁⟩ := h.stageUnit e ⟨flagTimestamp, 0xff, e.reserved, timestamp⟩ none 0
      obtain ⟨b', hstays⟩ := h₁.commitData
      exact ⟨b', hstays.kept⟩
    | insertAsyncEvent sensor event =>
      obtain ⟨b₁, h₁⟩ := h.stageUnit e ⟨event.flags, sensor, e.reserved, e.hwClockSourceRead⟩
        (some sensor.toNat) 0
      obtain ⟨b', hstays⟩ := h₁.commitData
      exact ⟨b', hstays.kept⟩
    | _ => cases hstages

theorem kept_initial (buffer : Queue.Mem) : Kept c (initial buffer) Belt.empty := by
  obtain ⟨hvalid, hcommitted, hstaged⟩ := empty_queueInit (c := c) (s := initial buffer)
    ⟨0, 0, false, buffer, [], []⟩ rfl rfl
  refine ⟨hvalid, by simp [initial], fun _ => ⟨Belt.sound_empty, .nil, ?_, ?_, ⟨rfl, fun _ => rfl⟩, .nil⟩⟩
  · rw [hcommitted]
    exact .nil
  · rw [hstaged]
    exact .nil

theorem run_kept {s : St w} {b : Belt} (h : Kept c s b) (is : List (Env × Call c))
    (his : ∀ i ∈ is, i.2.isFifoReset = false) : ∃ b', Kept c (run s is) b' := by
  induction is generalizing s b with
  | nil => exact ⟨b, h⟩
  | cons i is ih =>
    obtain ⟨b₁, h₁⟩ := call_kept i.1 h i.2 (his i (List.mem_cons_self ..))
    have hstep : Kept c (step s i) b₁ := h₁.frame rfl
    exact ih hstep fun j hj => his j (List.mem_cons_of_mem i hj)

/-- Committed and staged entries fit into the buffer, and there is always a chunk to write
to. If the count of staged entries does not overflow, every entry that was written is staged,
committed, returned or counted as lost, and what is returned is in the order of writing. -/
theorem fifo_conserved (buffer : Queue.Mem) (is : List (Env × Call c))
    (his : ∀ i ∈ is, i.2.isFifoReset = false) :
    (Queue.queueCount (run (initial buffer) is).fifo).toNat +
        (run (initial buffer) is).fifoStaged.count.toNat ≤ c.fifo.cap ∧
      .failedToGetWriteChunk ∉ (run (initial buffer) is).prints ∧
      (c.fifo.cap < 2 ^ 16 → ∃ b, Books c (run (initial buffer) is) b) := by
  obtain ⟨b, h⟩ := run_kept (kept_initial buffer) is his
  exact ⟨h.valid, h.chunks, fun hcap => ⟨b, h.books hcap⟩⟩

theorem narrowQueue_units : (2 : BitVec 32).toNat.isPowerOfTwo := ⟨1, rfl⟩

theorem narrowQueue_mask : (1 : BitVec 32) = 2 - 1 := rfl

theorem narrowQueue_size : (2 : BitVec 32).toNat * (8 : BitVec 32).toNat < 2 ^ 32 := by decide

theorem unitBytes_pos : 0 < (8 : BitVec 32).toNat := by decide

theorem sizeT_le : 16 ≤ 32 := by decide

/-- A board whose FIFO holds one sample with its timestamp. -/
def narrowConfig (tightTimestamps : Bool) : Config 32 where
  fifo := {
    bufferUnits := 2
    bufferUnitsMask := 1
    unitBytes := 8
    powerOfTwo := narrowQueue_units
    mask_eq := narrowQueue_mask
    unitBytes_pos := unitBytes_pos
    sizeof_lt := narrowQueue_size }
  unitBytes_eq := rfl
  width_le := sizeT_le
  maxMotionSensors := 1
  maxMotionSensors_le := by decide
  tightTimestamps := tightTimestamps
  tabletMode := false

def calmEnv : Env := ⟨false, 0, 0, 0⟩

/-- Data of sensor 0, which is not checked for whether it is needed. -/
def sample (tightTimestamps : Bool) : Env × Call (narrowConfig tightTimestamps) :=
  (calmEnv, .stageData ⟨0, 0, 0, 0⟩ (by show 0 < 1; decide) none 0 0)

/-- Two samples, of which the first is lost, are committed and read. -/
def overflow : List (Env × Call (narrowConfig true)) :=
  [sample true, sample true, (calmEnv, .commitData), (calmEnv, .read 16 2 fun _ => 0)]

theorem overflow_calls : ∀ i ∈ overflow, i.2.isFifoReset = false := by
  intro i hi
  simp only [overflow, List.mem_cons, List.not_mem_nil, or_false] at hi
  obtain rfl | rfl | rfl | rfl := hi
  all_goals rfl

theorem fifo_conserved_overflow :
    ((narrowConfig true).fifo.cap < 2 ^ 16 ∧ ∀ i ∈ overflow, i.2.isFifoReset = false) ∧
      (run (initial fun _ => 0) overflow).returned.length = 2 ∧
      ∃ b, Books (narrowConfig true) (run (initial fun _ => 0) overflow) b := by
  have hcap : (narrowConfig true).fifo.cap < 2 ^ 16 := by decide
  exact ⟨⟨hcap, overflow_calls⟩, by decide +kernel,
    (fifo_conserved (fun _ => 0) overflow overflow_calls).2.2 hcap⟩

end

/-! ## A buffer as large as the count -/

section

/-- A board whose FIFO has 2^16 entries. -/
def wideConfig : Config 32 where
  fifo := {
    bufferUnits := 65536
    bufferUnitsMask := 65535
    unitBytes := 8
    powerOfTwo := ⟨16, rfl⟩
    mask_eq := rfl
    unitBytes_pos := unitBytes_pos
    sizeof_lt := by decide }
  unitBytes_eq := rfl
  width_le := sizeT_le
  maxMotionSensors := 1
  maxMotionSensors_le := by decide
  tightTimestamps := true
  tabletMode := false

/-- A sample of a sensor that the AP does not need: only its timestamp is staged. -/
def unneeded : Env × Call wideConfig := (calmEnv, .stageData ⟨0, 0, 0, 0⟩ (by decide) (some 0) 3 0)

/-- There are `k` staged entries, and nothing else has happened. -/
structure Filled (k : Nat) (s : St 32) : Prop where
  valid : Valid wideConfig s
  committed : committed wideConfig s = []
  count : s.fifoStaged.count = BitVec.ofNat 16 k
  written : s.written.length = k
  record : s.returned = [] ∧ s.fifoLost = 0 ∧ s.resets = []
  sensors : s.motionSensors = fun _ => ⟨0, 0, 0, 0⟩

theorem fifoStageTimestamp_eq (c : Config w) (e : Env) (time : BitVec 32) (sensorNum : BitVec 8) (s : St w) :
    fifoStageTimestamp c e time sensorNum s =
      writeUnit c e ⟨flagTimestamp, sensorNum, e.reserved, time⟩
        (sightTimestamp c ⟨flagTimestamp, sensorNum, e.reserved, time⟩ s) := rfl

theorem flagged_wideConfig (e : Env) (x : SensorData) : flagged wideConfig e x = x := rfl

theorem stageTimestamp_wrote {s : St 32} {k : Nat} (h : Filled k s) (hk : k < 65536) (time : BitVec 32)
    (sensorNum : BitVec 8) :
    ∃ s₁, s₁ = { s with
        nextTimestamp := s₁.nextTimestamp
        nextTimestampInitialized := s₁.nextTimestampInitialized
        marks := s₁.marks } ∧
      Wrote wideConfig ⟨flagTimestamp, sensorNum, 0, time⟩ s₁
        (fifoStageTimestamp wideConfig calmEnv time sensorNum s) := by
  refine ⟨_, sightTimestamp_eq wideConfig ⟨flagTimestamp, sensorNum, 0, time⟩ s, ?_⟩
  have hvalid : Valid wideConfig (sightTimestamp wideConfig ⟨flagTimestamp, sensorNum, 0, time⟩ s) := by
    rw [sightTimestamp_eq]
    exact h.valid
  have hlen : (MotionSense.committed wideConfig s ++ staged wideConfig s).length = k := by
    rw [h.committed, List.nil_append, length_staged, h.count, BitVec.toNat_ofNat, Nat.mod_eq_of_lt hk]
  have hspace : fifoEnsureSpace wideConfig (sightTimestamp wideConfig ⟨flagTimestamp, sensorNum, 0, time⟩ s)
      = sightTimestamp wideConfig ⟨flagTimestamp, sensorNum, 0, time⟩ s := by
    obtain ⟨-, hsame | ⟨hfull, -⟩⟩ := fifoEnsureSpace_spec hvalid
    · exact hsame
    · rw [sightTimestamp_eq] at hfull
      exact absurd (hlen.symm.trans hfull) (Nat.ne_of_lt hk)
  have hwrote := writeUnit_wrote hvalid calmEnv ⟨flagTimestamp, sensorNum, 0, time⟩
  rw [hspace, flagged_wideConfig] at hwrote
  rw [fifoStageTimestamp_eq]
  exact hwrote

/-- Of a sample that the AP does not need only the timestamp is written. -/
theorem stageData_removed {c : Config w} (htight : c.tightTimestamps = true) (e : Env) {data : SensorData}
    (hdata : isTimestamp data = false) (i : Nat) {validData : Nat} (hvalid : validData ≠ 0)
    (time : BitVec 32) {s s₁ : St w} (hs₁ : fifoStageTimestamp c e time data.sensorNum s = s₁)
    (hrate : (s₁.motionSensors i).ecRate = 0) (hratio : (s₁.motionSensors i).oversamplingRatio = 0) :
    motionSenseFifoStageData c e data (some i) validData time s = s₁ := by
  have hnote : noteInterrupt data (some i) time s₁ = s₁ := by
    simp [noteInterrupt, hrate]
  rw [motionSenseFifoStageData, if_pos htight, hs₁, hnote]
  simp [fifoStageUnit, hvalid, sightTimestamp, hdata, oversample, hratio]

theorem Filled.stageTimestamp {s : St 32} {k : Nat} (h : Filled k s) (hk : k < 65536) :
    Filled (k + 1) (fifoStageTimestamp wideConfig calmEnv 0 0 s) := by
  obtain ⟨s₁, hs₁, hwrote⟩ := stageTimestamp_wrote h hk 0 0
  have hcommitted₁ : MotionSense.committed wideConfig s₁ = MotionSense.committed wideConfig s := by
    rw [hs₁]
    rfl
  -- What the call computes is not looked at.
  generalize fifoStageTimestamp wideConfig calmEnv 0 0 s = s₂ at hwrote
  constructor
  · exact hwrote.valid
  · exact hwrote.committed.trans (hcommitted₁.trans h.committed)
  · calc s₂.fifoStaged.count
        = s.fifoStaged.count + 1 := by rw [hwrote.rest, push_count, hs₁]
      _ = BitVec.ofNat 16 k + 1#16 := by rw [h.count]; rfl
      _ = BitVec.ofNat 16 (k + 1) := by rw [← BitVec.ofNat_add_ofNat]
  · calc s₂.written.length
        = s.written.length + 1 := by rw [hwrote.rest, List.length_append, hs₁]; rfl
      _ = k + 1 := by rw [h.written]
  · rw [hwrote.rest, hs₁]
    exact h.record
  · calc s₂.motionSensors
        = s.motionSensors := by rw [hwrote.rest, hs₁]
      _ = fun _ => ⟨0, 0, 0, 0⟩ := h.sensors

theorem Filled.step {s : St 32} {k : Nat} (h : Filled k s) (hk : k < 65536) :
    Filled (k + 1) (step s unneeded) := by
  have hnext := h.stageTimestamp hk
  obtain ⟨s₁, hs₁⟩ : ∃ s₁, fifoStageTimestamp wideConfig calmEnv 0 0 s = s₁ := ⟨_, rfl⟩
  rw [hs₁] at hnext
  have hcall : call calmEnv s unneeded.2 = s₁ := by
    refine stageData_removed rfl calmEnv rfl 0 (by decide) 0 hs₁ ?_ ?_
    · rw [hnext.sensors]
    · rw [hnext.sensors]
  have hstep : MotionSense.step s unneeded = { s₁ with calls := s₁.calls + 1 } := by
    rw [MotionSense.step, ← hcall]
    rfl
  rw [hstep]
  exact ⟨hnext.valid, hnext.committed, hnext.count, hnext.written, hnext.record, hnext.sensors⟩

theorem filled_initial : Filled 0 (initial fun _ => 0) := by
  obtain ⟨hvalid, hcommitted, -⟩ := empty_queueInit (c := wideConfig) (s := initial fun _ => 0)
    ⟨0, 0, false, fun _ => 0, [], []⟩ rfl rfl
  exact ⟨hvalid, hcommitted, rfl, rfl, ⟨rfl, rfl, rfl⟩, rfl⟩

theorem filled_run (k : Nat) (hk : k ≤ 65536) :
    Filled k (run (initial fun _ => 0) (List.replicate k unneeded)) := by
  induction k with
  | zero => exact filled_initial
  | succ k ih =>
    rw [List.replicate_succ', run, List.foldl_append]
    exact (ih (Nat.le_of_succ_le hk)).step hk

/-- After 2^16 entries without a commit all of them are gone, and none is counted. -/
theorem fifo_count_wraps :
    (∀ i ∈ List.replicate 65536 unneeded, i.2.isFifoReset = false) ∧
      ¬∃ b, Books wideConfig (run (initial fun _ => 0) (List.replicate 65536 unneeded)) b := by
  refine ⟨?_, ?_⟩
  · intro i hi
    rw [List.eq_of_mem_replicate hi]
    rfl
  · rintro ⟨b, hb⟩
    have h := filled_run 65536 (Nat.le_refl _)
    generalize run (initial fun _ => 0) (List.replicate 65536 unneeded) = s at h hb
    have hstaged : staged wideConfig s = [] := by
      rw [← List.length_eq_zero_iff, length_staged, h.count]
      rfl
    obtain ⟨hreturned, hlost, hresets⟩ := h.record
    have hline : b.line = [] := by
      have h₁ := hb.returned
      have h₂ := hb.committed
      have h₃ := hb.staged
      rw [hreturned, List.forall₂_nil_right_iff] at h₁
      rw [h.committed, List.forall₂_nil_right_iff] at h₂
      rw [hstaged, List.forall₂_nil_right_iff] at h₃
      rw [Belt.line, Belt.waiting, h₁, h₂, h₃]
      rfl
    have harchive := hb.archive
    rw [hresets, List.forall₂_nil_right_iff] at harchive
    have hall := hb.sound.all.length_eq
    rw [hline, List.nil_append, Belt.dropped, harchive, List.flatten_nil, List.append_nil,
      List.length_range, h.written] at hall
    have hcount := hb.lost.1
    rw [hlost, hall] at hcount
    have hne : (0 : BitVec 32) ≠ BitVec.ofNat 32 65536 := by decide
    exact hne hcount

end

end ChromeEc.MotionSense
