import ChromeEc.UsbPrl.Frame

/- What chunked Rx does.

  `RchRuns` lists what a run of it can do, with the guards of the source; the proofs
  about it go through that list and do not look into the run functions again. The
  transitions are computed: `setStateRch_passUpMessage` for a message that is passed
  up and `rchFail_spec` for an error, where the policy engine may react. -/
namespace ChromeEc.UsbPrl
open Lib

def inState (new : RchState) (timers : PrTimer → Bool) (s : St) : St :=
  { s with rch := { s.rch with state := new }, timers := timers }

theorem rchGoto_eq {s : St} {new : RchState} (h : s.rch.state ≠ new) (entry : St → St) :
    ∃ timers, rchGoto new entry s = entry (inState new timers s) := by
  have hexit : ∃ timers, rchExit s = { s with timers := timers } := by
    unfold rchExit
    split
    · exact ⟨_, rfl⟩
    · exact ⟨s.timers, rfl⟩
  obtain ⟨timers, heq⟩ := hexit
  refine ⟨timers, ?_⟩
  unfold rchGoto
  rw [if_neg h, heq]
  rfl

theorem setStateRch_eq (e : Env) {s : St} {new : RchState} (h : s.rch.state ≠ new) :
    ∃ timers, setStateRch e new s = rchEntry e new (inState new timers s) := rchGoto_eq h _

def restarted (timers : PrTimer → Bool) (s : St) : St :=
  rchWaitForMessageFromProtocolLayerEntry (inState .waitForMessageFromProtocolLayer timers s)

def passedUp (timers : PrTimer → Bool) (s : St) : St := restarted timers (peMessageReceived s)

theorem setStateRch_passUpMessage (e : Env) {s : St} (h : s.rch.state ≠ .passUpMessage) :
    ∃ timers, setStateRch e .passUpMessage s = passedUp timers s := by
  obtain ⟨timers, heq⟩ := setStateRch_eq e h
  exact ⟨timers, heq⟩

/-- The first chunk of a message, before anything of it was processed. -/
def firstChunk (s : St) : St :=
  emit .firstChunk { setRch (fun f => { f with msgReceived := false }) s with
    pdmsg := { s.pdmsg with
      chunkNumberExpected := 0, numBytesReceived := 0, msgType := s.rxEmsg.header.type } }

def lastChunk (s : St) : St :=
  { rchAppend s with
    rxEmsg := { (rchAppend s).rxEmsg with len := (rchAppend s).pdmsg.numBytesReceived } }

inductive RchRuns (e : Env) (s : St) : St → Prop
  | idle (h : s.rch.state = .waitForMessageFromProtocolLayer ∨ s.rch.state = .requestingChunk ∨
      s.rch.state = .waitingChunk) (hf : s.rch.flags.msgReceived = false) : RchRuns e s s
  /-- A message came that is not extended, and a chunk is waited for. -/
  | ignored (h : s.rch.state = .waitingChunk) (hf : s.rch.flags.msgReceived = true)
      (hext : s.rxEmsg.header.ext = false) :
      RchRuns e s (setPdmsg (fun f => { f with txComplete := false }) s)
  | first (timers : PrTimer → Bool) (h : s.rch.state = .waitForMessageFromProtocolLayer)
      (hf : s.rch.flags.msgReceived = true) (hext : s.rxEmsg.header.ext = true)
      (hchunked : pdExtHeaderChunked s.pdmsg.exhdr = true) :
      RchRuns e s (inState .processingExtendedMessage timers (firstChunk s))
  /-- A message came that is passed up as it is. -/
  | whole (timers : PrTimer → Bool) (h : s.rch.state = .waitForMessageFromProtocolLayer)
      (hf : s.rch.flags.msgReceived = true) :
      RchRuns e s (passedUp timers
        (copyChunkToExt (setRch (fun f => { f with msgReceived := false }) s)))
  | fail (err : PeError) (t : St) (ht : Calm s t) (h : t.rch.state = s.rch.state)
      (hst : s.rch.state ≠ .reportError)
      (hf : s.rch.state = .waitForMessageFromProtocolLayer → s.rch.flags.msgReceived = true) :
      RchRuns e s (rchFail e err t)
  | reset (timers : PrTimer → Bool) (h : s.rch.state ≠ .waitForMessageFromProtocolLayer) :
      RchRuns e s (restarted timers s)
  /-- The last chunk is appended, and the message passed up. -/
  | last (timers : PrTimer → Bool) (h : s.rch.state = .processingExtendedMessage)
      (hnum : pdExtHeaderChunkNum s.pdmsg.exhdr = s.pdmsg.chunkNumberExpected)
      (hroom : add32 s.pdmsg.numBytesReceived (byteNum s.pdmsg) ≤ EXTENDED_BUFFER_SIZE)
      (hlast : pdExtHeaderDataSize s.pdmsg.exhdr ≤ (rchAppend s).pdmsg.numBytesReceived) :
      RchRuns e s (passedUp timers (lastChunk s))
  /-- A chunk is appended, and the next one asked for. -/
  | more (timers : PrTimer → Bool) (h : s.rch.state = .processingExtendedMessage)
      (hnum : pdExtHeaderChunkNum s.pdmsg.exhdr = s.pdmsg.chunkNumberExpected)
      (hroom : add32 s.pdmsg.numBytesReceived (byteNum s.pdmsg) ≤ EXTENDED_BUFFER_SIZE)
      (hmore : (rchAppend s).pdmsg.numBytesReceived < pdExtHeaderDataSize s.pdmsg.exhdr) :
      RchRuns e s (rchRequestingChunkEntry (inState .requestingChunk timers (rchAppend s)))
  /-- The request went out, or was overtaken by a message. -/
  | asked (timers : PrTimer → Bool) (t : St) (ht : Calm s t) (h : s.rch.state = .requestingChunk)
      (hrch : t.rch = s.rch) : RchRuns e s (inState .waitingChunk timers t)
  /-- The next chunk came. -/
  | next (timers : PrTimer → Bool) (h : s.rch.state = .waitingChunk)
      (hf : s.rch.flags.msgReceived = true) (hext : s.rxEmsg.header.ext = true)
      (hchunked : pdExtHeaderChunked s.pdmsg.exhdr = true) :
      RchRuns e s (inState .processingExtendedMessage timers
        (setRch (fun f => { f with msgReceived := false })
          (setPdmsg (fun f => { f with txComplete := false }) s)))

theorem setRch_clear_calm (s : St) : Calm s (setRch (fun f => { f with msgReceived := false }) s) where
  rch := .inl ⟨rfl, fun h => nomatch h⟩
  tch := .inl ⟨rfl, id⟩
  header := rfl
  buf := rfl
  rx := rfl
  expected := rfl
  received := rfl
  events := Quiet.of_eq rfl
  clean := fun h => ⟨h.idle, fun hb => ⟨rfl, (h.busy hb).2⟩⟩

theorem rchWaitRun_runs (e : Env) {s : St} (h : s.rch.state = .waitForMessageFromProtocolLayer) :
    RchRuns e s (rchWaitForMessageFromProtocolLayerRun e s) := by
  have hne : s.rch.state ≠ .reportError := by
    rw [h]
    decide
  simp only [rchWaitForMessageFromProtocolLayerRun]
  split
  · next hf =>
    have hfail := RchRuns.fail (e := e) .rchChunked _ (setRch_clear_calm s) rfl hne fun _ => hf
    have hwhole : RchRuns e s (setStateRch e .passUpMessage
        (copyChunkToExt (setRch (fun f => { f with msgReceived := false }) s))) := by
      obtain ⟨timers, heq⟩ := setStateRch_passUpMessage e
        (s := copyChunkToExt (setRch (fun f => { f with msgReceived := false }) s))
        (show s.rch.state ≠ .passUpMessage by rw [h]; decide)
      rw [heq]
      exact .whole timers h hf
    split
    · next hext =>
      have hext : s.rxEmsg.header.ext = true := (Bool.and_eq_true_iff.mp hext).2
      split
      · next hch =>
        obtain ⟨timers, heq⟩ := setStateRch_eq e (s := firstChunk s)
          (show s.rch.state ≠ .processingExtendedMessage by rw [h]; decide)
        exact heq ▸ .first timers h hf hext (Bool.and_eq_true_iff.mp hch).2
      · split
        · exact hwhole
        · exact hfail
    · split
      · exact hwhole
      · exact hfail
  · next hf => exact .idle (.inl h) (eq_false_of_ne_true hf)

theorem rchProcessingRun_runs (e : Env) {s : St} (h : s.rch.state = .processingExtendedMessage) :
    RchRuns e s (rchProcessingExtendedMessageRun e s) := by
  have hne : s.rch.state ≠ .reportError := by
    rw [h]
    decide
  have hfail := RchRuns.fail (e := e) .rchChunked s (.refl s) rfl hne fun hw => by
    rw [h] at hw
    cases hw
  simp only [rchProcessingExtendedMessageRun]
  split
  · obtain ⟨timers, heq⟩ := setStateRch_eq e
      (show s.rch.state ≠ .waitForMessageFromProtocolLayer by rw [h]; decide)
    rw [heq]
    exact .reset timers (by rw [h]; decide)
  · split
    · next hnum =>
      split
      · exact hfail
      · next hroom =>
        split
        · next hlast =>
          obtain ⟨timers, heq⟩ := setStateRch_passUpMessage e (s := lastChunk s)
            (show s.rch.state ≠ .passUpMessage by rw [h]; decide)
          exact heq ▸ .last timers h hnum (Nat.le_of_not_gt hroom) hlast
        · next hmore =>
          obtain ⟨timers, heq⟩ := setStateRch_eq e (s := rchAppend s)
            (show s.rch.state ≠ .requestingChunk by rw [h]; decide)
          rw [heq]
          exact .more timers h hnum (Nat.le_of_not_gt hroom) (Nat.lt_of_not_ge hmore)
    · exact hfail

theorem rchRequestingRun_runs (e : Env) {s : St} (h : s.rch.state = .requestingChunk) :
    RchRuns e s (rchRequestingChunkRun e s) := by
  have hasked : ∀ t, Calm s t → t.rch = s.rch → RchRuns e s (setStateRch e .waitingChunk t) := by
    intro t ht hrch
    obtain ⟨timers, heq⟩ := setStateRch_eq e (s := t)
      (show t.rch.state ≠ .waitingChunk by rw [hrch, h]; decide)
    rw [heq]
    exact .asked _ t ht h hrch
  simp only [rchRequestingChunkRun]
  split
  · exact hasked _ (setPdmsg_same s _).calm rfl
  · split
    · exact .fail _ s (.refl s) rfl (by rw [h]; decide) (by rw [h]; exact nofun)
    · split
      · exact hasked s (.refl s) rfl
      · next hf => exact .idle (.inr (.inl h)) (eq_false_of_ne_true hf)

theorem rchWaitingRun_runs (e : Env) {s : St} (h : s.rch.state = .waitingChunk) :
    RchRuns e s (rchWaitingChunkRun e s) := by
  have hne : s.rch.state ≠ .reportError := by
    rw [h]
    decide
  simp only [rchWaitingChunkRun]
  split
  · next hf =>
    split
    · next hext =>
      split
      · exact .fail _ _ (setPdmsg_same s _).calm rfl hne fun _ => hf
      · next hch =>
        simp only [Bool.or_eq_true, Bool.not_eq_true', not_or, Bool.not_eq_false] at hch
        obtain ⟨timers, heq⟩ := setStateRch_eq e
          (s := setRch (fun f => { f with msgReceived := false })
            (setPdmsg (fun f => { f with txComplete := false }) s))
          (show s.rch.state ≠ .processingExtendedMessage by rw [h]; decide)
        rw [heq]
        exact .next timers h hf hext hch.2
    · next hext => exact .ignored h hf (eq_false_of_ne_true hext)
  · next hf =>
    split
    · exact .fail _ s (.refl s) rfl hne (by rw [h]; exact nofun)
    · exact .idle (.inr (.inr h)) (eq_false_of_ne_true hf)

theorem rchRun_runs (e : Env) {s : St} (hs : s.rch.state ≠ .passUpMessage) :
    RchRuns e s (rchRun e s) := by
  unfold rchRun
  split
  · next h => exact rchWaitRun_runs e h
  · next h => exact absurd h hs
  · next h => exact rchProcessingRun_runs e h
  · next h => exact rchRequestingRun_runs e h
  · next h => exact rchWaitingRun_runs e h
  · next h =>
    obtain ⟨timers, heq⟩ := setStateRch_eq e
      (show s.rch.state ≠ .waitForMessageFromProtocolLayer by rw [h]; decide)
    rw [rchReportErrorRun, heq]
    exact .reset timers (by rw [h]; decide)

/-- The count of missing bytes does not wrap. -/
theorem byteNum_eq {p : PdMessage} (h : p.numBytesReceived ≤ pdExtHeaderDataSize p.exhdr) :
    byteNum p =
      min (pdExtHeaderDataSize p.exhdr - p.numBytesReceived) PD_MAX_EXTENDED_MSG_CHUNK_LEN := by
  have hlt := pdExtHeaderDataSize_lt p.exhdr
  have hsub : sub32 (pdExtHeaderDataSize p.exhdr) p.numBytesReceived =
      pdExtHeaderDataSize p.exhdr - p.numBytesReceived := by
    unfold sub32
    omega
  rw [byteNum, hsub]

theorem rchFail_spec (e : Env) (err : PeError) {s : St} (hs : HrClean s)
    (hst : s.rch.state ≠ .reportError) :
    ∃ t, Calm t (rchFail e err s) ∧ HrClean t ∧ t.rch.state = .reportError ∧
      t.rch.flags.msgReceived = false ∧ t.tch = s.tch ∧ t.rxEmsg.header = s.rxEmsg.header ∧
      t.pdmsg.rxChkBuf = s.pdmsg.rxChkBuf ∧
      (t.events = s.events ∨ t.events = s.events ++ [.copyChunkToExt (s.rxEmsg.header.cnt * 4)]) := by
  obtain ⟨timers, heq⟩ := setStateRch_eq e (s := { s with rch := { s.rch with error := err } }) hst
  rw [rchFail, heq]
  -- In `RCH_REPORT_ERROR`, where the entry function starts.
  set u := inState .reportError timers { s with rch := { s.rch with error := err } } with hu
  have hclean : HrClean u := ⟨hs.idle, hs.busy⟩
  have hentry : rchEntry e .reportError u = rchReportErrorEntry e u := rfl
  rw [hentry, rchReportErrorEntry]
  by_cases hf : u.rch.flags.msgReceived = true
  · rw [if_pos hf]
    refine ⟨copyChunkToExt (setRch (fun f => { f with msgReceived := false }) u),
      ?_, ⟨hs.idle, fun hb => ⟨rfl, (hs.busy hb).2⟩⟩, rfl, rfl, rfl, rfl, rfl, .inr rfl⟩
    have hemit := peMessageReceived_same
      (copyChunkToExt (setRch (fun f => { f with msgReceived := false }) u))
    exact hemit.calm.trans
      (peCall_calm e _ (hemit.calm.clean ⟨hs.idle, fun hb => ⟨rfl, (hs.busy hb).2⟩⟩))
  · rw [if_neg hf]
    exact ⟨u, peCall_calm e _ hclean, hclean, rfl, eq_false_of_ne_true hf, rfl, rfl, rfl, .inl rfl⟩

end ChromeEc.UsbPrl
