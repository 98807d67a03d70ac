import ChromeEc.UsbPrl.SeqView

/- The message ids that a port gives out.

  A step of a port is a run of the sender of `SeqView`, with three exceptions, which
  `Tidy` excludes:
    - A message comes in and puts an end to `PRL_TX_WAIT_FOR_PHY_RESPONSE` without the
      counter being incremented, because the PHY has just reported a failure; or the
      counter is incremented for a message that was not sent, because the status is
      left from an earlier one.
    - A soft reset of another SOP* type comes in: only the counter of that type is
      reset, but the message under way is forgotten.
    - A hard reset is completed while a message is under way.

  What is proved: the counters stay below 8 in every reachable state. In every run
  whose steps are tidy, two messages in a row of one type have different ids unless
  the counter was reset in between, and an id is used up only by a message that was
  passed to the PHY (`message_id_discipline`). -/
namespace ChromeEc.UsbPrl
open Lib

/-! ## Hard reset -/

section

variable {q : Prop}

theorem rchExit_txSame (s : St) : TxSame s (rchExit s) := by
  unfold rchExit
  split
  · exact ⟨rfl, rfl, rfl, rfl⟩
  · exact ⟨rfl, rfl, rfl, rfl⟩

theorem tchExit_txSame (s : St) : TxSame s (tchExit s) := by
  unfold tchExit
  split
  · exact ⟨rfl, rfl, rfl, rfl⟩
  · exact ⟨rfl, rfl, rfl, rfl⟩

theorem tchGoto_counts {new : TchState} {entry : St → St} (hentry : ∀ t, Counts q t (entry t)) (s : St) :
    Counts q s (tchGoto new entry s) := by
  apply Counts.ite
  · intro _
    exact .refl s
  · intro _
    have hput : TxSame (tchExit s)
        { tchExit s with tch := { (tchExit s).tch with state := new } } := ⟨rfl, rfl, rfl, rfl⟩
    exact ((tchExit_txSame s).trans hput).counts.trans (hentry _)

theorem toRchWait_txSame (s : St) : TxSame s (toRchWait s) := by
  unfold toRchWait rchGoto
  split
  · exact ⟨rfl, rfl, rfl, rfl⟩
  · exact (rchExit_txSame s).trans ⟨rfl, rfl, rfl, rfl⟩

theorem toTchWait_txSame (s : St) : TxSame s (toTchWait s) := by
  unfold toTchWait tchGoto
  split
  · exact ⟨rfl, rfl, rfl, rfl⟩
  · exact (tchExit_txSame s).trans ⟨rfl, rfl, rfl, rfl⟩

theorem seqOf_prlHrWaitForPeHardResetCompleteExit (e : Env) (s : St) :
    seqOf (prlHrWaitForPeHardResetCompleteExit e s) = (seqOf s).drop := by
  unfold prlHrWaitForPeHardResetCompleteExit
  rw [(toTchWait_txSame _).seqOf, (toRchWait_txSame _).seqOf, seqOf_toPrlTxPhyLayerReset]

theorem seqOf_prlHrExit (e : Env) (s : St) :
    seqOf (prlHrExit e s) = seqOf s ∨ seqOf (prlHrExit e s) = (seqOf s).drop := by
  unfold prlHrExit
  split
  · exact .inl (TxSame.seqOf ⟨rfl, rfl, rfl, rfl⟩)
  · exact .inr (seqOf_prlHrWaitForPeHardResetCompleteExit e s)
  · exact .inl rfl

theorem seqOf_prlHrResetLayerEntry (s : St) :
    seqOf (prlHrResetLayerEntry s) = (resetAll (seqOf s)).drop := by
  have hclear : seqOf (prlHrClear s) = resetAll (seqOf s) := by
    have hflags : TxSame s (setPdmsg (fun _ => {}) (setRch (fun _ => {}) (setTch (fun _ => {}) s))) := ⟨rfl, rfl, rfl, rfl⟩
    have hrev : ∀ t, TxSame t (emit .notifyHardReset (prlSetDefaultPdRevision (emit (.setRxEnable false) t))) := by
      intro t
      have hset : TxSame (emit (.setRxEnable false) t)
          (prlSetDefaultPdRevision (emit (.setRxEnable false) t)) := ⟨rfl, rfl, rfl, rfl⟩
      exact ((emit_txSame (.setRxEnable false) rfl t).trans hset).trans (emit_txSame _ rfl _)
    calc seqOf (prlHrClear s)
        = seqOf (prlResetAllMsgIds (setPdmsg (fun _ => {}) (setRch (fun _ => {}) (setTch (fun _ => {}) s)))) :=
          (hrev _).seqOf
      _ = resetAll (seqOf s) := by rw [seqOf_prlResetAllMsgIds, hflags.seqOf]
  unfold prlHrResetLayerEntry
  rw [seqOf_toPrlTxWait, hclear]

/-- A hard reset gives up the message under way, but only with all counters reset. -/
theorem toPrlHrResetLayer_counts (e : Env) (s : St) : Counts q s (toPrlHrResetLayer e s) := by
  apply Counts.ite
  · intro _
    exact .refl s
  · intro _
    apply Counts.of_run
    intro _
    have hput : TxSame (prlHrExit e s)
        { prlHrExit e s with prlHr := { (prlHrExit e s).prlHr with state := .resetLayer } } := ⟨rfl, rfl, rfl, rfl⟩
    rw [seqOf_prlHrResetLayerEntry, hput.seqOf]
    obtain hexit | hexit := seqOf_prlHrExit e s
    · rw [hexit]
      exact resetAll_drop_path _
    · rw [hexit]
      exact resetAll_drop_path _

theorem executeHardReset_counts (e : Env) (f : PrlFlags → PrlFlags) (s : St) :
    Counts q s (if prlIsRunning s then toPrlHrResetLayer e (setPrlHr f s) else s) := by
  apply Counts.ite
  · intro _
    have hflag : TxSame s (setPrlHr f s) := ⟨rfl, rfl, rfl, rfl⟩
    exact hflag.counts.trans (toPrlHrResetLayer_counts e _)
  · intro _
    exact .refl s

theorem prlCall_counts (e : Env) (s : St) (c : PrlCall) : Counts q s (prlCall e s c) := by
  cases c with
  | pdExecuteHardReset => exact executeHardReset_counts e _ s
  | prlExecuteHardReset => exact executeHardReset_counts e _ s
  | prlResetMsgIds type => exact prlResetMsgIds_counts type s
  | _ => exact TxSame.counts ⟨rfl, rfl, rfl, rfl⟩

theorem peCall_counts (e : Env) (call : PeCall) (s : St) : Counts q s (peCall e call s) := by
  have hfold : ∀ (calls : List PrlCall) (t : St), Counts q t (calls.foldl (prlCall e) t) := by
    intro calls
    induction calls with
    | nil => exact fun t => .refl t
    | cons c calls ih => exact fun t => (prlCall_counts e t c).trans (ih _)
  exact (emit_txSame (.pe call) rfl s).counts.trans (hfold _ _)

theorem peCall_resetLayer (e : Env) (call : PeCall) {s : St} (h : s.prlHr.state = .resetLayer) :
    (peCall e call s).prlHr.state = .resetLayer := by
  have hcall : ∀ (c : PrlCall) (t : St), t.prlHr.state = .resetLayer →
      (prlCall e t c).prlHr.state = .resetLayer := by
    intro c t ht
    have hreset : ∀ f, (if prlIsRunning t = true then toPrlHrResetLayer e (setPrlHr f t)
        else t).prlHr.state = .resetLayer := by
      intro f
      split
      · exact toPrlHrResetLayer_state e _
      · exact ht
    cases c with
    | pdExecuteHardReset => exact hreset _
    | prlExecuteHardReset => exact hreset _
    | _ => exact ht
  have hfold : ∀ (calls : List PrlCall) (t : St), t.prlHr.state = .resetLayer →
      (calls.foldl (prlCall e) t).prlHr.state = .resetLayer := by
    intro calls
    induction calls with
    | nil => exact fun t ht => ht
    | cons c calls ih => exact fun t ht => ih _ (hcall c t ht)
  exact hfold _ _ h

theorem setStatePrlHr_txSame (e : Env) {new : PrlHrState}
    (hnew : new = .waitForPhyHardResetComplete ∨ new = .waitForPeHardResetComplete) {s : St}
    (hst : s.prlHr.state ≠ .waitForPeHardResetComplete) : TxSame s (setStatePrlHr e new s) := by
  have hexit : TxSame s (prlHrExit e s) := by
    unfold prlHrExit
    split
    · exact ⟨rfl, rfl, rfl, rfl⟩
    · next h => exact absurd h hst
    · exact ⟨rfl, rfl, rfl, rfl⟩
  unfold setStatePrlHr prlHrGoto
  split
  · exact .refl s
  · obtain rfl | rfl := hnew
    · exact hexit.trans ⟨rfl, rfl, rfl, rfl⟩
    · exact hexit.trans ⟨rfl, rfl, rfl, rfl⟩

end

/-- A hard reset is completed only when no message is under way. -/
def HrTidy (s : St) : Prop :=
  s.prlHr.state = .waitForPeHardResetComplete → s.prlHr.flags.hardResetComplete = true →
    s.prlTx.flight = none

instance (s : St) : Decidable (HrTidy s) := inferInstanceAs (Decidable (_ → _ → _))

theorem prlHrSendMsgToPhy_txSame (s : St) : TxSame s (prlHrSendMsgToPhy s) := by
  have hset : TxSame s (setPdmsg (fun f => { f with txComplete := false })
      { s with
        pdmsg := { s.pdmsg with xmitType := .txHardReset }
        prlTx := { s.prlTx with xmitStatus := .unset } }) := ⟨rfl, rfl, rfl, rfl⟩
  exact hset.trans (emit_txSame _ rfl _)

theorem prlHrToWait_counts (e : Env) {s : St} (hst : s.prlHr.state = .waitForPeHardResetComplete) :
    Counts (s.prlTx.flight = none) s (setStatePrlHr e .waitForRequest s) := by
  have hseq : seqOf (setStatePrlHr e .waitForRequest s) = (seqOf s).drop := by
    unfold setStatePrlHr prlHrGoto
    rw [if_neg (by rw [hst]; decide), prlHrExit, hst]
    exact seqOf_prlHrWaitForPeHardResetCompleteExit e s
  refine ⟨?_, ?_⟩
  · intro hr t
    have hcounter := congrArg (fun a => a.counter t) hseq
    exact lt_of_eq_of_lt hcounter (hr t)
  · intro hnone _
    rw [hseq, drop_of_none hnone]

theorem prlHrRun_counts (e : Env) (s : St) : Counts (HrTidy s) s (prlHrRun e s) := by
  unfold prlHrRun
  split
  · apply Counts.ite
    · intro _
      exact toPrlHrResetLayer_counts e s
    · intro _
      exact .refl s
  · next hst =>
    apply Counts.ite
    · intro _
      have hsend := prlHrSendMsgToPhy_txSame s
      have hstay : (prlHrSendMsgToPhy s).prlHr.state ≠ .waitForPeHardResetComplete :=
        show s.prlHr.state ≠ _ by rw [hst]; decide
      exact (hsend.trans (setStatePrlHr_txSame e (.inl rfl) hstay)).counts
    · intro _
      have hstay := peCall_resetLayer e .gotHardReset hst
      exact (peCall_counts e _ s).trans
        (setStatePrlHr_txSame e (.inr rfl) (by rw [hstay]; decide)).counts
  · next hst =>
    apply Counts.ite
    · intro _
      have hemit := emit_txSame (.pe .hardResetSent) rfl s
      have hstay : s.prlHr.state ≠ .waitForPeHardResetComplete := by rw [hst]; decide
      exact (hemit.trans (setStatePrlHr_txSame e (.inr rfl) hstay)).counts
    · intro _
      exact .refl s
  · next hst =>
    apply Counts.ite
    · intro hcomplete
      exact (prlHrToWait_counts e hst).mono (fun h => h hst hcomplete)
    · intro _
      exact .refl s

/-! ## Chunked Rx -/

def Event.isChunk : Event → Bool
  | .chunk _ _ => true
  | _ => false

/-- What chunked Rx writes when it asks for a chunk: the start of `tx_chk_buf`, the number
of data objects, and whether the message is extended. -/
def PdMessage.request (p : PdMessage) : (Fin 4 → UInt8) × Nat × Bool :=
  (fun i => p.chkBuf i, p.dataObjs, p.ext)

/-- A step that leaves message transmission, chunked Tx and hard reset alone. -/
structure Aloof (s s' : St) : Prop where
  localState : s'.localState = s.localState
  tx : s'.prlTx = s.prlTx
  tch : s'.tch = s.tch
  hr : s'.prlHr = s.prlHr
  request : s'.pdmsg.request = s.pdmsg.request
  events : ∃ evs, s'.events = s.events ++ evs ∧ ∀ ev ∈ evs, ev.seq = none

namespace Aloof

theorem of_eq {s s' : St} (hlocal : s'.localState = s.localState) (htx : s'.prlTx = s.prlTx)
    (htch : s'.tch = s.tch) (hhr : s'.prlHr = s.prlHr)
    (hrequest : s'.pdmsg.request = s.pdmsg.request) (hevents : s'.events = s.events) : Aloof s s' :=
  ⟨hlocal, htx, htch, hhr, hrequest, [], by rw [hevents, List.append_nil], by simp⟩

theorem refl (s : St) : Aloof s s := of_eq rfl rfl rfl rfl rfl rfl

theorem trans {s₁ s₂ s₃ : St} (h : Aloof s₁ s₂) (h' : Aloof s₂ s₃) : Aloof s₁ s₃ := by
  obtain ⟨evs, heq, hseq⟩ := h.events
  obtain ⟨evs', heq', hseq'⟩ := h'.events
  refine ⟨h'.localState.trans h.localState, h'.tx.trans h.tx, h'.tch.trans h.tch,
    h'.hr.trans h.hr, h'.request.trans h.request, evs ++ evs', ?_, ?_⟩
  · rw [heq', heq, List.append_assoc]
  · intro ev hev
    obtain hev | hev := List.mem_append.mp hev
    · exact hseq ev hev
    · exact hseq' ev hev

theorem txSame {s s' : St} (h : Aloof s s') : TxSame s s' := by
  obtain ⟨evs, heq, hseq⟩ := h.events
  refine ⟨by rw [h.tx], by rw [h.tx], by rw [h.tx], ?_⟩
  rw [heq, List.filterMap_append, List.filterMap_eq_nil_iff.mpr hseq, List.append_nil]

theorem chunks {s s' : St} (h : Aloof s s') :
    s.events.countP Event.isChunk ≤ s'.events.countP Event.isChunk := by
  obtain ⟨evs, heq, -⟩ := h.events
  rw [heq, List.countP_append]
  omega

theorem emit (ev : Event) (h : ev.seq = none) (s : St) : Aloof s (emit ev s) :=
  ⟨rfl, rfl, rfl, rfl, rfl, [ev], rfl, by simpa using h⟩

end Aloof

theorem withRx_aloof {s : St} {rch : RxChunked} {pdmsg : PdMessage} {rxEmsg : ExtendedMsg}
    {timers : PrTimer → Bool} (h : pdmsg.request = s.pdmsg.request) :
    Aloof s { s with rch := rch, pdmsg := pdmsg, rxEmsg := rxEmsg, timers := timers } :=
  Aloof.of_eq rfl rfl rfl rfl h rfl

/-- What a run of chunked Rx means to message transmission: nothing, unless there is an
error or a chunk is asked for. -/
inductive RchMoves (e : Env) (s : St) : St → Prop
  | aloof {t : St} (h : Aloof s t) : RchMoves e s t
  | fail {t : St} (call : PeCall) (h : Aloof s t) : RchMoves e s (peCall e call t)
  | request {t : St} (h : Aloof s t)
      (hchunk : s.events.countP Event.isChunk < t.events.countP Event.isChunk) :
      RchMoves e s (rchRequestingChunkEntry t)

section

variable (e : Env) {s t : St}

theorem rchPut_aloof (h : Aloof s t) (new : RchState) :
    Aloof s { rchExit t with rch := { (rchExit t).rch with state := new } } := by
  unfold rchExit
  split
  · exact h.trans (withRx_aloof rfl)
  · exact h.trans (withRx_aloof rfl)

theorem rchGoto_aloof (h : Aloof s t) {new : RchState} {entry : St → St}
    (hentry : ∀ u, Aloof u (entry u)) : Aloof s (rchGoto new entry t) := by
  unfold rchGoto
  split
  · exact h
  · exact (rchPut_aloof h new).trans (hentry _)

theorem toRchWait_aloof (h : Aloof s t) : Aloof s (toRchWait t) :=
  rchGoto_aloof h fun _ => withRx_aloof rfl

theorem peMessageReceived_aloof (s : St) : Aloof s (peMessageReceived s) :=
  Aloof.emit (.pe (.messageReceived s.rxEmsg.header s.rxEmsg.bytes)) rfl s

theorem copyChunkToExt_aloof (s : St) : Aloof s (copyChunkToExt s) :=
  have hcopied : Aloof s { s with
      pdmsg := { s.pdmsg with numBytesReceived := s.rxEmsg.header.cnt * 4 }
      rxEmsg := { s.rxEmsg with
        len := s.rxEmsg.header.cnt * 4
        buf := blit s.rxEmsg.buf 0 s.pdmsg.rxChkBuf (s.rxEmsg.header.cnt * 4) } } := withRx_aloof rfl
  hcopied.trans (Aloof.emit _ rfl _)

theorem passUp_moves (h : Aloof s t) : RchMoves e s (setStateRch e .passUpMessage t) :=
  .aloof (rchGoto_aloof h fun u => toRchWait_aloof (peMessageReceived_aloof u))

theorem rchPlain_moves (h : Aloof s t) {new : RchState}
    (hnew : new = .waitForMessageFromProtocolLayer ∨ new = .processingExtendedMessage ∨
      new = .waitingChunk) : RchMoves e s (setStateRch e new t) := by
  refine .aloof (rchGoto_aloof h ?_)
  intro u
  obtain rfl | rfl | rfl := hnew
  · exact withRx_aloof rfl
  · exact .refl u
  · exact withRx_aloof rfl

theorem setRch_aloof (f : PrlFlags → PrlFlags) (s : St) : Aloof s (setRch f s) := withRx_aloof rfl

theorem setPdmsg_aloof (f : PrlFlags → PrlFlags) (s : St) : Aloof s (setPdmsg f s) := withRx_aloof rfl

theorem rchReportErrorEntry_moves (h : Aloof s t) : RchMoves e s (rchReportErrorEntry e t) := by
  unfold rchReportErrorEntry
  split
  · have hclear := h.trans (setRch_aloof (fun f => { f with msgReceived := false }) t)
    exact .fail _ ((hclear.trans (copyChunkToExt_aloof _)).trans (peMessageReceived_aloof _))
  · exact .fail _ h

theorem rchFail_moves (err : PeError) (h : Aloof s t) : RchMoves e s (rchFail e err t) := by
  have hset : Aloof s { t with rch := { t.rch with error := err } } := h.trans (withRx_aloof rfl)
  unfold rchFail setStateRch rchGoto
  split
  · exact .aloof hset
  · exact rchReportErrorEntry_moves e (rchPut_aloof hset .reportError)

theorem firstChunk_aloof (s : St) : Aloof s (firstChunk s) :=
  ⟨rfl, rfl, rfl, rfl, rfl, [.firstChunk], rfl, by simp [Event.seq]⟩

theorem rchWaitForMessageFromProtocolLayerRun_moves :
    RchMoves e s (rchWaitForMessageFromProtocolLayerRun e s) := by
  have hclear := setRch_aloof (fun f => { f with msgReceived := false }) s
  simp only [rchWaitForMessageFromProtocolLayerRun]
  split
  · split
    · split
      · exact rchPlain_moves e (firstChunk_aloof s) (.inr (.inl rfl))
      · split
        · exact passUp_moves e (hclear.trans (copyChunkToExt_aloof _))
        · exact rchFail_moves e _ hclear
    · split
      · exact passUp_moves e (hclear.trans (copyChunkToExt_aloof _))
      · exact rchFail_moves e _ hclear
  · exact .aloof (.refl s)

theorem rchAppend_aloof (s : St) : Aloof s (rchAppend s) ∧
    s.events.countP Event.isChunk < (rchAppend s).events.countP Event.isChunk := by
  refine ⟨⟨rfl, rfl, rfl, rfl, rfl, [.chunk s.pdmsg.numBytesReceived (byteNum s.pdmsg)], rfl, ?_⟩, ?_⟩
  · simp [Event.seq]
  · simp [rchAppend, UsbPrl.emit, Event.isChunk]

theorem rchProcessingExtendedMessageRun_moves (hst : s.rch.state = .processingExtendedMessage) :
    RchMoves e s (rchProcessingExtendedMessageRun e s) := by
  obtain ⟨happend, hchunk⟩ := rchAppend_aloof s
  simp only [rchProcessingExtendedMessageRun]
  split
  · exact rchPlain_moves e (.refl s) (.inl rfl)
  · split
    · split
      · exact rchFail_moves e _ (.refl s)
      · split
        · exact passUp_moves e (happend.trans (withRx_aloof rfl))
        · have hne : (rchAppend s).rch.state ≠ .requestingChunk :=
            show s.rch.state ≠ _ by rw [hst]; decide
          unfold setStateRch rchGoto
          rw [if_neg hne]
          have hput := rchPut_aloof (.refl (rchAppend s)) .requestingChunk
          exact .request (happend.trans hput) (Nat.lt_of_lt_of_le hchunk hput.chunks)
    · exact rchFail_moves e _ (.refl s)

theorem rchRequestingChunkRun_moves : RchMoves e s (rchRequestingChunkRun e s) := by
  unfold rchRequestingChunkRun
  split
  · exact rchPlain_moves e (setPdmsg_aloof _ s) (.inr (.inr rfl))
  · split
    · exact rchFail_moves e _ (.refl s)
    · split
      · exact rchPlain_moves e (.refl s) (.inr (.inr rfl))
      · exact .aloof (.refl s)

theorem rchWaitingChunkRun_moves : RchMoves e s (rchWaitingChunkRun e s) := by
  have hclear := setPdmsg_aloof (fun f => { f with txComplete := false }) s
  simp only [rchWaitingChunkRun]
  split
  · split
    · split
      · exact rchFail_moves e _ hclear
      · exact rchPlain_moves e (hclear.trans (setRch_aloof _ _)) (.inr (.inl rfl))
    · exact .aloof hclear
  · split
    · exact rchFail_moves e _ (.refl s)
    · exact .aloof (.refl s)

theorem rchRun_moves (s : St) : RchMoves e s (rchRun e s) := by
  unfold rchRun
  split
  · exact rchWaitForMessageFromProtocolLayerRun_moves e
  · exact .aloof (.refl s)
  · next hst => exact rchProcessingExtendedMessageRun_moves e hst
  · exact rchRequestingChunkRun_moves e
  · exact rchWaitingChunkRun_moves e
  · exact rchPlain_moves e (.refl s) (.inl rfl)

end

theorem rchRun_counts {q : Prop} (e : Env) (s : St) : Counts q s (rchRun e s) := by
  have hmoves := rchRun_moves e s
  generalize rchRun e s = s' at hmoves ⊢
  cases hmoves with
  | aloof h => exact h.txSame.counts
  | fail call h => exact h.txSame.counts.trans (peCall_counts e call _)
  | request h _ =>
    have hentry : ∀ t, TxSame t (rchRequestingChunkEntry t) := fun t => ⟨rfl, rfl, rfl, rfl⟩
    exact (h.txSame.trans (hentry _)).counts

/-! ## Chunked Tx -/

section

variable {q : Prop}

theorem tchMessageReceivedEntry_txSame (s : St) : TxSame s (tchMessageReceivedEntry s) := by
  unfold tchMessageReceivedEntry
  dsimp only
  split
  · have hflags : TxSame s (setTch (fun f => { f with msgXmit := false })
        (setRch (fun f => { f with msgReceived := true }) s)) := ⟨rfl, rfl, rfl, rfl⟩
    exact (hflags.trans (emit_txSame (.pe .reportDiscard) rfl _)).trans ⟨rfl, rfl, rfl, rfl⟩
  · exact ⟨rfl, rfl, rfl, rfl⟩

theorem tchIfMessageReceived_counts {otherwise : St → St} {s : St} (h : Counts q s (otherwise s)) :
    Counts q s (tchIfMessageReceived otherwise s) := by
  apply Counts.ite
  · intro _
    have hclear : TxSame s (setTch (fun f => { f with msgReceived := false }) s) := ⟨rfl, rfl, rfl, rfl⟩
    exact hclear.counts.trans
      (tchGoto_counts (fun t => (tchMessageReceivedEntry_txSame t).counts) _)
  · intro _
    exact h

theorem tchEntry_counts (e : Env) (new : TchState) (s : St) : Counts q s (tchEntry e new s) := by
  cases new with
  | constructChunkedMessage => exact tchIfMessageReceived_counts (TxSame.counts ⟨rfl, rfl, rfl, rfl⟩)
  | messageReceived => exact (tchMessageReceivedEntry_txSame s).counts
  | messageSent =>
    have hsent := emit_txSame (.pe .messageSent) rfl s
    exact hsent.counts.trans (tchIfMessageReceived_counts (toTchWait_txSame _).counts)
  | reportError =>
    exact (peCall_counts e _ s).trans (tchIfMessageReceived_counts (toTchWait_txSame _).counts)
  | _ => exact TxSame.counts ⟨rfl, rfl, rfl, rfl⟩

theorem setStateTch_counts (e : Env) (new : TchState) {s t : St} (h : TxSame s t) :
    Counts q s (setStateTch e new t) :=
  h.counts.trans (tchGoto_counts (tchEntry_counts e new) t)

theorem tchFail_counts (e : Env) (err : PeError) {s t : St} (h : TxSame s t) :
    Counts q s (tchFail e err t) :=
  setStateTch_counts e .reportError (h.trans ⟨rfl, rfl, rfl, rfl⟩)

theorem prlCopyMsgToBuffer_txSame (s : St) : TxSame s (prlCopyMsgToBuffer s) := by
  unfold prlCopyMsgToBuffer
  split
  · exact ⟨rfl, rfl, rfl, rfl⟩
  · exact ⟨rfl, rfl, rfl, rfl⟩

theorem tchWaitForMessageRequestFromPeRun_counts (e : Env) (s : St) :
    Counts q s (tchWaitForMessageRequestFromPeRun e s) := by
  have hclear : TxSame s (setTch (fun f => { f with msgXmit := false }) s) := ⟨rfl, rfl, rfl, rfl⟩
  apply tchIfMessageReceived_counts
  apply Counts.ite
  · intro _
    apply Counts.ite
    · intro _
      exact tchFail_counts e _ hclear
    · intro _
      apply Counts.ite
      · intro _
        exact setStateTch_counts e _ (hclear.trans ⟨rfl, rfl, rfl, rfl⟩)
      · intro _
        exact setStateTch_counts e _ ((hclear.trans (prlCopyMsgToBuffer_txSame _)).trans ⟨rfl, rfl, rfl, rfl⟩)
  · intro _
    exact .refl s

theorem tchSendingChunkedMessageRun_counts (e : Env) (s : St) :
    Counts q s (tchSendingChunkedMessageRun e s) := by
  apply Counts.ite
  · intro _
    exact tchFail_counts e _ (.refl s)
  · intro _
    apply Counts.ite
    · intro _
      exact setStateTch_counts e _ ⟨rfl, rfl, rfl, rfl⟩
    · intro _
      apply tchIfMessageReceived_counts
      apply Counts.ite
      · intro _
        exact setStateTch_counts e _ ⟨rfl, rfl, rfl, rfl⟩
      · intro _
        exact .refl s

theorem tchWaitChunkRequestRun_counts (e : Env) (s : St) : Counts q s (tchWaitChunkRequestRun e s) := by
  have hclear : TxSame s (setTch (fun f => { f with msgReceived := false }) s) := ⟨rfl, rfl, rfl, rfl⟩
  apply Counts.ite
  · intro _
    apply Counts.ite
    · intro _
      apply Counts.ite
      · intro _
        exact setStateTch_counts e _ hclear
      · intro _
        exact tchFail_counts e _ hclear
    · intro _
      exact setStateTch_counts e _ hclear
  · intro _
    apply Counts.ite
    · intro _
      exact setStateTch_counts e _ (.refl s)
    · intro _
      exact .refl s

theorem tchWaitForTransmissionCompleteRun_counts (e : Env) (s : St) :
    Counts q s (tchWaitForTransmissionCompleteRun e s) := by
  apply Counts.ite
  · intro _
    exact setStateTch_counts e _ ⟨rfl, rfl, rfl, rfl⟩
  · intro _
    apply Counts.ite
    · intro _
      exact tchFail_counts e _ ⟨rfl, rfl, rfl, rfl⟩
    · intro _
      apply Counts.ite
      · intro _
        exact setStateTch_counts e _ ⟨rfl, rfl, rfl, rfl⟩
      · intro _
        exact .refl s

theorem tchRun_counts (e : Env) (s : St) : Counts q s (tchRun e s) := by
  unfold tchRun
  split
  · exact tchWaitForMessageRequestFromPeRun_counts e s
  · exact tchWaitForTransmissionCompleteRun_counts e s
  · exact Counts.ite (fun _ => setStateTch_counts e _ (.refl s))
      (fun _ => setStateTch_counts e _ (.refl s))
  · exact tchSendingChunkedMessageRun_counts e s
  · exact tchWaitChunkRequestRun_counts e s
  · exact setStateTch_counts e _ (.refl s)
  · exact .refl s
  · exact .refl s

theorem afterRch_counts (e : RunEnv) (s : St) : Counts q s (afterRch e s) :=
  ((tchRun_counts _ s).trans (prlTxRun_counts _ _)).trans (tchRun_counts _ _)

end

/-! ## Message reception -/

/-- What becomes of a message keeps the ids in order: a soft reset comes on the type of
the message under way, and a message that is discarded uses up its id exactly if the PHY
has it. -/
def HandleTidy (e : Env) (h : PdHeader) (s : St) : Prop :=
  if h.sop ≠ .sop ∧ h.prole = PdCablePlug.fromDfpUfp.code then True
  else if !s.rch.flags.ignoreDataRole ∧ h.sop = .sop ∧ h.drole = e.dataRole.code then True
  else if h.cnt = 0 ∧ h.type = PD_CTRL_SOFT_RESET then ∀ t ∈ s.prlTx.flight, t = h.sop
  else if s.prlRx.msgId h.sop = (h.id : Int) then True
  else
    !h.isPing && (s.prlTx.xmitStatus != .success || s.prlTx.flags.msgXmit) → DiscardOk s.prlTx

/-- The message that is taken from the TCPM keeps the ids in order. -/
def RxTidy (e : Env) (s : St) : Prop :=
  s.rch.flags.msgReceived = false → ∀ m ∈ s.cachedMessages.head?, HandleTidy e m.header s

instance (e : Env) (h : PdHeader) (s : St) : Decidable (HandleTidy e h s) := by
  delta HandleTidy
  infer_instance

instance (e : Env) (s : St) : Decidable (RxTidy e s) :=
  inferInstanceAs (Decidable (_ → ∀ m ∈ s.cachedMessages.head?, HandleTidy e m.header s))

theorem takeMessage_txSame (m : RxMessage) (rest : List RxMessage) (s : St) :
    TxSame s (takeMessage m rest s) := by
  have hset : TxSame s { s with
      cachedMessages := rest
      pdmsg := { s.pdmsg with
        chkBuf := blit s.pdmsg.chkBuf CHK_BUF_SIZE_BYTES m.payload CHK_BUF_SIZE_BYTES }
      rxEmsg := { s.rxEmsg with header := m.header }
      prlRx := { s.prlRx with sop := m.header.sop } } := ⟨rfl, rfl, rfl, rfl⟩
  exact hset.trans (emit_txSame _ rfl _)

theorem prlRxSoftReset_counts (e : Env) (type : SopStar) (s : St) :
    Counts (∀ t ∈ s.prlTx.flight, t = type) s (prlRxSoftReset e type s) := by
  refine Counts.trans ?_ (peCall_counts e _ _)
  have hseq : seqOf (toTchWait (toRchWait (toPrlTxPhyLayerReset e (prlResetMsgIds type s)))) =
      ((seqOf s).reset type).drop := by
    rw [(toTchWait_txSame _).seqOf, (toRchWait_txSame _).seqOf, seqOf_toPrlTxPhyLayerReset,
      seqOf_prlResetMsgIds]
  refine ⟨?_, ?_⟩
  · intro hr t
    have hcounter := congrArg (fun a => a.counter t) hseq
    have hrange : ∀ u, (seqOf s).counter u < 8 := hr
    have hlt : ((seqOf s).reset type).counter t < 8 :=
      SeqState.Step.range (by decide) (.reset type) hrange t
    exact lt_of_eq_of_lt hcounter hlt
  · intro htype _
    rw [hseq]
    refine .head (.reset type) ?_
    cases hflight : s.prlTx.flight with
    | none => rw [drop_of_none (show ((seqOf s).reset type).flight = none from hflight)]
    | some t =>
      obtain rfl := htype t hflight
      refine .single (.drop t hflight ?_)
      simp [SeqState.reset]

theorem prlRxDiscard_counts (e : Env) (h : PdHeader) (s : St) :
    Counts (!h.isPing && (s.prlTx.xmitStatus != .success || s.prlTx.flags.msgXmit) → DiscardOk s.prlTx) s
      (prlRxDiscard e h s) := by
  apply Counts.ite
  · intro hdiscard
    exact (toPrlTxDiscardMessage_counts e s).mono fun hok => hok hdiscard
  · intro _
    exact .refl s

theorem prlRxRoute_txSame (h : PdHeader) (s : St) : TxSame s (prlRxRoute h s) := by
  unfold prlRxRoute
  split
  · have hlen : TxSame s { s with rxEmsg := { s.rxEmsg with len := 0 } } := ⟨rfl, rfl, rfl, rfl⟩
    exact hlen.trans (peMessageReceived_aloof _).txSame
  · split
    · exact ⟨rfl, rfl, rfl, rfl⟩
    · exact ⟨rfl, rfl, rfl, rfl⟩

theorem prlRxHandle_counts (e : Env) (h : PdHeader) (s : St) :
    Counts (HandleTidy e h s) s (prlRxHandle e h s) := by
  unfold prlRxHandle HandleTidy
  split
  · exact .refl s
  · split
    · exact (emit_txSame .startErrorRecovery rfl s).counts
    · split
      · exact prlRxSoftReset_counts e h.sop s
      · split
        · exact .refl s
        · have hstore : TxSame (prlRxDiscard e h s) (storeMsgId h (prlRxDiscard e h s)) :=
            ⟨rfl, rfl, rfl, rfl⟩
          exact (prlRxDiscard_counts e h s).trans (hstore.trans (prlRxRoute_txSame h _)).counts

theorem prlRxWaitForPhyMessage_counts (e : Env) (s : St) :
    Counts (RxTidy e s) s (prlRxWaitForPhyMessage e s) := by
  apply Counts.ite
  · intro _
    exact .refl s
  · intro hf
    have hf := eq_false_of_ne_true hf
    split
    · exact .refl s
    · next m rest hcached =>
      refine (takeMessage_txSame m rest s).counts.trans
        ((prlRxHandle_counts e m.header (takeMessage m rest s)).mono ?_)
      intro htidy
      exact htidy hf m (by rw [hcached]; rfl)

/-! ## Runs -/

theorem prlInit_counts {q : Prop} (e : Env) (s : St) :
    Counts q s { prlInit e s with localState := .run } := by
  apply Counts.of_run
  intro _
  -- The type of the last message is set first, so `flight` is not that of `s` any more.
  generalize ht : emit (.selectSrcCollisionRp true)
    { s with
      prlTx := { s.prlTx with flags := {}, lastXmitType := .sopStar .sop, xmitStatus := .unset }
      tch := { s.tch with flags := {} }
      rch := { s.rch with flags := {} }
      pdmsg := { s.pdmsg with flags := {} }
      prlHr := { s.prlHr with flags := {} } } = t
  have hcleared : (seqOf t).drop = (seqOf s).drop := by
    rw [← ht]
    refine SeqState.mk.injEq .. ▸ ⟨rfl, rfl, ?_⟩
    simp [seqOf, emit, Event.seq]
  generalize hu : { prlResetAllMsgIds t with
    timers := fun _ => false
    prlTx := { (prlResetAllMsgIds t).prlTx with state := .phyLayerReset } } = u
  have hreset : seqOf u = (resetAll (seqOf t)).drop := by
    rw [← hu, ← seqOf_prlResetAllMsgIds]
    exact SeqState.mk.injEq .. ▸ ⟨rfl, flight_eq_none (show PrlTxState.phyLayerReset ≠ .waitForPhyResponse by decide), rfl⟩
  have hentry : seqOf (prlTxPhyLayerResetEntry e u) = (seqOf u).drop := by
    rw [prlTxPhyLayerResetEntry, seqOf_toPrlTxWait, (emit_txSame _ rfl u).seqOf]
  have hinit : TxSame (prlTxPhyLayerResetEntry e u) { prlInit e s with localState := .run } := by
    rw [← hu, ← ht]
    exact ⟨rfl, rfl, rfl, rfl⟩
  have hall : seqOf { prlInit e s with localState := .run } = (resetAll (seqOf s)).drop := by
    calc seqOf { prlInit e s with localState := .run }
        = (resetAll (seqOf t)).drop.drop := by rw [hinit.seqOf, hentry, hreset]
      _ = resetAll (seqOf t).drop := rfl
      _ = resetAll (seqOf s).drop := by rw [hcleared]
      _ = (resetAll (seqOf s)).drop := rfl
  rw [hall]
  exact resetAll_drop_path _

/-- `prl_run` has initialized the machines if it had to. -/
def initialized (e : RunEnv) (s : St) : St :=
  if s.localState = .run then s else { prlInit (e .init) s with localState := .run }

/-- A step that keeps the ids in order. -/
def Tidy (s : St) : Input → Prop
  | .run e true => HrTidy (initialized e s) ∧
      ((started e s).prlHr.state = .waitForRequest → RxTidy (e .rx) (started e s))
  | _ => True

instance (s : St) : (i : Input) → Decidable (Tidy s i)
  | .run _ true => inferInstanceAs (Decidable (_ ∧ (_ → _)))
  | .run _ false => isTrue trivial
  | .call _ _ => isTrue trivial
  | .enqueueMessage _ => isTrue trivial
  | .clearPendingMessages => isTrue trivial

theorem initialized_counts {q : Prop} (e : RunEnv) (s : St) : Counts q s (initialized e s) := by
  apply Counts.ite
  · intro _
    exact .refl s
  · intro _
    exact prlInit_counts _ s

theorem prlRun_counts (e : RunEnv) (s : St) : Counts (Tidy s (.run e true)) s (prlRun e true s) := by
  have hstarted : Counts (Tidy s (.run e true)) s (started e s) :=
    (initialized_counts e s).trans ((prlHrRun_counts (e .hr) (initialized e s)).mono And.left)
  rw [prlRun_eq]
  apply Counts.ite
  · intro hidle
    have hrx := (prlRxWaitForPhyMessage_counts (e .rx) (started e s)).mono
      (fun h : Tidy s (.run e true) => h.2 hidle)
    exact (hstarted.trans hrx).trans ((rchRun_counts _ _).trans (afterRch_counts e _))
  · intro _
    exact hstarted

theorem prlRun_disabled_counts {q : Prop} (e : RunEnv) (s : St) : Counts q s (prlRun e false s) := by
  have hpause : ∀ t, Counts q t (prlRunning e false t) := by
    intro t
    have hemit := emit_txSame (.setRxEnable false) rfl t
    have hput : TxSame (emit (.setRxEnable false) t) (prlRunning e false t) := ⟨rfl, rfl, rfl, rfl⟩
    exact (hemit.trans hput).counts
  unfold prlRun
  split
  · exact .refl s
  · exact (prlInit_counts _ s).trans (hpause _)
  · exact hpause s

theorem step_counts (s : St) (i : Input) : Counts (Tidy s i) s (step s i) := by
  cases i with
  | run e en =>
    cases en with
    | false => exact prlRun_disabled_counts e s
    | true => exact prlRun_counts e s
  | call e c => exact prlCall_counts e s c
  | enqueueMessage m =>
    exact Counts.ite (fun _ => .refl s) (fun _ => TxSame.counts ⟨rfl, rfl, rfl, rfl⟩)
  | clearPendingMessages => exact TxSame.counts ⟨rfl, rfl, rfl, rfl⟩

/-- The states that runs of tidy steps lead to. -/
inductive TidyRun : St → Prop
  | boot : TidyRun boot
  | step {s : St} (i : Input) : TidyRun s → Tidy s i → TidyRun (step s i)

theorem Reachable.idsInRange {s : St} (h : Reachable s) : IdsInRange s := by
  induction h with
  | boot =>
    intro t
    show (0 : BitVec 32).toNat < 2 ^ 3
    decide
  | step i _ ih => exact (step_counts _ i).range ih

theorem TidyRun.reachable {s : St} (h : TidyRun s) : Reachable s := by
  induction h with
  | boot => exact .boot
  | step i _ _ ih => exact .step i ih

theorem TidyRun.path {s : St} (h : TidyRun s) :
    Relation.ReflTransGen (SeqState.Step 8) (seqOf UsbPrl.boot) (seqOf s) := by
  induction h with
  | boot => exact .refl
  | step i hrun htidy ih => exact ih.trans ((step_counts _ i).path htidy hrun.reachable.idsInRange)

/-- The counters stay in range in every run. In a run of tidy steps messages in a row of
one type have different ids unless the counter was reset in between, and an id is used up
only by a message that was passed to the PHY. -/
theorem message_id_discipline (s : St) :
    (Reachable s → ∀ t, (s.prlTx.msgIdCounter t).toNat < 8) ∧
      (TidyRun s → SeqOk (s.events.filterMap Event.seq)) := by
  refine ⟨fun hs => hs.idsInRange, ?_⟩
  intro hs
  have hrange : ∀ t, (seqOf boot).counter t < 8 := Reachable.idsInRange .boot
  exact (SeqState.run_ok (by decide) hrange rfl rfl hs.path).1

/-! ## A run that is tidy, and one that is not -/

def AllTidy (s : St) : List Input → Prop
  | [] => True
  | i :: ins => Tidy s i ∧ AllTidy (step s i) ins

instance decidableAllTidy (s : St) : (ins : List Input) → Decidable (AllTidy s ins)
  | [] => isTrue trivial
  | i :: ins =>
    have := decidableAllTidy (step s i) ins
    inferInstanceAs (Decidable (Tidy s i ∧ AllTidy (step s i) ins))

theorem tidyRun_foldl (ins : List Input) {s : St} (hs : TidyRun s) (h : AllTidy s ins) :
    TidyRun (ins.foldl step s) := by
  induction ins generalizing s with
  | nil => exact hs
  | cons i ins ih => exact ih (.step i hs h.1) h.2

/-- A message is sent, and another one after something has happened. -/
def twoMessages (between : List Input) : List Input :=
  let run : Input := .run (fun _ => quietEnv) true
  let send : Input := .call quietEnv (.prlSendCtrlMsg (.sopStar .sop) 7)
  [.call quietEnv .prlSetDefaultPdRevision, run, send, run] ++ between ++ [run, run, send, run]

/-- The first message is overtaken by one that comes in. -/
theorem message_id_discipline_overtaken :
    TidyRun ((twoMessages [.enqueueMessage notSupported]).foldl step boot) ∧
      SeqOk (((twoMessages [.enqueueMessage notSupported]).foldl step boot).events.filterMap Event.seq) := by
  have hrun : TidyRun ((twoMessages [.enqueueMessage notSupported]).foldl step boot) :=
    tidyRun_foldl _ .boot (by decide +kernel)
  exact ⟨hrun, (message_id_discipline _).2 hrun⟩

/-- The PHY reports that the first message failed, and a message comes in before that is
noticed: the second message has the id of the first. -/
theorem failed_message_id_reused :
    Reachable ((twoMessages [.call quietEnv (.pdTransmitComplete .failed),
        .enqueueMessage notSupported]).foldl step boot) ∧
      ¬SeqOk (((twoMessages [.call quietEnv (.pdTransmitComplete .failed),
        .enqueueMessage notSupported]).foldl step boot).events.filterMap Event.seq) := by
  refine ⟨reachable_foldl _ .boot, ?_⟩
  have hlog : ((twoMessages [.call quietEnv (.pdTransmitComplete .failed),
      .enqueueMessage notSupported]).foldl step boot).events.filterMap Event.seq =
      (SopStar.all.map SeqEvent.reset ++ [.sent .sop 0]) ++ .sent .sop 0 :: [] := by
    decide +kernel
  intro hok
  exact hok _ _ _ hlog 0 (by decide) rfl

end ChromeEc.UsbPrl
