import ChromeEc.Lib.Credit
import ChromeEc.UsbPrl.MessageId

/- What a hard reset leaves of the messages that were to be sent.

  `prl_hr_reset_layer_entry` clears the flags of the chunking machines, but not those of
  message transmission. A message that chunked Tx had handed on when the reset came
  (`PRL_FLAGS_MSG_XMIT` of `prl_tx`) is still there when hard reset is done, and is sent
  then.

  What is proved: if nothing is pending in message transmission while hard reset is at
  work, and no message is asked for, then every message that is ever passed to the PHY is
  a request of chunked Rx for the next chunk, and a chunk of its own was received since
  (`hard_reset_discards`). -/
namespace ChromeEc.UsbPrl
open Lib

/-! ## What is pending -/

def Event.isMessage : Event → Bool
  | .transmit (.sopStar _) _ _ => true
  | _ => false

/-- The message by which chunked Rx asks for chunk `n`: extended, of one data object, with
the request bit in its extended header. -/
def Event.IsChunkRequest : Event → Prop
  | .transmit (.sopStar _) header data => ∃ type prole drole id rev n,
      header = (pdHeader type prole drole id 1 rev true).setWidth 16 ∧
        data.take 4 = window (wordBytes (pdExtHeader n true 0)) 0 4
  | _ => False

/-- What `rch_requesting_chunk_entry` wrote is still what would be sent. -/
def PdMessage.RequestsChunk (p : PdMessage) : Prop :=
  ∃ n, p.request = (fun i : Fin 4 => wordBytes (pdExtHeader n true 0) i, 1, true)

theorem isMessage_of_seq {ev : Event} (h : ev.seq = none) : ev.isMessage = false := by
  unfold Event.isMessage
  split
  · cases h
  · rfl

/-- A message waits for the sink or the source; the flag is still set then. -/
def PrlTxState.sinkTxPending : PrlTxState → Bool
  | .srcPending => true
  | .snkPending => true
  | _ => false

/-- A soft reset waits for the ids being reset. -/
def PrlTxState.resetPending : PrlTxState → Bool
  | .layerResetForTransmit => true
  | _ => false

/-- The messages of message transmission that are not sent yet. While a soft reset waits
in `PRL_TX_LAYER_RESET_FOR_TRANSMIT`, the flag can be set for another message. -/
def ProtocolLayerTx.pending (tx : ProtocolLayerTx) : Nat :=
  (tx.flags.msgXmit || tx.state.sinkTxPending).toNat + tx.state.resetPending.toNat

/-- One of the functions that ask for a message to be sent. -/
def PrlCall.isSend : PrlCall → Bool
  | .prlSendCtrlMsg _ _ => true
  | .prlSendDataMsg _ _ => true
  | .prlSendExtDataMsg _ _ => true
  | _ => false

/-- The policy engine does not ask for a message in its reactions. -/
def Env.SendsNothing (e : Env) : Prop := ∀ call, ∀ c ∈ e.react call, c.isSend = false

def Input.SendsNothing : Input → Prop
  | .run e _ => ∀ phase, (e phase).SendsNothing
  | .call e c => e.SendsNothing ∧ c.isSend = false
  | _ => True

/-- A step in which nothing is passed to the PHY and nothing becomes pending. -/
structure Keeps (s s' : St) : Prop where
  xmit : s.tch.flags.msgXmit = false → s'.tch.flags.msgXmit = false
  received : s.tch.flags.msgReceived = false → s'.tch.flags.msgReceived = false
  wait : s.tch.state = .waitForMessageRequestFromPe → s'.tch.state = .waitForMessageRequestFromPe
  idle : (s.prlHr.state = .waitForRequest → s.tch.state = .waitForMessageRequestFromPe) →
    s'.prlHr.state = .waitForRequest → s'.tch.state = .waitForMessageRequestFromPe
  request : s'.pdmsg.request = s.pdmsg.request
  pending : s'.prlTx.pending ≤ s.prlTx.pending
  events : ∃ evs, s'.events = s.events ++ evs ∧ ∀ ev ∈ evs, ev.isMessage = false

namespace Keeps

variable {s s' : St}

theorem of_eq (htch : s'.tch = s.tch) (hhr : s'.prlHr.state = s.prlHr.state)
    (hrequest : s'.pdmsg.request = s.pdmsg.request) (hpending : s'.prlTx.pending ≤ s.prlTx.pending)
    (hevents : ∃ evs, s'.events = s.events ++ evs ∧ ∀ ev ∈ evs, ev.isMessage = false) :
    Keeps s s' := by
  refine ⟨?_, ?_, ?_, ?_, hrequest, hpending, hevents⟩
  · rw [htch]
    exact id
  · rw [htch]
    exact id
  · rw [htch]
    exact id
  · rw [htch, hhr]
    exact id

theorem same_events (h : s'.events = s.events) :
    ∃ evs, s'.events = s.events ++ evs ∧ ∀ ev ∈ evs, ev.isMessage = false :=
  ⟨[], by rw [h, List.append_nil], by simp⟩

theorem same (htch : s'.tch = s.tch) (hhr : s'.prlHr.state = s.prlHr.state)
    (hrequest : s'.pdmsg.request = s.pdmsg.request) (hpending : s'.prlTx.pending = s.prlTx.pending)
    (hevents : s'.events = s.events) : Keeps s s' :=
  of_eq htch hhr hrequest (Nat.le_of_eq hpending) (same_events hevents)

theorem refl (s : St) : Keeps s s := same rfl rfl rfl rfl rfl

theorem trans {s₁ s₂ s₃ : St} (h : Keeps s₁ s₂) (h' : Keeps s₂ s₃) : Keeps s₁ s₃ := by
  obtain ⟨evs, heq, hevs⟩ := h.events
  obtain ⟨evs', heq', hevs'⟩ := h'.events
  refine ⟨fun hx => h'.xmit (h.xmit hx), fun hx => h'.received (h.received hx),
    fun hx => h'.wait (h.wait hx), fun hx => h'.idle (h.idle hx), h'.request.trans h.request,
    Nat.le_trans h'.pending h.pending, evs ++ evs', ?_, ?_⟩
  · rw [heq', heq, List.append_assoc]
  · intro ev hev
    obtain hev | hev := List.mem_append.mp hev
    · exact hevs ev hev
    · exact hevs' ev hev

theorem emit (ev : Event) (h : ev.isMessage = false) (s : St) : Keeps s (emit ev s) :=
  of_eq rfl rfl rfl (Nat.le_refl _) ⟨[ev], rfl, by simpa using h⟩

end Keeps

theorem Aloof.keeps {s s' : St} (h : Aloof s s') : Keeps s s' := by
  obtain ⟨evs, heq, hseq⟩ := h.events
  refine .of_eq h.tch (by rw [h.hr]) h.request (by rw [h.tx]) ⟨evs, heq, ?_⟩
  intro ev hev
  exact isMessage_of_seq (hseq ev hev)

/-! ## Changes of state -/

theorem pending_of_state {tx : ProtocolLayerTx} (hsink : tx.state.sinkTxPending = false)
    (hreset : tx.state.resetPending = false) : tx.pending = tx.flags.msgXmit.toNat := by
  simp [ProtocolLayerTx.pending, hsink, hreset]

theorem xmit_le_pending (tx : ProtocolLayerTx) : tx.flags.msgXmit.toNat ≤ tx.pending := by
  unfold ProtocolLayerTx.pending
  cases tx.flags.msgXmit
  · exact Nat.zero_le _
  · exact Nat.le_add_right 1 _

/-- Message transmission goes to a state where nothing is pending but what the flag says. -/
theorem prlTxGoto_keeps {new : PrlTxState} {entry : St → St} (hsink : new.sinkTxPending = false)
    (hreset : new.resetPending = false) (hentry : ∀ t, Keeps t (entry t)) (s : St) : Keeps s (prlTxGoto new entry s) := by
  unfold prlTxGoto
  split
  · exact .refl s
  · obtain ⟨timers, hexit⟩ := prlTxExit_eq s
    rw [hexit]
    have hput : Keeps s { s with timers := timers, prlTx := { s.prlTx with state := new } } := by
      refine .of_eq rfl rfl rfl ?_ (Keeps.same_events rfl)
      rw [pending_of_state hsink hreset]
      exact xmit_le_pending s.prlTx
    exact hput.trans (hentry _)

theorem toPrlTxWait_keeps (s : St) :
    Keeps s (prlTxGoto .waitForMessageRequest prlTxWaitForMessageRequestEntry s) := by
  apply prlTxGoto_keeps rfl rfl
  intro t
  exact .same rfl rfl rfl rfl rfl

theorem toPrlTxPhyLayerReset_keeps (e : Env) (s : St) : Keeps s (toPrlTxPhyLayerReset e s) :=
  prlTxGoto_keeps rfl rfl
    (fun t => (Keeps.emit (.setRxEnable e.pdIsConnected) rfl t).trans (toPrlTxWait_keeps _)) s

theorem toRchWait_keeps (s : St) : Keeps s (toRchWait s) := (toRchWait_aloof (.refl s)).keeps

theorem toTchWait_eq (s : St) : ∃ timers pdmsg flags,
    toTchWait s = { s with
      tch := { s.tch with state := .waitForMessageRequestFromPe, flags := flags }
      pdmsg := pdmsg
      timers := timers } ∧
      flags.msgXmit = s.tch.flags.msgXmit ∧ flags.msgReceived = s.tch.flags.msgReceived ∧
      pdmsg.request = s.pdmsg.request := by
  unfold toTchWait tchGoto
  split
  · next h => exact ⟨s.timers, s.pdmsg, s.tch.flags, by rw [← h], rfl, rfl, rfl⟩
  · unfold tchExit
    split
    · exact ⟨_, _, _, rfl, rfl, rfl, rfl⟩
    · exact ⟨_, _, _, rfl, rfl, rfl, rfl⟩

theorem toTchWait_keeps (s : St) : Keeps s (toTchWait s) := by
  obtain ⟨timers, pdmsg, flags, heq, hxmit, hreceived, hrequest⟩ := toTchWait_eq s
  rw [heq]
  exact ⟨hxmit.trans, hreceived.trans, fun _ => rfl, fun _ _ => rfl, hrequest, Nat.le_refl _,
    Keeps.same_events rfl⟩

/-! ## Hard reset -/

theorem prlHrWaitForPeHardResetCompleteExit_keeps (e : Env) (s : St) :
    Keeps s (prlHrWaitForPeHardResetCompleteExit e s) :=
  ((toPrlTxPhyLayerReset_keeps e s).trans (toRchWait_keeps _)).trans (toTchWait_keeps _)

theorem prlHrExit_keeps (e : Env) (s : St) : Keeps s (prlHrExit e s) := by
  unfold prlHrExit
  split
  · exact .same rfl rfl rfl rfl rfl
  · exact prlHrWaitForPeHardResetCompleteExit_keeps e s
  · exact .refl s

theorem prlResetMsgIds_keeps (type : SopStar) (s : St) : Keeps s (prlResetMsgIds type s) :=
  .of_eq rfl rfl rfl (Nat.le_refl _) ⟨[.resetMsgIds type], rfl, by simp [Event.isMessage]⟩

theorem prlResetAllMsgIds_keeps (s : St) : Keeps s (prlResetAllMsgIds s) :=
  .of_eq rfl rfl rfl (Nat.le_refl _) ⟨SopStar.all.map .resetMsgIds, rfl, by simp [SopStar.all, Event.isMessage]⟩

theorem prlHrPut_keeps {new : PrlHrState} (hnew : new ≠ .waitForRequest) (s : St) :
    Keeps s { s with prlHr := { s.prlHr with state := new } } :=
  ⟨id, id, id, fun _ h => absurd h hnew, rfl, Nat.le_refl _, Keeps.same_events rfl⟩

theorem prlHrClear_keeps (s : St) : Keeps s (prlHrClear s) := by
  have hflags : Keeps s (setPdmsg (fun _ => {}) (setRch (fun _ => {}) (setTch (fun _ => {}) s))) :=
    ⟨fun _ => rfl, fun _ => rfl, id, id, rfl, Nat.le_refl _, Keeps.same_events rfl⟩
  have hrest : ∀ t, Keeps t (emit .notifyHardReset (prlSetDefaultPdRevision (emit (.setRxEnable false) t))) := by
    intro t
    have hrev : Keeps (emit (.setRxEnable false) t)
        (prlSetDefaultPdRevision (emit (.setRxEnable false) t)) :=
      .same rfl rfl rfl rfl rfl
    exact ((Keeps.emit (.setRxEnable false) rfl t).trans hrev).trans (Keeps.emit .notifyHardReset rfl _)
  exact (hflags.trans (prlResetAllMsgIds_keeps _)).trans (hrest _)

theorem toPrlHrResetLayer_keeps (e : Env) (s : St) : Keeps s (toPrlHrResetLayer e s) := by
  unfold toPrlHrResetLayer prlHrGoto
  split
  · exact .refl s
  · have hput := prlHrPut_keeps (show PrlHrState.resetLayer ≠ .waitForRequest by decide) (prlHrExit e s)
    exact (((prlHrExit_keeps e s).trans hput).trans (prlHrClear_keeps _)).trans (toPrlTxWait_keeps _)

theorem executeHardReset_keeps (e : Env) (f : PrlFlags → PrlFlags) (s : St) :
    Keeps s (if prlIsRunning s then toPrlHrResetLayer e (setPrlHr f s) else s) := by
  split
  · have hflag : Keeps s (setPrlHr f s) := .same rfl rfl rfl rfl rfl
    exact hflag.trans (toPrlHrResetLayer_keeps e _)
  · exact .refl s

theorem prlCall_keeps (e : Env) (s : St) {c : PrlCall} (hc : c.isSend = false) :
    Keeps s (prlCall e s c) := by
  cases c with
  | pdExecuteHardReset => exact executeHardReset_keeps e _ s
  | prlExecuteHardReset => exact executeHardReset_keeps e _ s
  | prlResetMsgIds type => exact prlResetMsgIds_keeps type s
  | prlSendCtrlMsg => cases hc
  | prlSendDataMsg => cases hc
  | prlSendExtDataMsg => cases hc
  | _ => exact .same rfl rfl rfl rfl rfl

theorem peCall_keeps {e : Env} (he : e.SendsNothing) (call : PeCall) (s : St) :
    Keeps s (peCall e call s) := by
  have hfold : ∀ (calls : List PrlCall) (t : St), (∀ c ∈ calls, c.isSend = false) →
      Keeps t (calls.foldl (prlCall e) t) := by
    intro calls
    induction calls with
    | nil => exact fun t _ => .refl t
    | cons c calls ih =>
      intro t hcalls
      have hc := hcalls c (List.mem_cons_self ..)
      have hrest : ∀ d ∈ calls, d.isSend = false := fun d hd => hcalls d (List.mem_cons_of_mem c hd)
      exact (prlCall_keeps e t hc).trans (ih _ hrest)
  exact (Keeps.emit (.pe call) rfl s).trans (hfold _ _ (he call))

theorem setStatePrlHr_keeps (e : Env) {new : PrlHrState}
    (hnew : new = .waitForPhyHardResetComplete ∨ new = .waitForPeHardResetComplete) (s : St) :
    Keeps s (setStatePrlHr e new s) := by
  unfold setStatePrlHr prlHrGoto
  split
  · exact .refl s
  · have hexit := prlHrExit_keeps e s
    obtain rfl | rfl := hnew
    · have hput := prlHrPut_keeps (show PrlHrState.waitForPhyHardResetComplete ≠ _ by decide) (prlHrExit e s)
      exact (hexit.trans hput).trans (.same rfl rfl rfl rfl rfl)
    · exact hexit.trans (prlHrPut_keeps (by decide) _)

theorem prlHrToWait_keeps (e : Env) {s : St} (hst : s.prlHr.state = .waitForPeHardResetComplete) :
    Keeps s (setStatePrlHr e .waitForRequest s) := by
  have hexit := prlHrWaitForPeHardResetCompleteExit_keeps e s
  unfold setStatePrlHr prlHrGoto
  rw [if_neg (by rw [hst]; decide), prlHrExit, hst]
  refine ⟨hexit.xmit, hexit.received, hexit.wait, ?_, hexit.request, hexit.pending, hexit.events⟩
  intro _ _
  obtain ⟨timers, pdmsg, flags, heq, -⟩ := toTchWait_eq (toRchWait (toPrlTxPhyLayerReset e s))
  show (toTchWait (toRchWait (toPrlTxPhyLayerReset e s))).tch.state = _
  rw [heq]

theorem prlHrSendMsgToPhy_keeps (s : St) : Keeps s (prlHrSendMsgToPhy s) :=
  .of_eq rfl rfl rfl (Nat.le_refl _) ⟨[_], rfl, fun _ hev => List.mem_singleton.mp hev ▸ rfl⟩

theorem prlHrRun_keeps {e : Env} (he : e.SendsNothing) (s : St) : Keeps s (prlHrRun e s) := by
  unfold prlHrRun
  split
  · unfold prlHrWaitForRequestRun
    split
    · exact toPrlHrResetLayer_keeps e s
    · exact .refl s
  · unfold prlHrResetLayerRun
    split
    · exact (prlHrSendMsgToPhy_keeps s).trans (setStatePrlHr_keeps e (.inl rfl) _)
    · exact (peCall_keeps he _ s).trans (setStatePrlHr_keeps e (.inr rfl) _)
  · unfold prlHrWaitForPhyHardResetCompleteRun
    split
    · exact (Keeps.emit (.pe .hardResetSent) rfl s).trans (setStatePrlHr_keeps e (.inr rfl) _)
    · exact .refl s
  · next hst =>
    unfold prlHrWaitForPeHardResetCompleteRun
    split
    · exact prlHrToWait_keeps e hst
    · exact .refl s

/-! ## Message reception -/

theorem incrementMsgidCounter_keeps (s : St) : Keeps s (incrementMsgidCounter s) := by
  unfold incrementMsgidCounter
  split
  · next t _ => exact .of_eq rfl rfl rfl (Nat.le_refl _) ⟨[.incrementMsgid t], rfl, by simp [Event.isMessage]⟩
  · exact .refl s

/-- A message that is discarded is not pending any more. -/
theorem setPrlTx_clear_keeps (s : St) :
    Keeps s (setPrlTx (fun f => { f with msgXmit := false }) s) := by
  refine .of_eq rfl rfl rfl ?_ (Keeps.same_events rfl)
  simp only [ProtocolLayerTx.pending, setPrlTx, Bool.false_or]
  cases s.prlTx.flags.msgXmit
  · simp
  · simp only [Bool.true_or, Bool.toNat_true]
    exact Nat.add_le_add_right (Bool.toNat_le _) _

theorem prlTxDiscardMessageEntry_keeps (e : Env) (s : St) : Keeps s (prlTxDiscardMessageEntry e s) := by
  have hreport : ∀ t, Keeps t (peReportDiscard t) := Keeps.emit (.pe .reportDiscard) rfl
  unfold prlTxDiscardMessageEntry
  refine Keeps.trans ?_ (toPrlTxPhyLayerReset_keeps e _)
  split
  · refine (setPrlTx_clear_keeps s).trans (Keeps.trans ?_ (hreport _))
    split
    · exact incrementMsgidCounter_keeps _
    · exact .refl _
  · exact .refl s

theorem prlRxDiscard_keeps (e : Env) (h : PdHeader) (s : St) : Keeps s (prlRxDiscard e h s) := by
  unfold prlRxDiscard
  split
  · exact prlTxGoto_keeps rfl rfl (prlTxDiscardMessageEntry_keeps e) s
  · exact .refl s

/-- A message goes to chunked Rx, because chunked Tx waits. -/
theorem prlRxRoute_keeps (h : PdHeader) {s : St}
    (hst : s.tch.state = .waitForMessageRequestFromPe) (hxmit : s.tch.flags.msgXmit = false) :
    Keeps s (prlRxRoute h s) := by
  unfold prlRxRoute
  split
  · have hlen : Aloof s { s with rxEmsg := { s.rxEmsg with len := 0 } } := withRx_aloof rfl
    exact (hlen.trans (peMessageReceived_aloof _)).keeps
  · rw [if_neg (by simp [hst, hxmit])]
    exact (setRch_aloof _ s).keeps

theorem prlRxSoftReset_keeps {e : Env} (he : e.SendsNothing) (type : SopStar) (s : St) :
    Keeps s (prlRxSoftReset e type s) :=
  ((((prlResetMsgIds_keeps type s).trans (toPrlTxPhyLayerReset_keeps e _)).trans
    (toRchWait_keeps _)).trans (toTchWait_keeps _)).trans (peCall_keeps he _ _)

/-- A message that was taken from the TCPM lies behind `tx_chk_buf`. -/
theorem takeMessage_keeps (m : RxMessage) (rest : List RxMessage) (s : St) :
    Keeps s (takeMessage m rest s) := by
  refine .of_eq rfl rfl ?_ (Nat.le_refl _) ⟨[.dequeue m], rfl, by simp [Event.isMessage]⟩
  refine Prod.ext (funext fun i => ?_) rfl
  have hbefore : ¬CHK_BUF_SIZE_BYTES ≤ (i : Nat) := by
    have := i.isLt
    simp only [CHK_BUF_SIZE_BYTES]
    omega
  exact if_neg fun h => hbefore h.1

theorem setPdmsg_keeps (f : PrlFlags → PrlFlags) (s : St) : Keeps s (setPdmsg f s) :=
  (setPdmsg_aloof f s).keeps

/-- Chunked Tx that waits and has no flag set goes on waiting. -/
theorem tchRun_waits {e : Env} {s : St} (hst : s.tch.state = .waitForMessageRequestFromPe)
    (hxmit : s.tch.flags.msgXmit = false) (hreceived : s.tch.flags.msgReceived = false) : tchRun e s = s := by
  simp [tchRun, hst, tchWaitForMessageRequestFromPeRun, tchIfMessageReceived, hxmit, hreceived]

/-! ## Message transmission -/

theorem PdMessage.RequestsChunk.same {p q : PdMessage} (h : p.RequestsChunk)
    (hrequest : q.request = p.request) : q.RequestsChunk := by
  obtain ⟨n, hn⟩ := h
  exact ⟨n, hrequest.trans hn⟩

/-- A message that is sent while the request stands is the request. -/
theorem transmit_request {e : Env} {s : St} (h : s.pdmsg.RequestsChunk)
    (hmessage : (Event.transmit s.pdmsg.xmitType (txHeader e s)
      (window s.pdmsg.chkBuf 0 CHK_BUF_SIZE_BYTES)).isMessage = true) :
    (Event.transmit s.pdmsg.xmitType (txHeader e s)
      (window s.pdmsg.chkBuf 0 CHK_BUF_SIZE_BYTES)).IsChunkRequest := by
  obtain ⟨n, hn⟩ := h
  simp only [PdMessage.request, Prod.mk.injEq] at hn
  obtain ⟨hbuf, hobjs, hext⟩ := hn
  have hdata : (window s.pdmsg.chkBuf 0 CHK_BUF_SIZE_BYTES).take 4 =
      window (wordBytes (pdExtHeader n true 0)) 0 4 := by
    have hbytes : ∀ i : Fin 4, s.pdmsg.chkBuf i = wordBytes (pdExtHeader n true 0) i := congrFun hbuf
    have hlast : s.pdmsg.chkBuf 3 = wordBytes (pdExtHeader n true 0) 3 := hbytes 3
    simpa [window, CHK_BUF_SIZE_BYTES, List.range_succ, hlast] using
      And.intro (hbytes 0) (And.intro (hbytes 1) (hbytes 2))
  cases htype : s.pdmsg.xmitType with
  | sopStar t =>
    have hheader : txHeader e s = (getSopStarHeader e t s).setWidth 16 := by rw [txHeader, htype]
    rw [getSopStarHeader, hobjs, hext] at hheader
    exact ⟨_, _, _, _, _, n, hheader, hdata⟩
  | _ =>
    rw [htype] at hmessage
    cases hmessage

/-- What a run of message transmission does with what is pending. -/
inductive TxMoves (s : St) : St → Prop
  | keeps {s' : St} (h : Keeps s s') : TxMoves s s'
  | sends {s' : St} (htch : s'.tch = s.tch) (hhr : s'.prlHr = s.prlHr)
      (hrequest : s'.pdmsg.request = s.pdmsg.request)
      (hpending : s'.prlTx.pending + 1 ≤ s.prlTx.pending)
      (hevents : ∃ evs ev, s'.events = s.events ++ evs ++ [ev] ∧ (∀ ev ∈ evs, ev.isMessage = false) ∧
        (s.pdmsg.RequestsChunk → ev.isMessage = true → ev.IsChunkRequest)) :
      TxMoves s s'

theorem TxMoves.after {s t u : St} (h : Keeps s t) (htch : t.tch = s.tch) (hhr : t.prlHr = s.prlHr)
    (h' : TxMoves t u) : TxMoves s u := by
  cases h' with
  | keeps h' => exact .keeps (h.trans h')
  | sends htch' hhr' hrequest hpending hev =>
    obtain ⟨evs, heq, hevs⟩ := h.events
    obtain ⟨evs', ev, heq', hevs', hchunk⟩ := hev
    refine .sends (htch'.trans htch) (hhr'.trans hhr) (hrequest.trans h.request)
      (Nat.le_trans hpending h.pending) ⟨evs ++ evs', ev, ?_, ?_, fun hs => hchunk (hs.same h.request)⟩
    · rw [heq', heq, List.append_assoc s.events]
    · intro ev' hev'
      obtain hev' | hev' := List.mem_append.mp hev'
      · exact hevs ev' hev'
      · exact hevs' ev' hev'

/-- The message is passed to the PHY from a state `s` that had one more pending. -/
theorem prlTxConstructMessage_moves (e : Env) {s t : St} (htch : t.tch = s.tch)
    (hhr : t.prlHr = s.prlHr) (hpdmsg : t.pdmsg = s.pdmsg) (hevents : t.events = s.events)
    (hst : t.prlTx.state ≠ .waitForPhyResponse)
    (hpending : t.prlTx.flags.msgXmit.toNat + 1 ≤ s.prlTx.pending) :
    TxMoves s (setStatePrlTx e .waitForPhyResponse (prlTxConstructMessage e t)) := by
  have hne : (prlTxConstructMessage e t).prlTx.state ≠ .waitForPhyResponse := hst
  obtain ⟨timers, hexit⟩ := prlTxExit_eq (prlTxConstructMessage e t)
  unfold setStatePrlTx prlTxGoto
  rw [if_neg hne, hexit]
  refine .sends htch hhr (show t.pdmsg.request = _ from congrArg _ hpdmsg) ?_ ?_
  · exact Nat.le_trans (Nat.le_of_eq (congrArg (· + 1) (pending_of_state rfl rfl))) hpending
  · refine ⟨[], .transmit t.pdmsg.xmitType (txHeader e t) (window t.pdmsg.chkBuf 0 CHK_BUF_SIZE_BYTES),
      ?_, by simp, fun hs => transmit_request (hpdmsg ▸ hs)⟩
    rw [List.append_nil, ← hevents]
    rfl

theorem prlTxLayerResetForTransmitEntry_keeps (s : St) : Keeps s (prlTxLayerResetForTransmitEntry s) := by
  unfold prlTxLayerResetForTransmitEntry
  split
  · exact prlResetMsgIds_keeps _ s
  · exact .refl s

theorem prlTxSendPending_moves (e : Env) {s : St} (hst : s.prlTx.state ≠ .waitForPhyResponse)
    (hreset : s.prlTx.state.resetPending = false)
    (hpending : 1 ≤ s.prlTx.pending) : TxMoves s (prlTxSendPending e s) := by
  unfold prlTxSendPending
  dsimp only
  split
  · -- From now on it is the state that says that the soft reset is pending.
    have hne : (setPrlTx (fun f => { f with msgXmit := false }) s).prlTx.state ≠
        .layerResetForTransmit := by
      intro h
      rw [show s.prlTx.state = .layerResetForTransmit from h] at hreset
      cases hreset
    obtain ⟨timers, hexit⟩ := prlTxExit_eq (setPrlTx (fun f => { f with msgXmit := false }) s)
    unfold setStatePrlTx prlTxGoto
    rw [if_neg hne, hexit]
    have hput : Keeps s { setPrlTx (fun f => { f with msgXmit := false }) s with
        timers := timers
        prlTx := { (setPrlTx (fun f => { f with msgXmit := false }) s).prlTx with
          state := .layerResetForTransmit } } :=
      .of_eq rfl rfl rfl hpending (Keeps.same_events rfl)
    exact .keeps (hput.trans (prlTxLayerResetForTransmitEntry_keeps _))
  · exact prlTxConstructMessage_moves e rfl rfl rfl rfl hst hpending

/-- The flag is set, and message transmission waits for the other side. -/
theorem toSinkTxPending_keeps (e : Env) {new : PrlTxState} (hnew : new = .srcPending ∨ new = .snkPending)
    {s : St} (hxmit : s.prlTx.flags.msgXmit = true) : Keeps s (setStatePrlTx e new s) := by
  obtain ⟨timers, hexit⟩ := prlTxExit_eq s
  unfold setStatePrlTx prlTxGoto
  split
  · exact .refl s
  · rw [hexit]
    have hle := xmit_le_pending s.prlTx
    rw [hxmit] at hle
    obtain rfl | rfl := hnew
    · have hput : Keeps s { s with timers := timers, prlTx := { s.prlTx with state := .srcPending } } := by
        refine .of_eq rfl rfl rfl ?_ (Keeps.same_events rfl)
        simpa [ProtocolLayerTx.pending, PrlTxState.sinkTxPending, PrlTxState.resetPending] using hle
      exact hput.trans (.same rfl rfl rfl rfl rfl)
    · have hput : Keeps s { s with timers := timers, prlTx := { s.prlTx with state := .snkPending } } := by
        refine .of_eq rfl rfl rfl ?_ (Keeps.same_events rfl)
        simpa [ProtocolLayerTx.pending, PrlTxState.sinkTxPending, PrlTxState.resetPending] using hle
      exact hput

theorem prlTxWaitForMessageRequestRun_moves (e : Env) {s : St}
    (hst : s.prlTx.state = .waitForMessageRequest) : TxMoves s (prlTxWaitForMessageRequestRun e s) := by
  have hrest : ∀ t, Keeps s t → t.tch = s.tch → t.prlHr = s.prlHr →
      t.prlTx.state = .waitForMessageRequest → TxMoves s
      (if isSopRev30 t && e.peInLocalAms && !(t.prlTx.flags.sinkNg || t.prlTx.flags.waitSinkOk) then
        if e.powerRole = .source then
          setStatePrlTx e .srcSourceTx (setPrlTx (fun f => { f with sinkNg := true }) t)
        else
          setStatePrlTx e .snkStartAms (setPrlTx (fun f => { f with waitSinkOk := true }) t)
      else if t.prlTx.flags.msgXmit then prlTxSendPending e t
      else t) := by
    intro t ht htch hhr hst'
    split
    · split
      · have hflag : Keeps t (setPrlTx (fun f => { f with sinkNg := true }) t) :=
          .same rfl rfl rfl rfl rfl
        have hentry : ∀ u, Keeps u (prlTxSrcSourceTxEntry u) := fun u =>
          (Keeps.emit (.selectSrcCollisionRp false) rfl u).trans (Keeps.emit .updateCc rfl _)
        exact .keeps ((ht.trans hflag).trans (prlTxGoto_keeps rfl rfl hentry _))
      · have hflag : Keeps t (setPrlTx (fun f => { f with waitSinkOk := true }) t) :=
          .same rfl rfl rfl rfl rfl
        exact .keeps ((ht.trans hflag).trans (prlTxGoto_keeps rfl rfl .refl _))
    · split
      · next hxmit =>
        have hle := xmit_le_pending t.prlTx
        rw [hxmit] at hle
        exact .after ht htch hhr
          (prlTxSendPending_moves e (by rw [hst']; decide) (by rw [hst']; rfl) hle)
      · exact .keeps ht
  have hok : ∀ t, t = (if s.prlTx.flags.sinkNg then emit .updateCc (emit (.selectSrcCollisionRp true) s)
      else s) → Keeps s t ∧ t.tch = s.tch ∧ t.prlHr = s.prlHr ∧ t.prlTx.state = s.prlTx.state := by
    rintro t rfl
    split
    · exact ⟨(Keeps.emit (.selectSrcCollisionRp true) rfl s).trans (Keeps.emit .updateCc rfl _),
        rfl, rfl, rfl⟩
    · exact ⟨.refl s, rfl, rfl, rfl⟩
  have hclear : ∀ t, Keeps t (setPrlTx (fun f => { f with sinkNg := false, waitSinkOk := false }) t) :=
    fun t => .same rfl rfl rfl rfl rfl
  unfold prlTxWaitForMessageRequestRun
  by_cases hams : e.peInLocalAms = true
  · rw [if_pos hams]
    exact hrest s (.refl s) rfl rfl hst
  · rw [if_neg hams]
    obtain ⟨hkeeps, htch, hhr, hstate⟩ := hok _ rfl
    exact hrest _ (hkeeps.trans (hclear _)) htch hhr (hstate.trans hst)

theorem prlTxRun_moves (e : Env) (s : St) : TxMoves s (prlTxRun e s) := by
  unfold prlTxRun
  split
  · exact .keeps (.refl s)
  · next hst => exact prlTxWaitForMessageRequestRun_moves e hst
  · next hst =>
    refine prlTxConstructMessage_moves e rfl rfl rfl rfl (by rw [hst]; decide) ?_
    simp [ProtocolLayerTx.pending, hst, PrlTxState.sinkTxPending, PrlTxState.resetPending]
  · unfold prlTxWaitForPhyResponseRun
    split
    · have hincr := (incrementMsgidCounter_keeps s).trans (setPdmsg_keeps (fun f => { f with txComplete := true }) _)
      exact .keeps (hincr.trans (toPrlTxWait_keeps _))
    · split
      · have hincr := (setPdmsg_keeps (fun f => { f with txError := true }) s).trans (incrementMsgidCounter_keeps _)
        exact .keeps (hincr.trans (toPrlTxWait_keeps _))
      · exact .keeps (.refl s)
  · unfold prlTxSrcSourceTxRun
    split
    · next h => exact .keeps (toSinkTxPending_keeps e (.inl rfl) h)
    · exact .keeps (.refl s)
  · unfold prlTxSnkStartAmsRun
    split
    · next h => exact .keeps (toSinkTxPending_keeps e (.inr rfl) h)
    · exact .keeps (.refl s)
  · next hst =>
    unfold prlTxSrcPendingRun
    split
    · refine prlTxSendPending_moves e (by rw [hst]; decide) (by rw [hst]; rfl) ?_
      simp [ProtocolLayerTx.pending, hst, PrlTxState.sinkTxPending]
    · exact .keeps (.refl s)
  · next hst =>
    unfold prlTxSnkPendingRun
    split
    · refine prlTxSendPending_moves e (by rw [hst]; decide) (by rw [hst]; rfl) ?_
      simp [ProtocolLayerTx.pending, hst, PrlTxState.sinkTxPending]
    · exact .keeps (.refl s)
  · exact .keeps (.refl s)

/-! ## Runs -/

/-- Nothing is left of what was to be sent before: what is pending is the request for a
chunk, and so was all that was sent. `base` is the log up to then. -/
structure Discarded (base : List Event) (s : St) : Prop where
  xmit : s.tch.flags.msgXmit = false
  received : s.tch.flags.msgReceived = false
  idle : s.prlHr.state = .waitForRequest → s.tch.state = .waitForMessageRequestFromPe
  request : 0 < s.prlTx.pending → s.pdmsg.RequestsChunk
  log : ∃ evs, s.events = base ++ evs ∧
    Credit Event.isMessage Event.isChunk s.prlTx.pending evs ∧
    ∀ ev ∈ evs, ev.isMessage = true → ev.IsChunkRequest

/-- Chunked Tx waits too. -/
def Calmed (base : List Event) (s : St) : Prop :=
  Discarded base s ∧ s.tch.state = .waitForMessageRequestFromPe

section

variable {base : List Event} {s s' : St}

theorem requests_append {evs evs' : List Event} (h : ∀ ev ∈ evs, ev.isMessage = true → ev.IsChunkRequest)
    (h' : ∀ ev ∈ evs', ev.isMessage = false) :
    ∀ ev ∈ evs ++ evs', ev.isMessage = true → ev.IsChunkRequest := by
  intro ev hev hmessage
  obtain hev | hev := List.mem_append.mp hev
  · exact h ev hev hmessage
  · rw [h' ev hev] at hmessage
    cases hmessage

theorem Keeps.discarded (h : Keeps s s') (hs : Discarded base s) : Discarded base s' := by
  obtain ⟨evs, heq, hcredit, hrequests⟩ := hs.log
  obtain ⟨evs', heq', hevs'⟩ := h.events
  have hpending := h.pending
  refine ⟨h.xmit hs.xmit, h.received hs.received, h.idle hs.idle, ?_, evs ++ evs', ?_, ?_,
    requests_append hrequests hevs'⟩
  · intro hpos
    exact (hs.request (Nat.lt_of_lt_of_le hpos hpending)).same h.request
  · rw [heq', heq, List.append_assoc]
  · exact (hcredit.append hevs').mono (by omega)

theorem Keeps.calmed (h : Keeps s s') (hs : Calmed base s) : Calmed base s' :=
  ⟨h.discarded hs.1, h.wait hs.2⟩

theorem TxMoves.calmed (h : TxMoves s s') (hcalm : Calmed base s) : Calmed base s' := by
  cases h with
  | keeps h => exact h.calmed hcalm
  | sends htch hhr hrequest hpending hevents =>
    obtain ⟨hs, hwait⟩ := hcalm
    obtain ⟨evs, heq, hcredit, hrequests⟩ := hs.log
    obtain ⟨evs', ev, heq', hevs', hchunk⟩ := hevents
    have hstands := hs.request (by omega)
    rw [← htch] at hwait
    refine ⟨⟨htch ▸ hs.xmit, htch ▸ hs.received, fun _ => hwait, fun _ => hstands.same hrequest,
      evs ++ evs' ++ [ev], ?_, ?_, ?_⟩, hwait⟩
    · rw [heq', heq]
      simp only [List.append_assoc]
    · have hone : Credit Event.isMessage Event.isChunk (s'.prlTx.pending + 1) (evs ++ evs') :=
        (hcredit.append hevs').mono (by omega)
      exact hone.snoc ev
    · intro ev' hev' hmessage
      obtain hev' | hev' := List.mem_append.mp hev'
      · exact requests_append hrequests hevs' ev' hev' hmessage
      · obtain rfl := List.mem_singleton.mp hev'
        exact hchunk hstands hmessage

theorem rchRequestingChunkEntry_requests (t : St) : (rchRequestingChunkEntry t).pdmsg.RequestsChunk := by
  refine ⟨t.pdmsg.chunkNumberExpected, Prod.ext (funext fun i => ?_) rfl⟩
  exact if_pos ⟨Nat.zero_le _, (Nat.zero_add 4).symm ▸ i.isLt⟩

theorem rchRequestingChunkEntry_calmed {t : St} (h : Aloof s t)
    (hchunk : s.events.countP Event.isChunk < t.events.countP Event.isChunk)
    (hcalm : Calmed base s) : Calmed base (rchRequestingChunkEntry t) := by
  obtain ⟨ht, hwait⟩ := h.keeps.calmed hcalm
  obtain ⟨evs, heq, hcredit, hrequests⟩ := hcalm.1.log
  obtain ⟨evs', heq', hseq⟩ := h.events
  have hevs' : ∀ ev ∈ evs', ev.isMessage = false := fun ev hev => isMessage_of_seq (hseq ev hev)
  rw [heq', List.countP_append] at hchunk
  refine ⟨⟨ht.xmit, ht.received, ht.idle, fun _ => rchRequestingChunkEntry_requests t, evs ++ evs', ?_, ?_,
    requests_append hrequests hevs'⟩, hwait⟩
  · rw [← List.append_assoc, ← heq]
    exact heq'
  · have hpending : (rchRequestingChunkEntry t).prlTx.pending ≤ s.prlTx.pending + 1 := by
      rw [← h.tx]
      simp only [rchRequestingChunkEntry, setPrlTx, ProtocolLayerTx.pending, Bool.true_or,
        Bool.toNat_true]
      omega
    exact (hcredit.append hevs').mono (by omega)

theorem rchRun_calmed {e : Env} (he : e.SendsNothing) (hs : Calmed base s) :
    Calmed base (rchRun e s) := by
  have hmoves := rchRun_moves e s
  generalize rchRun e s = s' at hmoves ⊢
  cases hmoves with
  | aloof h => exact h.keeps.calmed hs
  | fail call h => exact (h.keeps.trans (peCall_keeps he call _)).calmed hs
  | request h hchunk => exact rchRequestingChunkEntry_calmed h hchunk hs

theorem prlRxWaitForPhyMessage_keeps {e : Env} (he : e.SendsNothing) (hs : Calmed base s) :
    Keeps s (prlRxWaitForPhyMessage e s) := by
  unfold prlRxWaitForPhyMessage
  split
  · exact .refl s
  · split
    · exact .refl s
    · next m rest _ =>
      refine (takeMessage_keeps m rest s).trans ?_
      unfold prlRxHandle
      split
      · exact .refl _
      · split
        · exact Keeps.emit .startErrorRecovery rfl _
        · split
          · exact prlRxSoftReset_keeps he _ _
          · split
            · exact .refl _
            · have hdiscard := prlRxDiscard_keeps e m.header (takeMessage m rest s)
              have hstore : Keeps (prlRxDiscard e m.header (takeMessage m rest s))
                  (storeMsgId m.header (prlRxDiscard e m.header (takeMessage m rest s))) :=
                .same rfl rfl rfl rfl rfl
              exact (hdiscard.trans hstore).trans
                (prlRxRoute_keeps _ (hdiscard.wait hs.2) (hdiscard.xmit hs.1.xmit))

theorem afterRch_calmed {e : RunEnv} (hs : Calmed base s) : Calmed base (afterRch e s) := by
  have htx := (prlTxRun_moves (e .tx) s).calmed hs
  rw [afterRch, tchRun_waits hs.2 hs.1.xmit hs.1.received, tchRun_waits htx.2 htx.1.xmit htx.1.received]
  exact htx

theorem prlInit_keeps (e : Env) (s : St) : Keeps s { prlInit e s with localState := .run } := by
  refine ⟨fun _ => rfl, fun _ => rfl, fun _ => rfl, fun _ _ => rfl, rfl, Nat.zero_le _, ?_⟩
  refine ⟨[.selectSrcCollisionRp true] ++ SopStar.all.map .resetMsgIds ++ [.setRxEnable e.pdIsConnected],
    ?_, by simp [SopStar.all, Event.isMessage]⟩
  simp only [← List.append_assoc]
  rfl

theorem prlRunning_discarded {e : RunEnv} (he : ∀ phase, (e phase).SendsNothing) (en : Bool)
    (hs : Discarded base s) : Discarded base (prlRunning e en s) := by
  unfold prlRunning
  split
  · have hemit := Keeps.emit (.setRxEnable false) rfl s
    have hpause : Keeps (emit (.setRxEnable false) s)
        { emit (.setRxEnable false) s with localState := .paused } :=
      .same rfl rfl rfl rfl rfl
    exact (hemit.trans hpause).discarded hs
  · have hhr := (prlHrRun_keeps (he .hr) s).discarded hs
    dsimp only
    split
    · next hidle =>
      have hcalm : Calmed base _ := ⟨hhr, hhr.idle hidle⟩
      have hrx := (prlRxWaitForPhyMessage_keeps (he .rx) hcalm).calmed hcalm
      exact (afterRch_calmed (rchRun_calmed (he .rch) hrx)).1
    · exact hhr

theorem step_discarded {i : Input} (hi : i.SendsNothing) (hs : Discarded base s) :
    Discarded base (step s i) := by
  cases i with
  | run e en =>
    have hinit := (prlInit_keeps (e .init) s).discarded hs
    show Discarded base (prlRun e en s)
    unfold prlRun
    split
    · split
      · exact hs
      · exact prlRunning_discarded hi en hinit
    · exact prlRunning_discarded hi en hinit
    · exact prlRunning_discarded hi en hs
  | call e c => exact (prlCall_keeps e s hi.2).discarded hs
  | enqueueMessage m =>
    show Discarded base (if s.cachedMessages.length = cacheDepth then s
      else { s with cachedMessages := s.cachedMessages ++ [m] })
    split
    · exact hs
    · exact ⟨hs.xmit, hs.received, hs.idle, hs.request, hs.log⟩
  | clearPendingMessages => exact ⟨hs.xmit, hs.received, hs.idle, hs.request, hs.log⟩

theorem run_discarded {ins : List Input} (hins : ∀ i ∈ ins, i.SendsNothing)
    (hs : Discarded base s) : Discarded base (ins.foldl step s) := by
  induction ins generalizing s with
  | nil => exact hs
  | cons i ins ih =>
    have hi := hins i (List.mem_cons_self ..)
    have hrest : ∀ j ∈ ins, j.SendsNothing := fun j hj => hins j (List.mem_cons_of_mem i hj)
    exact ih hrest (step_discarded hi hs)

end

/-- Hard reset is at work, no message was asked for since it began, and none is pending in
message transmission. Whatever happens then without a message being asked for: every
message that is passed to the PHY is a request of chunked Rx for the next chunk, and at any
time there are no more of them than chunks that were received since. -/
theorem hard_reset_discards {s : St} (hs : Reachable s) (hbusy : s.prlHr.state ≠ .waitForRequest)
    (hxmit : s.tch.flags.msgXmit = false) (hpending : s.prlTx.pending = 0) (ins : List Input)
    (hins : ∀ i ∈ ins, i.SendsNothing) :
    ∃ evs, (ins.foldl step s).events = s.events ++ evs ∧
      (∀ ev ∈ evs, ev.isMessage = true → ev.IsChunkRequest) ∧
      ∀ pre, pre <+: evs → pre.countP Event.isMessage ≤ pre.countP Event.isChunk := by
  have hreceived := (hs.inv.clean.busy hbusy).2
  have hstart : Discarded s.events s := by
    refine ⟨hxmit, hreceived, fun h => absurd h hbusy, fun h => ?_, [], (List.append_nil _).symm, ?_, nofun⟩
    · rw [hpending] at h
      cases h
    · rw [hpending]
      exact .nil
  obtain ⟨evs, heq, hcredit, hrequests⟩ := (run_discarded hins hstart).log
  exact ⟨evs, heq, hrequests, hcredit.covered⟩

/-! ## A reset that discards a message, and one that forgets it -/

theorem quietEnv_sendsNothing : quietEnv.SendsNothing := by
  intro call c hc
  cases hc

/-- The policy engine is told of the reset and completes it. -/
def completesReset : List Input :=
  let run : Input := .run (fun _ => quietEnv) true
  [run, .call quietEnv .prlHardResetComplete, run]

/-- After the reset the first chunk is received, and the second one asked for. -/
def resetThenChunk : List Input :=
  let run : Input := .run (fun _ => quietEnv) true
  completesReset ++ [.enqueueMessage firstOfTwoChunks, run, run, run]

theorem resetThenChunk_sendsNothing : ∀ i ∈ resetThenChunk, i.SendsNothing := by
  intro i hi
  simp only [resetThenChunk, completesReset, List.cons_append, List.nil_append, List.mem_cons,
    List.not_mem_nil, or_false] at hi
  obtain rfl | rfl | rfl | rfl | rfl | rfl | rfl := hi
  · exact fun _ => quietEnv_sendsNothing
  · exact ⟨quietEnv_sendsNothing, rfl⟩
  · exact fun _ => quietEnv_sendsNothing
  · exact trivial
  · exact fun _ => quietEnv_sendsNothing
  · exact fun _ => quietEnv_sendsNothing
  · exact fun _ => quietEnv_sendsNothing

/-- A message is being received, its second chunk has been asked for, and another message is
to be sent. The port partner resets the port before chunked Tx has taken that one. -/
def resetWhileRequested : List Input :=
  let run : Input := .run (fun _ => quietEnv) true
  [.call quietEnv .prlSetDefaultPdRevision, run, .enqueueMessage firstOfTwoChunks, run, run,
    .call quietEnv (.pdTransmitComplete .success), run, run,
    .call quietEnv (.prlSendCtrlMsg (.sopStar .sop) 7), .call quietEnv .pdExecuteHardReset]

/-- The message is never passed to the PHY. What is passed is the next request for a chunk. -/
theorem hard_reset_discards_requested :
    (resetWhileRequested.foldl step boot).prlHr.state ≠ .waitForRequest ∧
      ∃ evs, (resetThenChunk.foldl step (resetWhileRequested.foldl step boot)).events =
          (resetWhileRequested.foldl step boot).events ++ evs ∧
        evs.countP Event.isMessage = 1 ∧ (∀ ev ∈ evs, ev.isMessage = true → ev.IsChunkRequest) ∧
        ∀ pre, pre <+: evs → pre.countP Event.isMessage ≤ pre.countP Event.isChunk := by
  have hbusy : (resetWhileRequested.foldl step boot).prlHr.state ≠ .waitForRequest := by decide +kernel
  obtain ⟨evs, heq, hrequests, hcovered⟩ := hard_reset_discards (reachable_foldl _ .boot) hbusy
    (by decide +kernel) (by decide +kernel) resetThenChunk resetThenChunk_sendsNothing
  have hcount := congrArg (List.countP Event.isMessage) heq
  have hbefore : (resetWhileRequested.foldl step boot).events.countP Event.isMessage = 1 := by decide +kernel
  have hafter : (resetThenChunk.foldl step (resetWhileRequested.foldl step boot)).events.countP
      Event.isMessage = 2 := by decide +kernel
  rw [List.countP_append, hbefore, hafter] at hcount
  exact ⟨hbusy, evs, heq, by omega, hrequests, hcovered⟩

/-- A message waits for the start of an AMS when the port partner resets the port. -/
def resetWhilePending : List Input :=
  [.call quietEnv .prlSetDefaultPdRevision, .run (fun _ => quietEnv) true,
    .call quietEnv (.prlSendCtrlMsg (.sopStar .sop) 7),
    .run (fun _ => { quietEnv with peInLocalAms := true }) true,
    .call quietEnv .pdExecuteHardReset]

/-- The message is passed to the PHY once hard reset is done, though nothing was received
and no message was asked for since the reset began. -/
theorem hard_reset_sends_stale_message :
    Reachable (resetWhilePending.foldl step boot) ∧
      (resetWhilePending.foldl step boot).prlHr.state = .resetLayer ∧
      (resetWhilePending.foldl step boot).tch.flags.msgXmit = false ∧
      (∀ i ∈ completesReset, i.SendsNothing) ∧
      ∃ evs, (completesReset.foldl step (resetWhilePending.foldl step boot)).events =
          (resetWhilePending.foldl step boot).events ++ evs ∧
        evs.countP Event.isMessage = 1 ∧ evs.countP Event.isChunk = 0 := by
  refine ⟨reachable_foldl _ .boot, by decide +kernel, by decide +kernel,
    fun i hi => resetThenChunk_sendsNothing i (List.mem_append_left _ hi),
    (completesReset.foldl step (resetWhilePending.foldl step boot)).events.drop
      (resetWhilePending.foldl step boot).events.length, ?_, ?_, ?_⟩
  · decide +kernel
  · decide +kernel
  · decide +kernel

end ChromeEc.UsbPrl
