import ChromeEc.UsbPrl.Model

/- What the functions outside of the two chunking machines leave alone.

  A call of the policy engine may come back with any calls of its own, so none of
  the functions that make one has a simple effect. All that is used of them is
  `Calm`: chunked Rx is left as it is or put back to where it waits, and so is
  chunked Tx; neither is told of a message; and the message that was received, as
  far as it got, is untouched.

  What is proved: the calls into the protocol layer (`prlCall_calm`), the calls of
  the policy engine (`peCall_calm`) and hard reset (`prlHrRun_calm`) are calm, and
  message transmission changes nothing there at all (`prlTxRun_same`). -/
namespace ChromeEc.UsbPrl
open Lib

/-- An event that has nothing to do with the message being received. -/
def Event.Inert : Event → Prop
  | .dequeue _ => False
  | .firstChunk => False
  | .chunk _ _ => False
  | .copyChunkToExt _ => False
  | _ => True

/-- The log went on with inert events only. -/
def Quiet (s s' : St) : Prop := ∃ evs, s'.events = s.events ++ evs ∧ ∀ ev ∈ evs, ev.Inert

theorem Quiet.of_eq {s s' : St} (h : s'.events = s.events) : Quiet s s' := by
  refine ⟨[], ?_, ?_⟩
  · rw [h, List.append_nil]
  · intro ev hev
    cases hev

theorem Quiet.trans {s₁ s₂ s₃ : St} (h : Quiet s₁ s₂) (h' : Quiet s₂ s₃) : Quiet s₁ s₃ := by
  obtain ⟨evs, heq, hin⟩ := h
  obtain ⟨evs', heq', hin'⟩ := h'
  refine ⟨evs ++ evs', ?_, ?_⟩
  · rw [heq', heq, List.append_assoc]
  · intro ev hev
    obtain hev | hev := List.mem_append.mp hev
    · exact hin ev hev
    · exact hin' ev hev

theorem quiet_emit (ev : Event) (h : ev.Inert) (s : St) : Quiet s (emit ev s) := by
  refine ⟨[ev], rfl, ?_⟩
  intro ev' hev
  rw [List.mem_singleton.mp hev]
  exact h

/-- Hard reset waits for a request only when there is none, and while it is at work
no message is on its way. -/
structure HrClean (s : St) : Prop where
  idle : s.prlHr.state = .waitForRequest →
    s.prlHr.flags.peHardReset = false ∧ s.prlHr.flags.portPartnerHardReset = false
  busy : s.prlHr.state ≠ .waitForRequest →
    s.rch.flags.msgReceived = false ∧ s.tch.flags.msgReceived = false

/-- A step that leaves the chunking machines and hard reset as they are, but that
chunked Tx may forget about a message. -/
structure Same (s s' : St) : Prop where
  localState : s'.localState = s.localState
  rch : s'.rch = s.rch
  tch : s'.tch.state = s.tch.state
  tchFlag : s'.tch.flags.msgReceived = true → s.tch.flags.msgReceived = true
  hr : s'.prlHr = s.prlHr
  header : s'.rxEmsg.header = s.rxEmsg.header
  buf : s'.rxEmsg.buf = s.rxEmsg.buf
  rx : s'.pdmsg.rxChkBuf = s.pdmsg.rxChkBuf
  expected : s'.pdmsg.chunkNumberExpected = s.pdmsg.chunkNumberExpected
  received : s'.pdmsg.numBytesReceived = s.pdmsg.numBytesReceived
  events : Quiet s s'

def kept (s : St) :=
  (s.localState, s.rch, s.tch.state, s.tch.flags.msgReceived, s.prlHr, s.rxEmsg.header, s.rxEmsg.buf,
    s.pdmsg.rxChkBuf, s.pdmsg.chunkNumberExpected, s.pdmsg.numBytesReceived)

namespace Same

theorem quiet {s s' : St} (h : kept s' = kept s) (hevents : Quiet s s') : Same s s' := by
  simp only [kept, Prod.mk.injEq] at h
  obtain ⟨hlocal, hrch, htch, hflag, hhr, hheader, hbuf, hrx, hexpected, hreceived⟩ := h
  exact ⟨hlocal, hrch, htch, fun hf => hflag ▸ hf, hhr, hheader, hbuf, hrx, hexpected, hreceived, hevents⟩

theorem silent {s s' : St} (h : kept s' = kept s) (hevents : s'.events = s.events) : Same s s' :=
  quiet h (Quiet.of_eq hevents)

theorem refl (s : St) : Same s s := silent rfl rfl

theorem trans {s₁ s₂ s₃ : St} (h : Same s₁ s₂) (h' : Same s₂ s₃) : Same s₁ s₃ where
  localState := h'.localState.trans h.localState
  rch := h'.rch.trans h.rch
  tch := h'.tch.trans h.tch
  tchFlag := fun hf => h.tchFlag (h'.tchFlag hf)
  hr := h'.hr.trans h.hr
  header := h'.header.trans h.header
  buf := h'.buf.trans h.buf
  rx := h'.rx.trans h.rx
  expected := h'.expected.trans h.expected
  received := h'.received.trans h.received
  events := h.events.trans h'.events

theorem ite {s s₁ s₂ : St} {p : Prop} [Decidable p] (h₁ : p → Same s s₁) (h₂ : ¬p → Same s s₂) :
    Same s (if p then s₁ else s₂) := by
  split
  · next h => exact h₁ h
  · next h => exact h₂ h

end Same

/-- What holds of a step that is not a step of message reception or of the chunking
machines. -/
structure Still (s s' : St) : Prop where
  rch : (s'.rch.state = s.rch.state ∧
      (s'.rch.flags.msgReceived = true → s.rch.flags.msgReceived = true)) ∨
    (s'.rch.state = .waitForMessageFromProtocolLayer ∧ s'.rch.flags.msgReceived = false)
  tch : (s'.tch.state = s.tch.state ∧
      (s'.tch.flags.msgReceived = true → s.tch.flags.msgReceived = true)) ∨
    (s'.tch.state = .waitForMessageRequestFromPe ∧ s'.tch.flags.msgReceived = false ∧
      s'.rch.flags.msgReceived = false)
  header : s'.rxEmsg.header = s.rxEmsg.header
  buf : s'.rxEmsg.buf = s.rxEmsg.buf
  rx : s'.pdmsg.rxChkBuf = s.pdmsg.rxChkBuf
  expected : s'.pdmsg.chunkNumberExpected = s.pdmsg.chunkNumberExpected
  received : s'.pdmsg.numBytesReceived = s.pdmsg.numBytesReceived
  events : Quiet s s'

namespace Still

variable {s s' : St}

theorem rch_state (h : Still s s') :
    s'.rch.state = s.rch.state ∨ s'.rch.state = .waitForMessageFromProtocolLayer := by
  obtain ⟨hst, -⟩ | ⟨hst, -⟩ := h.rch
  · exact .inl hst
  · exact .inr hst

theorem tch_state (h : Still s s') :
    s'.tch.state = s.tch.state ∨ s'.tch.state = .waitForMessageRequestFromPe := by
  obtain ⟨hst, -⟩ | ⟨hst, -⟩ := h.tch
  · exact .inl hst
  · exact .inr hst

theorem rch_flag (h : Still s s') (hf : s'.rch.flags.msgReceived = true) :
    s'.rch.state = s.rch.state ∧ s.rch.flags.msgReceived = true := by
  obtain ⟨hst, hfl⟩ | ⟨-, hfl⟩ := h.rch
  · exact ⟨hst, hfl hf⟩
  · simp [hf] at hfl

theorem tch_flag (h : Still s s') (hf : s'.tch.flags.msgReceived = true) :
    s.tch.flags.msgReceived = true := by
  obtain ⟨-, hfl⟩ | ⟨-, hfl, -⟩ := h.tch
  · exact hfl hf
  · simp [hf] at hfl

theorem rch_flag_false (h : Still s s') (hf : s.rch.flags.msgReceived = false) :
    s'.rch.flags.msgReceived = false := by
  apply eq_false_of_ne_true
  intro hf'
  simp [(h.rch_flag hf').2] at hf

theorem tch_flag_false (h : Still s s') (hf : s.tch.flags.msgReceived = false) :
    s'.tch.flags.msgReceived = false := by
  apply eq_false_of_ne_true
  intro hf'
  simp [h.tch_flag hf'] at hf

/-- A message that is on its way to chunked Rx finds chunked Tx where it was. -/
theorem tch_state_of_flag (h : Still s s') (hf : s'.rch.flags.msgReceived = true) :
    s'.tch.state = s.tch.state := by
  obtain ⟨hst, -⟩ | ⟨-, -, hfl⟩ := h.tch
  · exact hst
  · simp [hf] at hfl

theorem trans {s₁ s₂ s₃ : St} (h : Still s₁ s₂) (h' : Still s₂ s₃) : Still s₁ s₃ where
  rch := by
    obtain ⟨hst', hfl'⟩ | hw' := h'.rch
    · obtain ⟨hst, hfl⟩ | ⟨hst, hfl⟩ := h.rch
      · exact .inl ⟨hst'.trans hst, fun hf => hfl (hfl' hf)⟩
      · exact .inr ⟨hst'.trans hst, h'.rch_flag_false hfl⟩
    · exact .inr hw'
  tch := by
    obtain ⟨hst', hfl'⟩ | hw' := h'.tch
    · obtain ⟨hst, hfl⟩ | ⟨hst, hfl, hrf⟩ := h.tch
      · exact .inl ⟨hst'.trans hst, fun hf => hfl (hfl' hf)⟩
      · exact .inr ⟨hst'.trans hst, h'.tch_flag_false hfl, h'.rch_flag_false hrf⟩
    · exact .inr hw'
  header := h'.header.trans h.header
  buf := h'.buf.trans h.buf
  rx := h'.rx.trans h.rx
  expected := h'.expected.trans h.expected
  received := h'.received.trans h.received
  events := h.events.trans h'.events

end Still

theorem Same.still {s s' : St} (h : Same s s') : Still s s' where
  rch := .inl ⟨by rw [h.rch], by rw [h.rch]; exact id⟩
  tch := .inl ⟨h.tch, h.tchFlag⟩
  header := h.header
  buf := h.buf
  rx := h.rx
  expected := h.expected
  received := h.received
  events := h.events

/-- A step that is still, and keeps `HrClean`. -/
structure Calm (s s' : St) : Prop extends Still s s' where
  clean : HrClean s → HrClean s'

theorem Same.calm {s s' : St} (h : Same s s') : Calm s s' where
  toStill := h.still
  clean := by
    intro hs
    refine ⟨?_, ?_⟩
    · rw [h.hr]
      exact hs.idle
    · rw [h.hr, h.rch]
      intro hb
      exact ⟨(hs.busy hb).1, h.still.tch_flag_false (hs.busy hb).2⟩

namespace Calm

theorem refl (s : St) : Calm s s := (Same.refl s).calm

theorem trans {s₁ s₂ s₃ : St} (h : Calm s₁ s₂) (h' : Calm s₂ s₃) : Calm s₁ s₃ where
  toStill := h.toStill.trans h'.toStill
  clean := fun hc => h'.clean (h.clean hc)

theorem ite {s s₁ s₂ : St} {p : Prop} [Decidable p] (h₁ : p → Calm s s₁) (h₂ : ¬p → Calm s s₂) :
    Calm s (if p then s₁ else s₂) := by
  split
  · next h => exact h₁ h
  · next h => exact h₂ h

end Calm

theorem withPrlHr_still (s : St) (hr : ProtocolHardReset) : Still s { s with prlHr := hr } where
  rch := .inl ⟨rfl, id⟩
  tch := .inl ⟨rfl, id⟩
  header := rfl
  buf := rfl
  rx := rfl
  expected := rfl
  received := rfl
  events := Quiet.of_eq rfl

theorem withLocalState_calm (s : St) (l : SmLocalState) : Calm s { s with localState := l } where
  rch := .inl ⟨rfl, id⟩
  tch := .inl ⟨rfl, id⟩
  header := rfl
  buf := rfl
  rx := rfl
  expected := rfl
  received := rfl
  events := Quiet.of_eq rfl
  clean := fun h => ⟨h.idle, h.busy⟩

/-! ## Small steps -/

section

variable (s : St)

theorem emit_same (ev : Event) (h : ev.Inert) : Same s (emit ev s) :=
  .quiet rfl (quiet_emit ev h s)

theorem pdTimerEnable_same (t : PrTimer) : Same s (pdTimerEnable t s) := .silent rfl rfl

theorem pdTimerDisable_same (t : PrTimer) : Same s (pdTimerDisable t s) := .silent rfl rfl

theorem setPrlTx_same (f : PrlFlags → PrlFlags) : Same s (setPrlTx f s) := .silent rfl rfl

theorem setPdmsg_same (f : PrlFlags → PrlFlags) : Same s (setPdmsg f s) := .silent rfl rfl

theorem prlResetMsgIds_same (type : SopStar) : Same s (prlResetMsgIds type s) :=
  .quiet rfl ⟨[.resetMsgIds type], rfl, by simp [Event.Inert]⟩

theorem incrementMsgidCounter_same : Same s (incrementMsgidCounter s) := by
  unfold incrementMsgidCounter
  split
  · next t _ => exact .quiet rfl ⟨[.incrementMsgid t], rfl, by simp [Event.Inert]⟩
  · exact .refl s

theorem tcpmTransmit_same (header : BitVec 16) : Same s (tcpmTransmit header s) :=
  emit_same s _ trivial

theorem prlTxConstructMessage_same (e : Env) : Same s (prlTxConstructMessage e s) := by
  refine Same.trans ?_ (tcpmTransmit_same _ _)
  exact .silent rfl rfl

theorem rxChkBuf_blit (p : PdMessage) {t n : Nat} (src : Nat → UInt8)
    (h : t + n ≤ CHK_BUF_SIZE_BYTES) (i : Nat) :
    blit p.chkBuf t src n (CHK_BUF_SIZE_BYTES + i) = p.rxChkBuf i := by
  rw [blit_apply_of_notMem (by omega)]
  rfl

theorem prlCopyMsgToBuffer_same : Same s (prlCopyMsgToBuffer s) := by
  unfold prlCopyMsgToBuffer
  apply Same.ite
  · intro _
    exact .silent rfl rfl
  · intro _
    refine ⟨rfl, rfl, rfl, id, rfl, rfl, rfl, ?_, rfl, rfl, .of_eq rfl⟩
    funext i
    show blit _ 0 s.txEmsg.buf _ (CHK_BUF_SIZE_BYTES + i) = _
    rw [blit_apply_of_notMem (by omega)]
    exact rxChkBuf_blit s.pdmsg _ (by omega) i

end

/-! ## Changes of state -/

theorem prlTxExit_same (s : St) : Same s (prlTxExit s) := by
  unfold prlTxExit
  split
  · exact pdTimerDisable_same s _
  · exact pdTimerDisable_same s _
  · exact .refl s

theorem prlTxGoto_same {s : St} {new : PrlTxState} {entry : St → St}
    (h : ∀ t, Same t (entry t)) : Same s (prlTxGoto new entry s) := by
  apply Same.ite
  · intro _
    exact .refl s
  · intro _
    have hput : Same (prlTxExit s)
        { prlTxExit s with prlTx := { (prlTxExit s).prlTx with state := new } } := .silent rfl rfl
    exact ((prlTxExit_same s).trans hput).trans (h _)

theorem prlTxWaitForMessageRequestEntry_same (s : St) :
    Same s (prlTxWaitForMessageRequestEntry s) := .silent rfl rfl

theorem toPrlTxWait_same (s : St) :
    Same s (prlTxGoto .waitForMessageRequest prlTxWaitForMessageRequestEntry s) :=
  prlTxGoto_same prlTxWaitForMessageRequestEntry_same

theorem prlTxPhyLayerResetEntry_same (e : Env) (s : St) : Same s (prlTxPhyLayerResetEntry e s) :=
  (emit_same s (.setRxEnable e.pdIsConnected) trivial).trans (toPrlTxWait_same _)

theorem toPrlTxPhyLayerReset_same (e : Env) (s : St) : Same s (toPrlTxPhyLayerReset e s) :=
  prlTxGoto_same (prlTxPhyLayerResetEntry_same e)

theorem rchExit_same (s : St) : Same s (rchExit s) := by
  unfold rchExit
  split
  · exact pdTimerDisable_same s _
  · exact .refl s

theorem toRchWait_calm (s : St) : Calm s (toRchWait s) := by
  apply Calm.ite
  · intro _
    exact .refl s
  · intro _
    refine (rchExit_same s).calm.trans ?_
    exact
      { rch := .inr ⟨rfl, rfl⟩
        tch := .inl ⟨rfl, id⟩
        header := rfl
        buf := rfl
        rx := rfl
        expected := rfl
        received := rfl
        events := Quiet.of_eq rfl
        clean := fun h => ⟨h.idle, fun hb => ⟨rfl, (h.busy hb).2⟩⟩ }

theorem tchExit_same (s : St) : Same s (tchExit s) := by
  unfold tchExit
  split
  · exact pdTimerDisable_same s _
  · exact .refl s

theorem toTchWait_calm {s : St} (hr : s.rch.flags.msgReceived = false)
    (ht : s.tch.flags.msgReceived = false) : Calm s (toTchWait s) := by
  apply Calm.ite
  · intro _
    exact .refl s
  · intro _
    have hexit := (tchExit_same s).calm
    refine hexit.trans ?_
    exact
      { rch := .inl ⟨rfl, id⟩
        tch := .inr ⟨rfl, hexit.tch_flag_false ht, hexit.rch_flag_false hr⟩
        header := rfl
        buf := rfl
        rx := rfl
        expected := rfl
        received := rfl
        events := Quiet.of_eq rfl
        clean := fun h => ⟨h.idle, h.busy⟩ }

/-! ## Hard reset and the calls -/

theorem prlHrExit_calm (e : Env) {s : St}
    (hs : s.prlHr.state ≠ .waitForRequest →
      s.rch.flags.msgReceived = false ∧ s.tch.flags.msgReceived = false) :
    Calm s (prlHrExit e s) := by
  unfold prlHrExit
  split
  · exact (pdTimerDisable_same s _).calm
  · next hst =>
    obtain ⟨hr, ht⟩ := hs (by rw [hst]; decide)
    have h := (toPrlTxPhyLayerReset_same e s).calm.trans (toRchWait_calm _)
    exact h.trans (toTchWait_calm (h.rch_flag_false hr) (h.tch_flag_false ht))
  · exact .refl s

theorem prlHrGoto_calm (e : Env) {s : St} {new : PrlHrState} {entry : St → St}
    (hnew : new ≠ .waitForRequest) (hs : HrClean s) (hbusy : s.prlHr.state ≠ .waitForRequest)
    (h : ∀ t, Calm t (entry t)) : Calm s (prlHrGoto e new entry s) := by
  apply Calm.ite
  · intro _
    exact .refl s
  · intro _
    have hexit := prlHrExit_calm e hs.busy
    obtain ⟨hr, ht⟩ := hs.busy hbusy
    have hput : Calm (prlHrExit e s)
        { prlHrExit e s with prlHr := { (prlHrExit e s).prlHr with state := new } } :=
      { toStill := withPrlHr_still _ _
        clean := fun _ => ⟨fun hw => absurd hw hnew,
          fun _ => ⟨hexit.rch_flag_false hr, hexit.tch_flag_false ht⟩⟩ }
    exact (hexit.trans hput).trans (h _)

theorem prlHrClear_still (s : St) : Still s (prlHrClear s) where
  rch := .inl ⟨rfl, fun h => nomatch h⟩
  tch := .inl ⟨rfl, fun h => nomatch h⟩
  header := rfl
  buf := rfl
  rx := rfl
  expected := rfl
  received := rfl
  events := by
    refine ⟨SopStar.all.map .resetMsgIds ++ [.setRxEnable false, .notifyHardReset], ?_, ?_⟩
    · simp [prlHrClear, prlResetAllMsgIds, prlSetDefaultPdRevision, emit, setPdmsg, setRch, setTch]
    · simp [SopStar.all, Event.Inert]

theorem prlHrResetLayerEntry_prlHr (s : St) : (prlHrResetLayerEntry s).prlHr = s.prlHr :=
  (toPrlTxWait_same _).hr

theorem toPrlHrResetLayer_state (e : Env) (s : St) :
    (toPrlHrResetLayer e s).prlHr.state = .resetLayer := by
  unfold toPrlHrResetLayer prlHrGoto
  split
  · assumption
  · dsimp only
    rw [prlHrResetLayerEntry_prlHr]

/-- A request for a hard reset. That it is noted breaks `HrClean` for a moment. -/
theorem toPrlHrResetLayer_calm (e : Env) (f : PrlFlags → PrlFlags) {s : St} (hs : HrClean s) :
    Calm s (toPrlHrResetLayer e (setPrlHr f s)) := by
  unfold toPrlHrResetLayer prlHrGoto
  split
  · next hst =>
    have hbusy : s.prlHr.state ≠ .waitForRequest := by
      rw [show s.prlHr.state = .resetLayer from hst]
      decide
    exact
      { toStill := withPrlHr_still _ _
        clean := fun _ => ⟨fun hw => absurd hw hbusy, fun _ => hs.busy hbusy⟩ }
  · dsimp only
    have hset : Still s (setPrlHr f s) := withPrlHr_still _ _
    have hexit := (prlHrExit_calm e (s := setPrlHr f s) hs.busy).toStill
    set u : St := { prlHrExit e (setPrlHr f s) with
      prlHr := { (prlHrExit e (setPrlHr f s)).prlHr with state := .resetLayer } } with hu
    have hput : Still (prlHrExit e (setPrlHr f s)) u := withPrlHr_still _ _
    have hwait := (toPrlTxWait_same (prlHrClear u)).still
    refine ⟨(((hset.trans hexit).trans hput).trans (prlHrClear_still u)).trans hwait,
      fun _ => ⟨?_, ?_⟩⟩
    · intro hw
      rw [prlHrResetLayerEntry_prlHr] at hw
      cases hw
    · intro _
      exact ⟨hwait.rch_flag_false rfl, hwait.tch_flag_false rfl⟩

theorem prlCall_calm (e : Env) (c : PrlCall) {s : St} (hs : HrClean s) : Calm s (prlCall e s c) := by
  cases c with
  | pdTransmitComplete status => exact Same.calm (.silent rfl rfl)
  | pdExecuteHardReset =>
    apply Calm.ite
    · intro _
      exact toPrlHrResetLayer_calm e _ hs
    · intro _
      exact .refl s
  | prlExecuteHardReset =>
    apply Calm.ite
    · intro _
      exact toPrlHrResetLayer_calm e _ hs
    · intro _
      exact .refl s
  | prlSetDataRoleCheck enable =>
    exact
      { rch := .inl ⟨rfl, id⟩
        tch := .inl ⟨rfl, id⟩
        header := rfl
        buf := rfl
        rx := rfl
        expected := rfl
        received := rfl
        events := Quiet.of_eq rfl
        clean := fun h => ⟨h.idle, h.busy⟩ }
  | prlHardResetComplete =>
    exact { toStill := withPrlHr_still _ _, clean := fun h => ⟨h.idle, h.busy⟩ }
  | writeTxEmsg len buf => exact Same.calm (.silent rfl rfl)
  | prlSendCtrlMsg type msg => exact Same.calm (.silent rfl rfl)
  | prlSendDataMsg type msg => exact Same.calm (.silent rfl rfl)
  | prlSendExtDataMsg type msg => exact Same.calm (.silent rfl rfl)
  | prlSetDefaultPdRevision => exact Same.calm (.silent rfl rfl)
  | prlResetSoft => exact withLocalState_calm s _
  | prlSetRev type rev => exact Same.calm (.silent rfl rfl)
  | prlResetMsgIds type => exact (prlResetMsgIds_same s type).calm

theorem foldl_prlCall_calm (e : Env) (calls : List PrlCall) {s : St} (hs : HrClean s) :
    Calm s (calls.foldl (prlCall e) s) := by
  induction calls generalizing s with
  | nil => exact .refl s
  | cons c calls ih =>
    have h := prlCall_calm e c hs
    exact h.trans (ih (h.clean hs))

theorem peCall_calm (e : Env) (call : PeCall) {s : St} (hs : HrClean s) :
    Calm s (peCall e call s) := by
  have h := (emit_same s (.pe call) trivial).calm
  exact h.trans (foldl_prlCall_calm e _ (h.clean hs))

/-- The policy engine makes no calls. -/
def Env.Silent (e : Env) : Prop := ∀ call, e.react call = []

theorem peCall_same {e : Env} (h : e.Silent) (call : PeCall) (s : St) : Same s (peCall e call s) := by
  unfold peCall
  rw [h call]
  exact emit_same s _ trivial

theorem peMessageReceived_same (s : St) : Same s (peMessageReceived s) := emit_same s _ trivial

theorem prlCall_busy (e : Env) (c : PrlCall) {s : St} (h : s.prlHr.state ≠ .waitForRequest) :
    (prlCall e s c).prlHr.state ≠ .waitForRequest := by
  have hreset : ∀ f, (if prlIsRunning s = true then toPrlHrResetLayer e (setPrlHr f s)
      else s).prlHr.state ≠ .waitForRequest := by
    intro f
    split
    · rw [toPrlHrResetLayer_state]
      decide
    · exact h
  cases c with
  | pdExecuteHardReset => exact hreset _
  | prlExecuteHardReset => exact hreset _
  | _ => exact h

theorem peCall_busy (e : Env) (call : PeCall) {s : St} (h : s.prlHr.state ≠ .waitForRequest) :
    (peCall e call s).prlHr.state ≠ .waitForRequest := by
  have hfold : ∀ (calls : List PrlCall) (t : St), t.prlHr.state ≠ .waitForRequest →
      (calls.foldl (prlCall e) t).prlHr.state ≠ .waitForRequest := by
    intro calls
    induction calls with
    | nil => exact fun t ht => ht
    | cons c calls ih => exact fun t ht => ih _ (prlCall_busy e c ht)
  exact hfold _ _ h

/-! ## Message transmission -/

theorem prlTxDiscardMessageEntry_same (e : Env) (s : St) :
    Same s (prlTxDiscardMessageEntry e s) := by
  refine Same.trans (Same.ite ?_ ?_) (toPrlTxPhyLayerReset_same e _)
  · intro _
    have hset := setPrlTx_same s fun f => { f with msgXmit := false }
    refine Same.trans (Same.ite ?_ ?_) (emit_same _ (.pe .reportDiscard) trivial)
    · intro _
      exact hset.trans (incrementMsgidCounter_same _)
    · intro _
      exact hset
  · intro _
    exact .refl s

theorem prlTxEntry_same (e : Env) (new : PrlTxState) (s : St) : Same s (prlTxEntry e new s) := by
  cases new with
  | phyLayerReset => exact prlTxPhyLayerResetEntry_same e s
  | waitForMessageRequest => exact prlTxWaitForMessageRequestEntry_same s
  | layerResetForTransmit =>
    simp only [prlTxEntry, prlTxLayerResetForTransmitEntry]
    split
    · exact prlResetMsgIds_same s _
    · exact .refl s
  | waitForPhyResponse => exact pdTimerEnable_same s _
  | srcSourceTx =>
    exact (emit_same s (.selectSrcCollisionRp false) trivial).trans (emit_same _ .updateCc trivial)
  | snkStartAms => exact .refl s
  | srcPending => exact pdTimerEnable_same s _
  | snkPending => exact .refl s
  | discardMessage => exact prlTxDiscardMessageEntry_same e s

theorem setStatePrlTx_same (e : Env) (new : PrlTxState) (s : St) :
    Same s (setStatePrlTx e new s) :=
  prlTxGoto_same (prlTxEntry_same e new)

theorem prlTxSendPending_same (e : Env) (s : St) : Same s (prlTxSendPending e s) := by
  have hset := setPrlTx_same s fun f => { f with msgXmit := false }
  apply Same.ite
  · intro _
    exact hset.trans (setStatePrlTx_same e _ _)
  · intro _
    exact (hset.trans (prlTxConstructMessage_same _ e)).trans (setStatePrlTx_same e _ _)

theorem prlTxWaitForMessageRequestRun_same (e : Env) (s : St) :
    Same s (prlTxWaitForMessageRequestRun e s) := by
  unfold prlTxWaitForMessageRequestRun
  set t := if e.peInLocalAms then s else _ with ht
  have hams : Same s t := by
    rw [ht]
    apply Same.ite
    · intro _
      exact .refl s
    · intro _
      refine Same.trans (Same.ite ?_ ?_) (setPrlTx_same _ _)
      · intro _
        exact (emit_same s (.selectSrcCollisionRp true) trivial).trans (emit_same _ .updateCc trivial)
      · intro _
        exact .refl s
  apply Same.ite
  · intro _
    apply Same.ite
    · intro _
      exact (hams.trans (setPrlTx_same _ _)).trans (setStatePrlTx_same e _ _)
    · intro _
      exact (hams.trans (setPrlTx_same _ _)).trans (setStatePrlTx_same e _ _)
  · intro _
    apply Same.ite
    · intro _
      exact hams.trans (prlTxSendPending_same e t)
    · intro _
      exact hams

theorem prlTxWaitForPhyResponseRun_same (e : Env) (s : St) :
    Same s (prlTxWaitForPhyResponseRun e s) := by
  apply Same.ite
  · intro _
    have h := (incrementMsgidCounter_same s).trans
      (setPdmsg_same _ fun f => { f with txComplete := true })
    exact h.trans (setStatePrlTx_same e _ _)
  · intro _
    apply Same.ite
    · intro _
      have h := (setPdmsg_same s fun f => { f with txError := true }).trans
        (incrementMsgidCounter_same _)
      exact h.trans (setStatePrlTx_same e _ _)
    · intro _
      exact .refl s

/-- Message transmission does not disturb message reception. -/
theorem prlTxRun_same (e : Env) (s : St) : Same s (prlTxRun e s) := by
  have hmove : ∀ (p : Prop) [Decidable p] (new : PrlTxState),
      Same s (if p then setStatePrlTx e new s else s) := fun p _ new =>
    Same.ite (fun _ => setStatePrlTx_same e new s) (fun _ => .refl s)
  have hsend : ∀ (p : Prop) [Decidable p], Same s (if p then prlTxSendPending e s else s) :=
    fun p _ => Same.ite (fun _ => prlTxSendPending_same e s) (fun _ => .refl s)
  unfold prlTxRun
  split
  · exact .refl s
  · exact prlTxWaitForMessageRequestRun_same e s
  · exact (prlTxConstructMessage_same s e).trans (setStatePrlTx_same e _ _)
  · exact prlTxWaitForPhyResponseRun_same e s
  · exact hmove _ _
  · exact hmove _ _
  · exact hsend _
  · exact hsend _
  · exact .refl s

/-! ## The run functions of hard reset -/

theorem prlHrSendMsgToPhy_same (s : St) : Same s (prlHrSendMsgToPhy s) := by
  refine Same.trans ?_ (tcpmTransmit_same _ _)
  exact .silent rfl rfl

theorem setStatePrlHr_calm (e : Env) {new : PrlHrState} {s t : St} (h : Calm s t) (hs : HrClean s)
    (hnew : new = .waitForPhyHardResetComplete ∨ new = .waitForPeHardResetComplete)
    (hbusy : t.prlHr.state ≠ .waitForRequest) : Calm s (setStatePrlHr e new t) := by
  refine h.trans (prlHrGoto_calm e ?_ (h.clean hs) hbusy ?_)
  · obtain rfl | rfl := hnew <;> decide
  · intro u
    obtain rfl | rfl := hnew
    · exact (pdTimerEnable_same u _).calm
    · exact .refl u

theorem prlHrToWait_calm (e : Env) {s : St} (hs : HrClean s) :
    Calm s (setStatePrlHr e .waitForRequest s) := by
  apply Calm.ite
  · intro _
    exact .refl s
  · intro _
    have hexit := prlHrExit_calm e hs.busy
    refine hexit.trans ?_
    exact
      { toStill := withPrlHr_still _ _
        clean := fun _ => ⟨fun _ => ⟨rfl, rfl⟩, fun hw => absurd rfl hw⟩ }

theorem prlHrRun_calm (e : Env) {s : St} (hs : HrClean s) : Calm s (prlHrRun e s) := by
  unfold prlHrRun
  split
  · next hst =>
    obtain ⟨hpe, hpart⟩ := hs.idle hst
    simp only [prlHrWaitForRequestRun, hpe, hpart]
    exact .refl s
  · next hst =>
    have hbusy : s.prlHr.state ≠ .waitForRequest := by
      rw [hst]
      decide
    apply Calm.ite
    · intro _
      exact setStatePrlHr_calm e (prlHrSendMsgToPhy_same s).calm hs (.inl rfl) hbusy
    · intro _
      exact setStatePrlHr_calm e (peCall_calm e _ hs) hs (.inr rfl) (peCall_busy e _ hbusy)
  · next hst =>
    have hbusy : s.prlHr.state ≠ .waitForRequest := by
      rw [hst]
      decide
    apply Calm.ite
    · intro _
      exact setStatePrlHr_calm e (emit_same s (.pe .hardResetSent) trivial).calm hs (.inr rfl) hbusy
    · intro _
      exact .refl s
  · apply Calm.ite
    · intro _
      exact prlHrToWait_calm e hs
    · intro _
      exact .refl s

end ChromeEc.UsbPrl
