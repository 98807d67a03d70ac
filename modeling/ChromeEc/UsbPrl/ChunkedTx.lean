import ChromeEc.UsbPrl.Frame

/- What chunked Tx does to the receiving side.

  Chunked Tx passes on to chunked Rx the messages that are not for itself, and its
  chunks are written past the end of `tx_chk_buf` into the message that was
  received. `TchStep` is what the invariant of the protocol layer needs of a step of
  it: a message that somebody is still to look at is not touched, and chunked Rx is
  idle while chunks are sent. A part of it is stated under a condition `q`, that the
  policy engine makes no calls of its own.

  What is proved: every run of chunked Tx is such a step (`tchRun_step`), provided
  that chunked Rx has looked at what it was given before. And what those bytes are: a
  chunk leaves `rx_chk_buf` as it is exactly if its first two bytes are zero, whatever is
  done to send it (`tchConstructChunk_rxChkBuf_iff`). -/
namespace ChromeEc.UsbPrl
open Lib

/-- A machine is still to look at the message. -/
def Pending (s : St) : Prop :=
  s.rch.state = .processingExtendedMessage ∨ s.rch.flags.msgReceived = true ∨
    s.tch.flags.msgReceived = true

def TchState.sendsChunks : TchState → Bool
  | .constructChunkedMessage => true
  | .sendingChunkedMessage => true
  | .waitChunkRequest => true
  | _ => false

/-- Chunked Rx waits, and there is no message for it. -/
def RchIdle (s : St) : Prop :=
  s.rch.state = .waitForMessageFromProtocolLayer ∧ s.rch.flags.msgReceived = false

theorem Calm.pending {s s' : St} (h : Calm s s') (hp : Pending s') : Pending s := by
  obtain hst | hf | hf := hp
  · obtain heq | heq := h.rch_state
    · exact .inl (heq ▸ hst)
    · rw [heq] at hst
      cases hst
  · exact .inr (.inl (h.rch_flag hf).2)
  · exact .inr (.inr (h.tch_flag hf))

theorem Calm.chunkedTx {s s' : St} (h : Calm s s') (hs : s.tch.state.sendsChunks = true → RchIdle s)
    (hst : s'.tch.state.sendsChunks = true) : RchIdle s' := by
  obtain heq | heq := h.tch_state
  · obtain ⟨hrch, hf⟩ := hs (heq ▸ hst)
    refine ⟨?_, h.rch_flag_false hf⟩
    obtain heq' | heq' := h.rch_state
    · exact heq'.trans hrch
    · exact heq'
  · rw [heq] at hst
    cases hst

/-! ## Steps -/

/-- Nothing was reset, and no message for chunked Rx was lost. -/
structure Undisturbed (s s' : St) : Prop where
  localState : s'.localState = s.localState
  rch : s'.rch.state = s.rch.state
  flag : s.rch.flags.msgReceived = true → s'.rch.flags.msgReceived = true
  header : s'.rxEmsg.header = s.rxEmsg.header
  hr : s'.prlHr = s.prlHr

theorem Undisturbed.trans {s₁ s₂ s₃ : St} (h : Undisturbed s₁ s₂) (h' : Undisturbed s₂ s₃) :
    Undisturbed s₁ s₃ where
  localState := h'.localState.trans h.localState
  rch := h'.rch.trans h.rch
  flag := fun hf => h'.flag (h.flag hf)
  header := h'.header.trans h.header
  hr := h'.hr.trans h.hr

theorem Same.undisturbed {s s' : St} (h : Same s s') : Undisturbed s s' where
  localState := h.localState
  rch := by rw [h.rch]
  flag := by
    rw [h.rch]
    exact id
  header := h.header
  hr := h.hr

/-- What one step of chunked Tx does to the receiving side. If it gives chunked Rx a
message then it is in `TCH_MESSAGE_RECEIVED`. -/
structure TchStep (q : Prop) (s s' : St) : Prop where
  clean : HrClean s'
  rch : s'.rch.state = s.rch.state ∨ s'.rch.state = .waitForMessageFromProtocolLayer
  header : s'.rxEmsg.header = s.rxEmsg.header
  buf : s'.rxEmsg.buf = s.rxEmsg.buf
  expected : s'.pdmsg.chunkNumberExpected = s.pdmsg.chunkNumberExpected
  received : s'.pdmsg.numBytesReceived = s.pdmsg.numBytesReceived
  events : Quiet s s'
  pending : Pending s' → Pending s ∧ s'.pdmsg.rxChkBuf = s.pdmsg.rxChkBuf
  chunkedTx : (s.tch.state.sendsChunks = true → RchIdle s) →
    s'.tch.state.sendsChunks = true → RchIdle s'
  raised : s'.rch.state = .waitForMessageFromProtocolLayer → s'.rch.flags.msgReceived = true →
    (s.rch.state = .waitForMessageFromProtocolLayer ∧ s.rch.flags.msgReceived = true) ∨
      s'.tch.state = .messageReceived
  undisturbed : q → Undisturbed s s'

/-- A step of chunked Tx that gives chunked Rx nothing. -/
structure TchMove (q : Prop) (s s' : St) : Prop extends TchStep q s s' where
  lowered : s'.rch.flags.msgReceived = true →
    s'.rch.state = s.rch.state ∧ s.rch.flags.msgReceived = true

section

variable {q : Prop}

theorem Calm.tchMove {s s' : St} (h : Calm s s') (hs : HrClean s) (hq : q → Undisturbed s s') :
    TchMove q s s' where
  clean := h.clean hs
  rch := h.rch_state
  header := h.header
  buf := h.buf
  expected := h.expected
  received := h.received
  events := h.events
  pending := fun hp => ⟨h.pending hp, h.rx⟩
  chunkedTx := h.chunkedTx
  raised := fun hst hf => .inl ⟨(h.rch_flag hf).1 ▸ hst, (h.rch_flag hf).2⟩
  undisturbed := hq
  lowered := h.rch_flag

theorem Same.tchMove {s s' : St} (h : Same s s') (hs : HrClean s) : TchMove q s s' :=
  h.calm.tchMove hs fun _ => h.undisturbed

theorem TchMove.trans {s₁ s₂ s₃ : St} (h : TchMove q s₁ s₂) (h' : TchStep q s₂ s₃) :
    TchStep q s₁ s₃ where
  clean := h'.clean
  rch := by
    obtain heq' | heq' := h'.rch
    · rw [heq']
      exact h.rch
    · exact .inr heq'
  header := h'.header.trans h.header
  buf := h'.buf.trans h.buf
  expected := h'.expected.trans h.expected
  received := h'.received.trans h.received
  events := h.events.trans h'.events
  pending := by
    intro hp
    obtain ⟨hp₂, hrx'⟩ := h'.pending hp
    obtain ⟨hp₁, hrx⟩ := h.pending hp₂
    exact ⟨hp₁, hrx'.trans hrx⟩
  chunkedTx := fun hs => h'.chunkedTx (h.chunkedTx hs)
  raised := by
    intro hst hf
    obtain ⟨hst₂, hf₂⟩ | hmr := h'.raised hst hf
    · obtain ⟨heq, hf₁⟩ := h.lowered hf₂
      exact .inl ⟨heq ▸ hst₂, hf₁⟩
    · exact .inr hmr
  undisturbed := fun hq => (h.undisturbed hq).trans (h'.undisturbed hq)

theorem TchStep.refl {s : St} (hs : HrClean s) : TchStep q s s :=
  ((Same.refl s).tchMove hs).toTchStep

theorem TchStep.ite {s s₁ s₂ : St} {p : Prop} [Decidable p] (h₁ : p → TchStep q s s₁)
    (h₂ : ¬p → TchStep q s s₂) : TchStep q s (if p then s₁ else s₂) := by
  split
  · next h => exact h₁ h
  · next h => exact h₂ h

theorem Same.step {s t u : St} (h : Same s t) (hs : HrClean s) (h' : HrClean t → TchStep q t u) :
    TchStep q s u := (h.tchMove hs).trans (h' (h.calm.clean hs))

/-! ## Changes of state -/

/-- Chunked Tx changes its state. While chunks are sent, chunked Rx has to be idle. -/
theorem put_move {s : St} (hs : HrClean s) {new : TchState}
    (hnew : (s.tch.state.sendsChunks = true → RchIdle s) → new.sendsChunks = true → RchIdle s) :
    TchMove q s { s with tch := { s.tch with state := new } } where
  clean := ⟨hs.idle, hs.busy⟩
  rch := .inl rfl
  header := rfl
  buf := rfl
  expected := rfl
  received := rfl
  events := Quiet.of_eq rfl
  pending := fun hp => ⟨hp, rfl⟩
  chunkedTx := fun h hst => hnew h hst
  raised := fun hst hf => .inl ⟨hst, hf⟩
  undisturbed := fun _ => ⟨rfl, rfl, id, rfl, rfl⟩
  lowered := fun hf => ⟨rfl, hf⟩

theorem Same.rchIdle {s s' : St} (h : Same s s') (hs : RchIdle s) : RchIdle s' := by
  unfold RchIdle
  rw [h.rch]
  exact hs

theorem tchGoto_step {s : St} (hs : HrClean s) {new : TchState} {entry : St → St}
    (hnew : (s.tch.state.sendsChunks = true → RchIdle s) → new.sendsChunks = true → RchIdle s)
    (h : ∀ t, HrClean t → t.rch = s.rch → TchStep q t (entry t)) :
    TchStep q s (tchGoto new entry s) := by
  unfold tchGoto
  split
  · exact .refl hs
  · have hexit := tchExit_same s
    have hput := put_move (q := q) (hexit.calm.clean hs) fun hst hn => by
      rw [hexit.tch] at hst
      refine hexit.rchIdle (hnew (fun hsend => ?_) hn)
      have := hst hsend
      unfold RchIdle at this
      rw [hexit.rch] at this
      exact this
    exact (hexit.tchMove hs).trans (hput.trans (h _ hput.clean hexit.rch))

theorem toTchWait_step {s : St} (hs : HrClean s) : TchStep q s (toTchWait s) := by
  apply tchGoto_step hs
  · exact nofun
  · intro t ht _
    have h : Same t (tchWaitForMessageRequestFromPeEntry t) := .silent rfl rfl
    exact (h.tchMove ht).toTchStep

theorem setTch_clear_same (s : St) :
    Same s (setTch (fun f => { f with msgReceived := false }) s) :=
  ⟨rfl, rfl, rfl, nofun, rfl, rfl, rfl, rfl, rfl, rfl, .of_eq rfl⟩

theorem messageReceived_step {s : St} (hs : HrClean s) (hf : s.tch.flags.msgReceived = true) :
    TchStep q s (tchGoto .messageReceived tchMessageReceivedEntry
      (setTch (fun f => { f with msgReceived := false }) s)) := by
  have hidle : s.prlHr.state = .waitForRequest := by
    by_contra hb
    rw [(hs.busy hb).2] at hf
    cases hf
  have hclear := setTch_clear_same s
  unfold tchGoto
  split
  · exact (hclear.tchMove hs).toTchStep
  · dsimp only
    set u := tchExit (setTch (fun f => { f with msgReceived := false }) s) with hu
    have hexit : Same s u := hclear.trans (tchExit_same _)
    -- All that happens after the flag was raised is that the discard is reported.
    set v := setRch (fun f => { f with msgReceived := true })
      { u with tch := { u.tch with state := .messageReceived } } with hv
    have hrest : Same v (tchMessageReceivedEntry { u with
        tch := { u.tch with state := .messageReceived } }) := by
      have hreport : Same v (if v.tch.flags.msgXmit then
          peReportDiscard (setTch (fun f => { f with msgXmit := false }) v) else v) := by
        apply Same.ite
        · intro _
          refine Same.trans ?_ (emit_same _ (.pe .reportDiscard) trivial)
          exact .silent rfl rfl
        · intro _
          exact .refl v
      exact hreport.trans (.silent rfl rfl)
    have hvidle : v.prlHr.state = .waitForRequest := by
      show u.prlHr.state = _
      rw [hexit.hr]
      exact hidle
    have hvclean : HrClean v :=
      ⟨fun _ => (hexit.calm.clean hs).idle hvidle, fun hb => absurd hvidle hb⟩
    have hrch := hrest.undisturbed.rch.trans hexit.undisturbed.rch
    exact
      { clean := hrest.calm.clean hvclean
        rch := .inl hrch
        header := hrest.header.trans hexit.header
        buf := hrest.buf.trans hexit.buf
        expected := hrest.expected.trans hexit.expected
        received := hrest.received.trans hexit.received
        events := hexit.events.trans ((Quiet.of_eq rfl).trans hrest.events)
        pending := fun _ => ⟨.inr (.inr hf), hrest.rx.trans hexit.rx⟩
        chunkedTx := fun _ => hrest.calm.chunkedTx nofun
        raised := fun _ _ => .inr hrest.tch
        undisturbed := fun _ =>
          { localState := hrest.localState.trans hexit.localState
            rch := hrch
            flag := fun _ => hrest.undisturbed.flag rfl
            header := hrest.header.trans hexit.header
            hr := hrest.hr.trans hexit.hr } }

theorem tchIfMessageReceived_step {s : St} (hs : HrClean s) {otherwise : St → St}
    (h : s.tch.flags.msgReceived = false → TchStep q s (otherwise s)) :
    TchStep q s (tchIfMessageReceived otherwise s) := by
  unfold tchIfMessageReceived
  split
  · next hf => exact messageReceived_step hs hf
  · next hf => exact h (eq_false_of_ne_true hf)

/-- A chunk is put together. Chunked Rx has to be idle: what the function writes past
the end of `tx_chk_buf` would be in the way of a message for it. -/
theorem tchConstructChunk_step {s : St} (hs : HrClean s) (hidle : RchIdle s)
    (hf : s.tch.flags.msgReceived = false) : TchStep q s (tchConstructChunk s) where
  clean := ⟨hs.idle, hs.busy⟩
  rch := .inl rfl
  header := rfl
  buf := rfl
  expected := rfl
  received := rfl
  events := Quiet.of_eq rfl
  pending := by
    rintro (hst | hfl | hfl)
    · exact absurd (hidle.1.symm.trans hst) (by decide)
    · exact absurd (hidle.2.symm.trans hfl) (by decide)
    · exact absurd (hf.symm.trans hfl) (by decide)
  chunkedTx := fun _ _ => ⟨hidle.1, hidle.2⟩
  raised := fun hst hfl => .inl ⟨hst, hfl⟩
  undisturbed := fun _ => ⟨rfl, rfl, id, rfl, rfl⟩

theorem construct_step {s : St} (hs : HrClean s) (hidle : RchIdle s) :
    TchStep q s (tchGoto .constructChunkedMessage tchConstructChunkedMessageEntry s) := by
  apply tchGoto_step hs
  · exact fun _ _ => hidle
  · intro t ht hrch
    apply tchIfMessageReceived_step ht
    apply tchConstructChunk_step ht
    unfold RchIdle
    rw [hrch]
    exact hidle

theorem messageSent_step {s : St} (hs : HrClean s) :
    TchStep q s (tchGoto .messageSent tchMessageSentEntry s) := by
  apply tchGoto_step hs
  · exact nofun
  · intro t ht _
    exact (emit_same t (.pe .messageSent) trivial).step ht fun hc =>
      tchIfMessageReceived_step hc fun _ => toTchWait_step hc

theorem setStateTch_plain_step (e : Env) {s : St} (hs : HrClean s) {new : TchState}
    (hnew : new.sendsChunks = true → s.tch.state.sendsChunks = true)
    (hplain : new = .waitForTransmissionComplete ∨ new = .sendingChunkedMessage ∨
      new = .waitChunkRequest) : TchStep q s (setStateTch e new s) := by
  apply tchGoto_step hs
  · exact fun h hn => h (hnew hn)
  · intro t ht _
    obtain rfl | rfl | rfl := hplain
    · exact .refl ht
    · exact .refl ht
    · have h : Same t (tchWaitChunkRequestEntry t) := .silent rfl rfl
      exact (h.tchMove ht).toTchStep

end

theorem tchFail_step (e : Env) (err : PeError) {s : St} (hs : HrClean s) :
    TchStep e.Silent s (tchFail e err s) := by
  have hset : Same s { s with tch := { s.tch with error := err } } := .silent rfl rfl
  refine hset.step hs fun hc => tchGoto_step hc nofun ?_
  intro t ht _
  have hcall := peCall_calm e (.reportError t.tch.error t.prlTx.lastXmitType) ht
  have hc := hcall.clean ht
  refine (hcall.tchMove ht ?_).trans (tchIfMessageReceived_step hc fun _ => toTchWait_step hc)
  intro hq
  exact (peCall_same hq _ t).undisturbed

/-! ## The run functions -/

theorem tchWaitForMessageRequestFromPeRun_step (e : Env) {s : St} (hs : HrClean s)
    (hidle : s.rch.state = .waitForMessageFromProtocolLayer → RchIdle s) :
    TchStep e.Silent s (tchWaitForMessageRequestFromPeRun e s) := by
  apply tchIfMessageReceived_step hs
  intro _
  have hset : Same s (setTch (fun f => { f with msgXmit := false }) s) := .silent rfl rfl
  apply TchStep.ite
  · intro _
    apply TchStep.ite
    · intro _
      exact hset.step hs (tchFail_step e _)
    · intro hrch
      have hrch : s.rch.state = .waitForMessageFromProtocolLayer := not_not.mp hrch
      apply TchStep.ite
      · intro _
        have h : Same s { setTch (fun f => { f with msgXmit := false }) s with
            pdmsg := { s.pdmsg with sendOffset := 0, chunkNumberToSend := 0 } } := .silent rfl rfl
        exact h.step hs fun hc => construct_step hc (hidle hrch)
      · intro _
        have h := (hset.trans (prlCopyMsgToBuffer_same _)).trans
          (setPrlTx_same _ fun f => { f with msgXmit := true })
        exact h.step hs fun hc => setStateTch_plain_step e hc nofun (.inl rfl)
  · intro _
    exact .refl hs

theorem tchWaitForTransmissionCompleteRun_step (e : Env) {s : St} (hs : HrClean s) :
    TchStep e.Silent s (tchWaitForTransmissionCompleteRun e s) := by
  apply TchStep.ite
  · intro _
    exact (setPdmsg_same s _).step hs messageSent_step
  · intro _
    apply TchStep.ite
    · intro _
      exact (setPdmsg_same s _).step hs (tchFail_step e _)
    · intro _
      apply TchStep.ite
      · intro hf
        exact messageReceived_step hs (Bool.and_eq_true_iff.mp hf).1
      · intro _
        exact .refl hs

theorem tchConstructChunkedMessageRun_step (e : Env) {s : St} (hs : HrClean s)
    (hst : s.tch.state.sendsChunks = true) :
    TchStep e.Silent s (tchConstructChunkedMessageRun e s) := by
  apply TchStep.ite
  · intro _
    exact toTchWait_step hs
  · intro _
    exact setStateTch_plain_step e hs (fun _ => hst) (.inr (.inl rfl))

theorem tchSendingChunkedMessageRun_step (e : Env) {s : St} (hs : HrClean s)
    (hst : s.tch.state.sendsChunks = true) :
    TchStep e.Silent s (tchSendingChunkedMessageRun e s) := by
  apply TchStep.ite
  · intro _
    exact tchFail_step e _ hs
  · intro _
    apply TchStep.ite
    · intro _
      exact (setPdmsg_same s _).step hs messageSent_step
    · intro _
      apply tchIfMessageReceived_step hs
      intro _
      apply TchStep.ite
      · intro _
        exact (setPdmsg_same s _).step hs fun hc =>
          setStateTch_plain_step e hc (fun _ => hst) (.inr (.inr rfl))
      · intro _
        exact .refl hs

theorem tchWaitChunkRequestRun_step (e : Env) {s : St} (hs : HrClean s) (hidle : RchIdle s) :
    TchStep e.Silent s (tchWaitChunkRequestRun e s) := by
  apply TchStep.ite
  · intro hf
    apply TchStep.ite
    · intro _
      apply TchStep.ite
      · intro _
        exact (setTch_clear_same s).step hs fun hc => construct_step hc hidle
      · intro _
        exact (setTch_clear_same s).step hs (tchFail_step e _)
    · intro _
      exact messageReceived_step hs hf
  · intro _
    apply TchStep.ite
    · intro _
      exact messageSent_step hs
    · intro _
      exact .refl hs

/-- A message that chunked Rx has not looked at is one that chunked Tx has just
passed on. -/
def RchServed (s : St) : Prop :=
  s.rch.state = .waitForMessageFromProtocolLayer → s.rch.flags.msgReceived = true →
    s.tch.state = .messageReceived

theorem tchRun_step (e : Env) {s : St} (hs : HrClean s)
    (htx : s.tch.state.sendsChunks = true → RchIdle s) (hserved : RchServed s) :
    TchStep e.Silent s (tchRun e s) := by
  unfold tchRun
  split
  · next hst =>
    refine tchWaitForMessageRequestFromPeRun_step e hs fun hrch => ⟨hrch, ?_⟩
    apply eq_false_of_ne_true
    intro hf
    have := hserved hrch hf
    rw [hst] at this
    cases this
  · exact tchWaitForTransmissionCompleteRun_step e hs
  · next hst => exact tchConstructChunkedMessageRun_step e hs (by rw [hst]; rfl)
  · next hst => exact tchSendingChunkedMessageRun_step e hs (by rw [hst]; rfl)
  · next hst => exact tchWaitChunkRequestRun_step e hs (htx (by rw [hst]; rfl))
  · exact toTchWait_step hs
  · exact .refl hs
  · exact .refl hs

/-! ## What building and sending a chunk changes in `pdmsg` -/

/-- The parts of `pdmsg` that are no business of a chunk: everything but `tx_chk_buf`, `data_objs` and
`send_offset`, which say what is in it, and the status flags. -/
structure SameElsewhere (p p' : PdMessage) : Prop where
  rx : p'.rxChkBuf = p.rxChkBuf
  rest : p' = { p with
    flags := p'.flags, dataObjs := p'.dataObjs, chkBuf := p'.chkBuf, sendOffset := p'.sendOffset }

inductive Sending where
  | txRun (e : Env)
  | transmitComplete (e : Env) (status : TcpcTransmitComplete)

def Sending.apply (s : St) : Sending → St
  | txRun e => prlTxRun e s
  | transmitComplete e status => prlCall e s (.pdTransmitComplete status)

section

variable {s : St}

def FlagsOnly (p p' : PdMessage) : Prop := p' = { p with flags := p'.flags }

theorem FlagsOnly.of_eq {p p' : PdMessage} (h : p' = p) : FlagsOnly p p' := by
  rw [FlagsOnly, h]

theorem FlagsOnly.trans {p₁ p₂ p₃ : PdMessage} (h : FlagsOnly p₁ p₂) (h' : FlagsOnly p₂ p₃) : FlagsOnly p₁ p₃ := by
  rw [FlagsOnly] at h h' ⊢
  rw [h', h]

theorem FlagsOnly.ite {q q' q'' : PdMessage} {p : Prop} [Decidable p] (h : FlagsOnly q q') (h' : FlagsOnly q q'') :
    FlagsOnly q (if p then q' else q'') := by
  split
  · exact h
  · exact h'

theorem prlTxGoto_pdmsg {new : PrlTxState} {entry : St → St} (h : ∀ t, (entry t).pdmsg = t.pdmsg) :
    (prlTxGoto new entry s).pdmsg = s.pdmsg := by
  unfold prlTxGoto
  split
  · rfl
  · rw [h]
    show (prlTxExit s).pdmsg = s.pdmsg
    unfold prlTxExit
    split <;> rfl

theorem prlTxPhyLayerResetEntry_pdmsg (e : Env) : (prlTxPhyLayerResetEntry e s).pdmsg = s.pdmsg :=
  prlTxGoto_pdmsg fun _ => rfl

theorem incrementMsgidCounter_pdmsg : (incrementMsgidCounter s).pdmsg = s.pdmsg := by
  unfold incrementMsgidCounter
  split <;> rfl

theorem prlTxDiscardMessageEntry_pdmsg (e : Env) : (prlTxDiscardMessageEntry e s).pdmsg = s.pdmsg := by
  unfold prlTxDiscardMessageEntry toPrlTxPhyLayerReset
  rw [prlTxGoto_pdmsg fun t => prlTxPhyLayerResetEntry_pdmsg e]
  split
  · show (if _ then _ else _ : St).pdmsg = _
    split
    · exact incrementMsgidCounter_pdmsg
    · rfl
  · rfl

theorem prlTxEntry_pdmsg (e : Env) (new : PrlTxState) (t : St) : (prlTxEntry e new t).pdmsg = t.pdmsg := by
  cases new with
  | phyLayerReset => exact prlTxPhyLayerResetEntry_pdmsg e
  | discardMessage => exact prlTxDiscardMessageEntry_pdmsg e
  | layerResetForTransmit =>
    simp only [prlTxEntry, prlTxLayerResetForTransmitEntry]
    split <;> rfl
  | _ => rfl

theorem setStatePrlTx_pdmsg (e : Env) (new : PrlTxState) (s : St) : (setStatePrlTx e new s).pdmsg = s.pdmsg :=
  prlTxGoto_pdmsg (prlTxEntry_pdmsg e new)

theorem prlTxConstructMessage_flagsOnly (e : Env) (s : St) : FlagsOnly s.pdmsg (prlTxConstructMessage e s).pdmsg := rfl

theorem prlTxSendPending_flagsOnly (e : Env) (s : St) : FlagsOnly s.pdmsg (prlTxSendPending e s).pdmsg := by
  simp only [prlTxSendPending, apply_ite St.pdmsg, setStatePrlTx_pdmsg]
  exact .ite (.of_eq rfl) (prlTxConstructMessage_flagsOnly e _)

theorem prlTxWaitForMessageRequestRun_flagsOnly (e : Env) (s : St) :
    FlagsOnly s.pdmsg (prlTxWaitForMessageRequestRun e s).pdmsg := by
  unfold prlTxWaitForMessageRequestRun
  set t := if e.peInLocalAms then s else _ with ht
  have hams : t.pdmsg = s.pdmsg := by
    rw [ht]
    split
    · rfl
    · show (if _ then _ else _ : St).pdmsg = _
      split <;> rfl
  simp only [apply_ite St.pdmsg, setStatePrlTx_pdmsg]
  rw [← hams]
  exact .ite (.ite (.of_eq rfl) (.of_eq rfl)) (.ite (prlTxSendPending_flagsOnly e t) (.of_eq rfl))

theorem prlTxRun_flagsOnly (e : Env) (s : St) : FlagsOnly s.pdmsg (prlTxRun e s).pdmsg := by
  have hmove : ∀ (p : Prop) [Decidable p] (new : PrlTxState),
      FlagsOnly s.pdmsg (if p then setStatePrlTx e new s else s).pdmsg := by
    intro p _ new
    rw [apply_ite St.pdmsg, setStatePrlTx_pdmsg]
    exact .ite (.of_eq rfl) (.of_eq rfl)
  have hsend : ∀ (p : Prop) [Decidable p], FlagsOnly s.pdmsg (if p then prlTxSendPending e s else s).pdmsg := by
    intro p _
    rw [apply_ite St.pdmsg]
    exact .ite (prlTxSendPending_flagsOnly e s) (.of_eq rfl)
  unfold prlTxRun
  split
  · exact .of_eq rfl
  · exact prlTxWaitForMessageRequestRun_flagsOnly e s
  · exact (prlTxConstructMessage_flagsOnly e s).trans (.of_eq (setStatePrlTx_pdmsg e _ _))
  · simp only [prlTxWaitForPhyResponseRun, apply_ite St.pdmsg, setStatePrlTx_pdmsg, incrementMsgidCounter_pdmsg]
    refine .ite ?_ (.ite rfl (.of_eq rfl))
    simp only [setPdmsg, incrementMsgidCounter_pdmsg]
    rfl
  · exact hmove _ _
  · exact hmove _ _
  · exact hsend _
  · exact hsend _
  · exact .of_eq rfl

theorem sending_flagsOnly (steps : List Sending) (s : St) : FlagsOnly s.pdmsg (steps.foldl Sending.apply s).pdmsg := by
  induction steps generalizing s with
  | nil => exact .of_eq rfl
  | cons step steps ih =>
    refine FlagsOnly.trans ?_ (ih _)
    cases step with
    | txRun e => exact prlTxRun_flagsOnly e s
    | transmitComplete e status => exact .of_eq rfl

theorem FlagsOnly.sameElsewhere_iff {p p₁ p₂ : PdMessage} (h : FlagsOnly p₁ p₂) :
    SameElsewhere p p₂ ↔ SameElsewhere p p₁ := by
  rw [FlagsOnly] at h
  rw [h]
  constructor
  · rintro ⟨hrx, hrest⟩
    exact ⟨hrx, congrArg (fun q => { q with flags := p₁.flags }) hrest⟩
  · rintro ⟨hrx, hrest⟩
    exact ⟨hrx, congrArg (fun q => { q with flags := p₂.flags }) hrest⟩

theorem tchConstructChunk_rxChkBuf (s : St) (i : Nat) :
    (tchConstructChunk s).pdmsg.rxChkBuf i = if i < 2 then 0 else s.pdmsg.rxChkBuf i := by
  have hlen : CHK_BUF_SIZE_BYTES = 28 := rfl
  have hchunk : PD_MAX_EXTENDED_MSG_CHUNK_LEN = 26 := rfl
  simp only [PdMessage.rxChkBuf, tchConstructChunk, setPrlTx]
  -- the data of the chunk stays inside
  rw [blit_apply_of_notMem (by omega)]
  split
  · rw [blit_apply_of_mem (by omega)]
  · rw [blit_apply_of_notMem (by omega), blit_apply_of_notMem (by omega)]

theorem tchConstructChunk_rxChkBuf_iff (s : St) :
    (tchConstructChunk s).pdmsg.rxChkBuf = s.pdmsg.rxChkBuf ↔ s.pdmsg.rxChkBuf 0 = 0 ∧ s.pdmsg.rxChkBuf 1 = 0 := by
  constructor
  · intro h
    rw [← h, tchConstructChunk_rxChkBuf, tchConstructChunk_rxChkBuf]
    exact ⟨rfl, rfl⟩
  · rintro ⟨hfirst, hsecond⟩
    funext i
    rw [tchConstructChunk_rxChkBuf]
    match i with
    | 0 => exact hfirst.symm
    | 1 => exact hsecond.symm
    | i + 2 => rfl

theorem tchConstructChunk_sameElsewhere_iff (s : St) :
    SameElsewhere s.pdmsg (tchConstructChunk s).pdmsg ↔ s.pdmsg.rxChkBuf 0 = 0 ∧ s.pdmsg.rxChkBuf 1 = 0 := by
  rw [← tchConstructChunk_rxChkBuf_iff]
  exact ⟨fun h => h.rx, fun h => ⟨h, rfl⟩⟩

theorem tchExit_pdmsg : (tchExit s).pdmsg = s.pdmsg := by
  unfold tchExit
  split <;> rfl

theorem tchMessageReceivedEntry_pdmsg : (tchMessageReceivedEntry s).pdmsg = { s.pdmsg with dataObjs := 0 } := by
  simp only [tchMessageReceivedEntry]
  split <;> rfl

theorem tchIfMessageReceived_sameElsewhere (hf : s.tch.flags.msgReceived = true) (otherwise : St → St) :
    SameElsewhere s.pdmsg (tchIfMessageReceived otherwise s).pdmsg := by
  unfold tchIfMessageReceived
  rw [if_pos hf]
  unfold tchGoto
  split
  · exact ⟨rfl, rfl⟩
  · simp only [tchMessageReceivedEntry_pdmsg, tchExit_pdmsg]
    exact ⟨rfl, rfl⟩

/-- Building a chunk and sending it, however that goes, leaves the rest of `pdmsg` as it is exactly if a
message has come in between, and nothing is built, or the two bytes behind `tx_chk_buf` are zero. -/
theorem chunk_keeps_rest_iff (s : St) (steps : List Sending) :
    SameElsewhere s.pdmsg (steps.foldl Sending.apply (tchConstructChunkedMessageEntry s)).pdmsg ↔
      s.tch.flags.msgReceived = true ∨ (s.pdmsg.rxChkBuf 0 = 0 ∧ s.pdmsg.rxChkBuf 1 = 0) := by
  rw [(sending_flagsOnly steps _).sameElsewhere_iff, tchConstructChunkedMessageEntry]
  cases hf : s.tch.flags.msgReceived with
  | true => exact iff_of_true (tchIfMessageReceived_sameElsewhere hf _) (.inl rfl)
  | false =>
    rw [tchIfMessageReceived, if_neg (Bool.eq_false_iff.mp hf), tchConstructChunk_sameElsewhere_iff]
    exact ⟨.inr, fun h => h.resolve_left Bool.false_ne_true⟩

/-- A message has been received and looked at, and an extended message of 30 bytes is to be sent. -/
def messageLeft : St :=
  { boot with
    txEmsg := { boot.txEmsg with len := 30 }
    pdmsg := { boot.pdmsg with
      chkBuf := blit boot.pdmsg.chkBuf CHK_BUF_SIZE_BYTES (fun _ => 0x2c) CHK_BUF_SIZE_BYTES } }

/-- Its first chunk clears the beginning of the message. -/
theorem messageLeft_cleared : ¬SameElsewhere messageLeft.pdmsg (tchConstructChunkedMessageEntry messageLeft).pdmsg := by
  intro h
  have hfirst := congrFun h.rx 0
  revert hfirst
  decide

end

end ChromeEc.UsbPrl
