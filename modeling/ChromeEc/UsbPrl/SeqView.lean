import ChromeEc.Lib.SeqNum
import ChromeEc.UsbPrl.Progress

/- Message transmission as a sender of numbered messages.

  Message transmission has one message under way at a time, like a sender in the sense
  of `Lib.SeqState`: the channels are the SOP* types, a message is under way while
  `PRL_TX_WAIT_FOR_PHY_RESPONSE` lasts, and it is settled where the counter is
  incremented. `seqOf` is that view of a port. `Counts q` says of a step that it keeps
  the counters in range and that, if `q` holds, it is a run of the sender.

  What is proved: a run of message transmission counts (`prlTxRun_counts`). When a
  message is discarded, it counts if the counter is incremented exactly for a message
  that the PHY has (`toPrlTxDiscardMessage_counts`). -/
namespace ChromeEc.UsbPrl
open Lib

/-! ## The view -/

def Event.seq : Event → Option (SeqEvent SopStar)
  | .transmit (.sopStar t) header _ => some (.sent t (PdHeader.id ⟨t, header⟩))
  | .incrementMsgid t => some (.consumed t)
  | .resetMsgIds t => some (.reset t)
  | _ => none

def TcpciMsgType.star : TcpciMsgType → Option SopStar
  | .sopStar t => some t
  | _ => none

def ProtocolLayerTx.flight (tx : ProtocolLayerTx) : Option SopStar :=
  if tx.state = .waitForPhyResponse then tx.lastXmitType.star else none

def seqOf (s : St) : SeqState SopStar where
  counter t := (s.prlTx.msgIdCounter t).toNat
  flight := s.prlTx.flight
  log := s.events.filterMap Event.seq

def IdsInRange (s : St) : Prop := ∀ t, (s.prlTx.msgIdCounter t).toNat < 2 ^ 3

/-- A step that keeps the counters in range, and is a run of the sender if `q`
holds. -/
structure Counts (q : Prop) (s s' : St) : Prop where
  range : IdsInRange s → IdsInRange s'
  path : q → IdsInRange s → Relation.ReflTransGen (SeqState.Step 8) (seqOf s) (seqOf s')

/-- A step that does not concern the message ids. -/
structure TxSame (s s' : St) : Prop where
  state : s'.prlTx.state = s.prlTx.state
  type : s'.prlTx.lastXmitType = s.prlTx.lastXmitType
  counter : s'.prlTx.msgIdCounter = s.prlTx.msgIdCounter
  log : s'.events.filterMap Event.seq = s.events.filterMap Event.seq

theorem TxSame.flight {s s' : St} (h : TxSame s s') : s'.prlTx.flight = s.prlTx.flight := by
  rw [ProtocolLayerTx.flight, h.state, h.type]
  rfl

theorem TxSame.seqOf {s s' : St} (h : TxSame s s') : seqOf s' = seqOf s := by
  rw [UsbPrl.seqOf, h.counter, h.flight, h.log]
  rfl

theorem TxSame.refl (s : St) : TxSame s s := ⟨rfl, rfl, rfl, rfl⟩

theorem TxSame.trans {s₁ s₂ s₃ : St} (h : TxSame s₁ s₂) (h' : TxSame s₂ s₃) : TxSame s₁ s₃ :=
  ⟨h'.state.trans h.state, h'.type.trans h.type, h'.counter.trans h.counter, h'.log.trans h.log⟩

theorem emit_txSame (ev : Event) (h : ev.seq = none) (s : St) : TxSame s (emit ev s) :=
  ⟨rfl, rfl, rfl, by simp [emit, h]⟩

section

variable {q : Prop}

theorem TxSame.counts {s s' : St} (h : TxSame s s') : Counts q s s' where
  range := by
    intro hr t
    rw [h.counter]
    exact hr t
  path := by
    intro _ _
    rw [h.seqOf]

theorem Counts.refl (s : St) : Counts q s s := (TxSame.refl s).counts

theorem Counts.mono {p : Prop} {s s' : St} (h : Counts q s s') (hq : p → q) : Counts p s s' where
  range := h.range
  path := fun hp hr => h.path (hq hp) hr

theorem Counts.trans {s₁ s₂ s₃ : St} (h : Counts q s₁ s₂) (h' : Counts q s₂ s₃) : Counts q s₁ s₃ where
  range := fun hr => h'.range (h.range hr)
  path := fun hq hr => (h.path hq hr).trans (h'.path hq (h.range hr))

theorem Counts.of_run {s s' : St}
    (h : IdsInRange s → Relation.ReflTransGen (SeqState.Step 8) (seqOf s) (seqOf s')) :
    Counts q s s' where
  range := fun hr => SeqState.run_range (by decide) (h hr) hr
  path := fun _ hr => h hr

theorem Counts.ite {s s₁ s₂ : St} {p : Prop} [Decidable p] (h₁ : p → Counts q s s₁)
    (h₂ : ¬p → Counts q s s₂) : Counts q s (if p then s₁ else s₂) := by
  split
  · next h => exact h₁ h
  · next h => exact h₂ h

/-! ## Resets -/

theorem seqOf_prlResetMsgIds (t : SopStar) (s : St) :
    seqOf (prlResetMsgIds t s) = (seqOf s).reset t := by
  have hcounter : (seqOf (prlResetMsgIds t s)).counter = ((seqOf s).reset t).counter := by
    funext u
    show (if u = t then (0 : BitVec 32) else s.prlTx.msgIdCounter u).toNat =
      if u = t then 0 else (s.prlTx.msgIdCounter u).toNat
    split
    · rfl
    · rfl
  have hlog : (seqOf (prlResetMsgIds t s)).log = ((seqOf s).reset t).log := by
    simp [seqOf, prlResetMsgIds, SeqState.reset, Event.seq]
  exact SeqState.mk.injEq .. ▸ ⟨hcounter, rfl, hlog⟩

theorem prlResetMsgIds_counts (t : SopStar) (s : St) : Counts q s (prlResetMsgIds t s) := by
  apply Counts.of_run
  intro _
  rw [seqOf_prlResetMsgIds]
  exact .single (.reset t)

def resetAll (a : SeqState SopStar) : SeqState SopStar := SopStar.all.foldl (fun a t => a.reset t) a

theorem seqOf_prlResetAllMsgIds (s : St) : seqOf (prlResetAllMsgIds s) = resetAll (seqOf s) := by
  have hcounter : (seqOf (prlResetAllMsgIds s)).counter = (resetAll (seqOf s)).counter := by
    funext t
    cases t <;> rfl
  have hlog : (seqOf (prlResetAllMsgIds s)).log = (resetAll (seqOf s)).log := by
    simp [seqOf, prlResetAllMsgIds, resetAll, SopStar.all, SeqState.reset, Event.seq]
  exact SeqState.mk.injEq .. ▸ ⟨hcounter, rfl, hlog⟩

theorem lastSent_resetAll (t : SopStar) (a : SeqState SopStar) : lastSent t (resetAll a).log = none := by
  cases t <;> simp [resetAll, SopStar.all, SeqState.reset, lastSent]

/-- After all counters were reset, the message under way may be given up. -/
theorem resetAll_drop_path (a : SeqState SopStar) :
    Relation.ReflTransGen (SeqState.Step 8) a (resetAll a).drop := by
  have hreset : Relation.ReflTransGen (SeqState.Step 8) a (resetAll a) :=
    .tail (.tail (.tail (.tail (.single (.reset _)) (.reset _)) (.reset _)) (.reset _)) (.reset _)
  cases hflight : a.flight with
  | none =>
    have hdrop : (resetAll a).drop = resetAll a := by
      rw [SeqState.drop, ← hflight]
      rfl
    rw [hdrop]
    exact hreset
  | some t => exact hreset.tail (.drop t hflight (lastSent_resetAll t a))

/-! ## The states of message transmission -/

theorem drop_of_none {a : SeqState SopStar} (h : a.flight = none) : a.drop = a := by
  rw [SeqState.drop, ← h]

theorem flight_eq_none {tx : ProtocolLayerTx} (h : tx.state ≠ .waitForPhyResponse) :
    tx.flight = none := if_neg h

theorem flight_eq {tx : ProtocolLayerTx} (h : tx.state = .waitForPhyResponse) :
    tx.flight = tx.lastXmitType.star := if_pos h

theorem star_of_ne {type : TcpciMsgType} (h : ∀ t, type ≠ .sopStar t) : type.star = none := by
  cases type with
  | sopStar t => exact absurd rfl (h t)
  | _ => rfl

theorem prlTxExit_eq (s : St) : ∃ timers, prlTxExit s = { s with timers := timers } := by
  unfold prlTxExit
  split
  · exact ⟨_, rfl⟩
  · exact ⟨_, rfl⟩
  · exact ⟨s.timers, rfl⟩

/-- Message transmission is about to enter a state where nothing is under way. -/
theorem seqOf_put {new : PrlTxState} (hnew : new ≠ .waitForPhyResponse) (s : St) :
    seqOf { prlTxExit s with prlTx := { (prlTxExit s).prlTx with state := new } } = (seqOf s).drop := by
  obtain ⟨timers, hexit⟩ := prlTxExit_eq s
  rw [hexit]
  refine SeqState.mk.injEq .. ▸ ⟨rfl, flight_eq_none hnew, rfl⟩

theorem seqOf_prlTxGoto {new : PrlTxState} {entry : St → St} (hnew : new ≠ .waitForPhyResponse)
    (hentry : ∀ t, t.prlTx.state = new → seqOf (entry t) = seqOf t) (s : St) :
    seqOf (prlTxGoto new entry s) = (seqOf s).drop := by
  unfold prlTxGoto
  split
  · next h =>
    have hnone : (seqOf s).flight = none := flight_eq_none (h ▸ hnew)
    rw [drop_of_none hnone]
  · dsimp only
    rw [hentry _ rfl, seqOf_put hnew]

theorem seqOf_toPrlTxWait (s : St) :
    seqOf (prlTxGoto .waitForMessageRequest prlTxWaitForMessageRequestEntry s) = (seqOf s).drop := by
  refine seqOf_prlTxGoto (show PrlTxState.waitForMessageRequest ≠ .waitForPhyResponse by decide) ?_ s
  intro t _
  exact TxSame.seqOf ⟨rfl, rfl, rfl, rfl⟩

theorem seqOf_toPrlTxPhyLayerReset (e : Env) (s : St) :
    seqOf (toPrlTxPhyLayerReset e s) = (seqOf s).drop := by
  refine seqOf_prlTxGoto (show PrlTxState.phyLayerReset ≠ .waitForPhyResponse by decide) ?_ s
  intro t ht
  have hemit := emit_txSame (.setRxEnable e.pdIsConnected) rfl t
  have hnone : (seqOf (emit (.setRxEnable e.pdIsConnected) t)).flight = none :=
    flight_eq_none (show t.prlTx.state ≠ .waitForPhyResponse by rw [ht]; decide)
  rw [prlTxPhyLayerResetEntry, seqOf_toPrlTxWait, drop_of_none hnone, hemit.seqOf]

/-! ## A message is settled -/

theorem seqOf_incrementMsgidCounter {s : St} {t : SopStar}
    (ht : s.prlTx.lastXmitType = .sopStar t) :
    (seqOf (incrementMsgidCounter s)).drop = (seqOf s).settle 8 t := by
  rw [incrementMsgidCounter, ht]
  have hnext : ((s.prlTx.msgIdCounter t + 1) &&& 7).toNat = ((s.prlTx.msgIdCounter t).toNat + 1) % 8 := by
    calc ((s.prlTx.msgIdCounter t + 1) &&& 7).toNat
        = (((s.prlTx.msgIdCounter t).toNat + 1) % 2 ^ 32) &&& (2 ^ 3 - 1) := by
          rw [BitVec.toNat_and, BitVec.toNat_add]
          rfl
      _ = ((s.prlTx.msgIdCounter t).toNat + 1) % 8 := by
          rw [Nat.and_two_pow_sub_one_eq_mod]
          omega
  refine SeqState.mk.injEq .. ▸ ⟨?_, rfl, ?_⟩
  · funext u
    show (if u = t then (s.prlTx.msgIdCounter t + 1) &&& 7 else s.prlTx.msgIdCounter u).toNat =
      if u = t then ((s.prlTx.msgIdCounter t).toNat + 1) % 8 else (s.prlTx.msgIdCounter u).toNat
    split
    · exact hnext
    · rfl
  · simp [seqOf, Event.seq]

theorem incrementMsgidCounter_of_type {s : St} (h : ∀ t, s.prlTx.lastXmitType ≠ .sopStar t) :
    incrementMsgidCounter s = s := by
  unfold incrementMsgidCounter
  split
  · next t ht => exact absurd ht (h t)
  · rfl

theorem settle_counts {s s' : St} (hst : s.prlTx.state = .waitForPhyResponse)
    (h : seqOf s' = (seqOf (incrementMsgidCounter s)).drop) : Counts q s s' := by
  apply Counts.of_run
  intro hr
  rw [h]
  by_cases htype : ∃ t, s.prlTx.lastXmitType = .sopStar t
  · obtain ⟨t, ht⟩ := htype
    rw [seqOf_incrementMsgidCounter ht]
    refine .single (.settle t ?_)
    show s.prlTx.flight = some t
    rw [flight_eq hst, ht]
    rfl
  · have htype' := not_exists.mp htype
    have hnone : s.prlTx.flight = none := (flight_eq hst).trans (star_of_ne htype')
    rw [incrementMsgidCounter_of_type htype', drop_of_none hnone]

theorem prlTxWaitForPhyResponseRun_counts (e : Env) {s : St}
    (hst : s.prlTx.state = .waitForPhyResponse) : Counts q s (prlTxWaitForPhyResponseRun e s) := by
  apply Counts.ite
  · intro _
    apply settle_counts hst
    exact (seqOf_toPrlTxWait _).trans (congrArg SeqState.drop (TxSame.seqOf ⟨rfl, rfl, rfl, rfl⟩))
  · intro _
    apply Counts.ite
    · intro _
      have hflag : TxSame s (setPdmsg (fun f => { f with txError := true }) s) := ⟨rfl, rfl, rfl, rfl⟩
      exact hflag.counts.trans (settle_counts hst (seqOf_toPrlTxWait _))
    · intro _
      exact .refl s

/-! ## A message is sent -/

theorem id_getSopStarHeader (e : Env) (t : SopStar) {s : St} (hr : IdsInRange s) :
    PdHeader.id ⟨t, (getSopStarHeader e t s).setWidth 16⟩ = (s.prlTx.msgIdCounter t).toNat := by
  apply id_pdHeader
  · split
    · cases e.powerRole <;> decide
    · cases e.cablePlug <;> decide
  · split
    · cases e.dataRole <;> decide
    · decide
  · exact hr t
  · cases s.pdmsg.rev t <;> decide

theorem seqOf_toWaitForPhyResponse (e : Env) {s : St} (hst : s.prlTx.state ≠ .waitForPhyResponse) :
    seqOf (setStatePrlTx e .waitForPhyResponse s) =
      { seqOf s with flight := s.prlTx.lastXmitType.star } := by
  obtain ⟨timers, hexit⟩ := prlTxExit_eq s
  unfold setStatePrlTx prlTxGoto
  rw [if_neg hst, hexit]
  rfl

theorem prlTxConstructMessage_counts (e : Env) {s : St} (hst : s.prlTx.state ≠ .waitForPhyResponse) :
    Counts q s (setStatePrlTx e .waitForPhyResponse (prlTxConstructMessage e s)) := by
  apply Counts.of_run
  intro hr
  have hnone : (seqOf s).flight = none := flight_eq_none hst
  have hto : seqOf (setStatePrlTx e .waitForPhyResponse (prlTxConstructMessage e s)) =
      { seqOf (prlTxConstructMessage e s) with flight := s.pdmsg.xmitType.star } :=
    seqOf_toWaitForPhyResponse e hst
  rw [hto]
  by_cases htype : ∃ t, s.pdmsg.xmitType = .sopStar t
  · obtain ⟨t, ht⟩ := htype
    have hsend : { seqOf (prlTxConstructMessage e s) with flight := s.pdmsg.xmitType.star } =
        (seqOf s).send t := by
      have hid := id_getSopStarHeader e t hr
      refine SeqState.mk.injEq .. ▸ ⟨rfl, ?_, ?_⟩
      · rw [ht]
        rfl
      · simp [seqOf, prlTxConstructMessage, tcpmTransmit, emit, setPdmsg, txHeader, ht, Event.seq]
        exact hid
    rw [hsend]
    exact .single (.send t hnone)
  · have htype' := not_exists.mp htype
    have hsame : { seqOf (prlTxConstructMessage e s) with flight := s.pdmsg.xmitType.star } =
        seqOf s := by
      refine SeqState.mk.injEq .. ▸ ⟨rfl, ?_, ?_⟩
      · exact (star_of_ne htype').trans hnone.symm
      · cases htype : s.pdmsg.xmitType with
        | sopStar t => exact absurd htype (htype' t)
        | _ =>
          simp [seqOf, prlTxConstructMessage, tcpmTransmit, emit, setPdmsg, htype, Event.seq]
    rw [hsame]

theorem prlTxGoto_counts {new : PrlTxState} {entry : St → St} {s : St}
    (hst : s.prlTx.state ≠ .waitForPhyResponse) (hnew : new ≠ .waitForPhyResponse)
    (hentry : ∀ t, Counts q t (entry t)) : Counts q s (prlTxGoto new entry s) := by
  apply Counts.ite
  · intro _
    exact .refl s
  · intro _
    refine Counts.trans ?_ (hentry _)
    apply Counts.of_run
    intro _
    rw [seqOf_put hnew, drop_of_none (flight_eq_none hst)]

theorem prlTxLayerResetForTransmitEntry_counts (s : St) :
    Counts q s (prlTxLayerResetForTransmitEntry s) := by
  unfold prlTxLayerResetForTransmitEntry
  split
  · exact prlResetMsgIds_counts _ s
  · exact .refl s

theorem prlTxSendPending_counts (e : Env) {s : St} (hst : s.prlTx.state ≠ .waitForPhyResponse) :
    Counts q s (prlTxSendPending e s) := by
  have hflag : TxSame s (setPrlTx (fun f => { f with msgXmit := false }) s) := ⟨rfl, rfl, rfl, rfl⟩
  refine hflag.counts.trans ?_
  apply Counts.ite
  · intro _
    exact prlTxGoto_counts hst (show PrlTxState.layerResetForTransmit ≠ .waitForPhyResponse by decide)
      prlTxLayerResetForTransmitEntry_counts
  · intro _
    exact prlTxConstructMessage_counts e hst

theorem sinkTxOk_txSame (s : St) :
    TxSame s (if s.prlTx.flags.sinkNg then emit .updateCc (emit (.selectSrcCollisionRp true) s) else s) := by
  split
  · exact (emit_txSame _ rfl s).trans (emit_txSame _ rfl _)
  · exact .refl s

theorem prlTxSrcSourceTxEntry_txSame (s : St) : TxSame s (prlTxSrcSourceTxEntry s) :=
  (emit_txSame _ rfl s).trans (emit_txSame _ rfl _)

theorem prlTxWaitForMessageRequestRun_counts (e : Env) {s : St}
    (hst : s.prlTx.state ≠ .waitForPhyResponse) : Counts q s (prlTxWaitForMessageRequestRun e s) := by
  -- The flags that are cleared outside of an AMS do not matter here.
  have hams : ∀ t, TxSame s t → Counts q s
      (if isSopRev30 t && e.peInLocalAms && !(t.prlTx.flags.sinkNg || t.prlTx.flags.waitSinkOk) then
        if e.powerRole = .source then
          setStatePrlTx e .srcSourceTx (setPrlTx (fun f => { f with sinkNg := true }) t)
        else
          setStatePrlTx e .snkStartAms (setPrlTx (fun f => { f with waitSinkOk := true }) t)
      else if t.prlTx.flags.msgXmit then prlTxSendPending e t
      else t) := by
    intro t ht
    have hst' : t.prlTx.state ≠ .waitForPhyResponse := ht.state ▸ hst
    refine ht.counts.trans ?_
    apply Counts.ite
    · intro _
      apply Counts.ite
      · intro _
        have hflag : TxSame t (setPrlTx (fun f => { f with sinkNg := true }) t) := ⟨rfl, rfl, rfl, rfl⟩
        exact hflag.counts.trans (prlTxGoto_counts hst'
          (show PrlTxState.srcSourceTx ≠ .waitForPhyResponse by decide)
          (fun u => (prlTxSrcSourceTxEntry_txSame u).counts))
      · intro _
        have hflag : TxSame t (setPrlTx (fun f => { f with waitSinkOk := true }) t) := ⟨rfl, rfl, rfl, rfl⟩
        exact hflag.counts.trans (prlTxGoto_counts hst'
          (show PrlTxState.snkStartAms ≠ .waitForPhyResponse by decide) .refl)
    · intro _
      apply Counts.ite
      · intro _
        exact prlTxSendPending_counts e hst'
      · intro _
        exact .refl t
  unfold prlTxWaitForMessageRequestRun
  apply hams
  split
  · exact .refl s
  · exact (sinkTxOk_txSame s).trans ⟨rfl, rfl, rfl, rfl⟩

theorem prlTxRun_counts (e : Env) (s : St) : Counts q s (prlTxRun e s) := by
  unfold prlTxRun
  split
  · exact .refl s
  · next hst => exact prlTxWaitForMessageRequestRun_counts e (by rw [hst]; decide)
  · next hst => exact prlTxConstructMessage_counts e (by rw [hst]; decide)
  · next hst => exact prlTxWaitForPhyResponseRun_counts e hst
  · next hst =>
    apply Counts.ite
    · intro _
      exact prlTxGoto_counts (by rw [hst]; decide)
        (show PrlTxState.srcPending ≠ .waitForPhyResponse by decide) (fun _ => TxSame.counts ⟨rfl, rfl, rfl, rfl⟩)
    · intro _
      exact .refl s
  · next hst =>
    apply Counts.ite
    · intro _
      exact prlTxGoto_counts (by rw [hst]; decide)
        (show PrlTxState.snkPending ≠ .waitForPhyResponse by decide) .refl
    · intro _
      exact .refl s
  · next hst =>
    apply Counts.ite
    · intro _
      exact prlTxSendPending_counts e (by rw [hst]; decide)
    · intro _
      exact .refl s
  · next hst =>
    apply Counts.ite
    · intro _
      exact prlTxSendPending_counts e (by rw [hst]; decide)
    · intro _
      exact .refl s
  · exact .refl s

/-! ## A message is discarded -/

end

/-- The counter is incremented when the message is discarded. -/
def ProtocolLayerTx.consumes (tx : ProtocolLayerTx) : Bool :=
  (tx.flags.msgXmit || tx.xmitStatus == .wait || tx.xmitStatus == .discarded) &&
    tx.xmitStatus != .unset

/-- The counter is incremented exactly if the PHY has the message. -/
def DiscardOk (tx : ProtocolLayerTx) : Prop :=
  tx.lastXmitType.star ≠ none → (tx.state = .waitForPhyResponse ↔ tx.consumes = true)

instance (tx : ProtocolLayerTx) : Decidable (DiscardOk tx) := inferInstanceAs (Decidable (_ → _))

theorem seqOf_prlTxDiscardMessageEntry (e : Env) (s : St) :
    seqOf (prlTxDiscardMessageEntry e s) =
      (seqOf (if s.prlTx.consumes then incrementMsgidCounter s else s)).drop := by
  have hflag : ∀ t : St,
      TxSame (incrementMsgidCounter t)
        (incrementMsgidCounter (setPrlTx (fun f => { f with msgXmit := false }) t)) := by
    intro t
    unfold incrementMsgidCounter
    simp only [setPrlTx]
    split
    · exact ⟨rfl, rfl, rfl, rfl⟩
    · exact ⟨rfl, rfl, rfl, rfl⟩
  unfold prlTxDiscardMessageEntry
  rw [seqOf_toPrlTxPhyLayerReset]
  apply congrArg SeqState.drop
  by_cases hpending : (s.prlTx.flags.msgXmit || s.prlTx.xmitStatus == .wait ||
      s.prlTx.xmitStatus == .discarded) = true
  · have hstatus :
        (setPrlTx (fun f => { f with msgXmit := false }) s).prlTx.xmitStatus = s.prlTx.xmitStatus := rfl
    simp only [ProtocolLayerTx.consumes, hpending, Bool.true_and, bne_iff_ne, if_true, hstatus]
    by_cases hunset : s.prlTx.xmitStatus = .unset
    · have hkeep : TxSame s (setPrlTx (fun f => { f with msgXmit := false }) s) := ⟨rfl, rfl, rfl, rfl⟩
      simp only [hunset, ne_eq, not_true_eq_false, if_false]
      exact (hkeep.trans (emit_txSame (.pe .reportDiscard) rfl _)).seqOf
    · simp only [ne_eq, hunset, not_false_eq_true, if_true]
      exact ((hflag s).trans (emit_txSame (.pe .reportDiscard) rfl _)).seqOf
  · simp [hpending, ProtocolLayerTx.consumes]

theorem incrementMsgidCounter_range {s : St} (hr : IdsInRange s) :
    IdsInRange (incrementMsgidCounter s) := by
  unfold incrementMsgidCounter
  split
  · intro u
    dsimp only
    split
    · rw [BitVec.toNat_and]
      exact Nat.lt_succ_of_le Nat.and_le_right
    · exact hr u
  · exact hr

theorem prlTxDiscardMessageEntry_counts (e : Env) {s u : St} (hseq : seqOf u = (seqOf s).drop)
    (htype : u.prlTx.lastXmitType = s.prlTx.lastXmitType)
    (hconsumes : u.prlTx.consumes = s.prlTx.consumes) :
    Counts (DiscardOk s.prlTx) s (prlTxDiscardMessageEntry e u) := by
  have hentry := seqOf_prlTxDiscardMessageEntry e u
  rw [hconsumes] at hentry
  have hrange : IdsInRange s → IdsInRange u := by
    intro hr t
    have hcounter : (seqOf u).counter t = (seqOf s).counter t := by rw [hseq]; rfl
    exact lt_of_eq_of_lt hcounter (hr t)
  refine ⟨?_, ?_⟩
  · intro hr t
    show (seqOf (prlTxDiscardMessageEntry e u)).counter t < 2 ^ 3
    rw [hentry]
    split
    · exact incrementMsgidCounter_range (hrange hr) t
    · exact hrange hr t
  · intro hok hr
    rw [hentry]
    by_cases hstar : ∃ t, s.prlTx.lastXmitType = .sopStar t
    · obtain ⟨t, ht⟩ := hstar
      have hiff := hok (by rw [ht]; exact nofun)
      by_cases hc : s.prlTx.consumes = true
      · have hflight : s.prlTx.flight = some t := by
          rw [flight_eq (hiff.mpr hc), ht]
          rfl
        rw [if_pos hc, seqOf_incrementMsgidCounter (htype.trans ht), hseq]
        exact .single (.settle t hflight)
      · have hst : s.prlTx.state ≠ .waitForPhyResponse := fun h => hc (hiff.mp h)
        have hnone : (seqOf s).flight = none := flight_eq_none hst
        rw [if_neg hc, hseq, drop_of_none hnone, drop_of_none hnone]
    · have hstar' := not_exists.mp hstar
      have hnone : (seqOf s).flight = none := by
        by_cases hst : s.prlTx.state = .waitForPhyResponse
        · exact (flight_eq hst).trans (star_of_ne hstar')
        · exact flight_eq_none hst
      rw [incrementMsgidCounter_of_type (htype ▸ hstar'), ite_self, hseq, drop_of_none hnone,
        drop_of_none hnone]

theorem toPrlTxDiscardMessage_counts (e : Env) (s : St) :
    Counts (DiscardOk s.prlTx) s (setStatePrlTx e .discardMessage s) := by
  apply Counts.ite
  · intro _
    exact .refl s
  · intro _
    have hseq := seqOf_put (show PrlTxState.discardMessage ≠ .waitForPhyResponse by decide) s
    obtain ⟨timers, hexit⟩ := prlTxExit_eq s
    rw [hexit] at hseq ⊢
    exact prlTxDiscardMessageEntry_counts e hseq rfl rfl

end ChromeEc.UsbPrl
