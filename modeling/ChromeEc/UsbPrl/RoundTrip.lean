import ChromeEc.UsbPrl.SeqView

/- A message goes in chunks from chunked Tx of one port to chunked Rx of another.

  In a round the sender sends the chunk that it has put together, the receiver
  processes it, and if it asks for another one the request goes back and the sender
  puts the next chunk together. What the chunking machines of both ports do is done
  by their run functions. Between them message transmission hands each message to the
  PHY, which sends as many data objects as the header counts and acknowledges it, and
  message reception of the other port takes it.

  The sender counts in offsets and the receiver in bytes and chunk numbers. The two
  meet in `chunkLen`: before round `k` the sender has put together the chunk of the
  bytes from `26 * k` on (`Sends`), and the receiver has the bytes up to there
  (`Receives`).

  What is proved: whatever the message, after as many rounds as it has chunks the
  receiver has passed up that message and nothing else, and has asked for each chunk
  but the first once and in order (`chunked_round_trip`). -/
namespace ChromeEc.UsbPrl
open Lib

/-! ## The link -/

/-- What message transmission does with a message that goes through. -/
def transmitted (e : Env) (s : St) : St :=
  setPdmsg (fun f => { f with txComplete := true })
    (incrementMsgidCounter
      (prlTxConstructMessage e (setPrlTx (fun f => { f with msgXmit := false }) s)))

/-- The message that goes to the PHY: as many data objects as the header counts. -/
def Event.message : Event → Option RxMessage
  | .transmit (.sopStar t) header data =>
    some
      { header := ⟨t, header⟩
        data := (data.take CHK_BUF_SIZE_BYTES).take (4 * PdHeader.cnt ⟨t, header⟩)
        data_le := Nat.le_trans (List.length_take_le' _ _) (List.length_take_le _ _) }
  | _ => none

def onWire (s : St) : Option RxMessage := (s.events.filterMap Event.message).getLast?

/-- Message reception took the message, for chunked Rx. -/
def toRch (m : RxMessage) (s : St) : St :=
  setRch (fun f => { f with msgReceived := true }) (takeMessage m s.cachedMessages s)

/-- Message reception took the message, for chunked Tx. -/
def toTch (m : RxMessage) (s : St) : St :=
  setTch (fun f => { f with msgReceived := true }) (takeMessage m s.cachedMessages s)

/-- Two ports, and the numbers of the chunks that were asked for. -/
structure Link where
  sender : St
  receiver : St
  requests : List Nat

/-- One chunk, and the request for the next one if there is one. -/
def round (e f : Env) (l : Link) : Link :=
  let s := transmitted e (tchRun e l.sender)
  match onWire s with
  | none => l
  | some m =>
    let s := tchRun e s
    let r := rchRun f (rchRun f (toRch m l.receiver))
    if r.rch.state = .requestingChunk then
      let r := transmitted f r
      match onWire r with
      | none => l
      | some q =>
        { sender := tchRun e (toTch q s)
          receiver := rchRun f r
          requests := l.requests ++ [pdExtHeaderChunkNum q.extHeader] }
    else { l with sender := s, receiver := r }

def rounds (e f : Nat → Env) (l : Link) : Nat → Link
  | 0 => l
  | k + 1 => round (e k) (f k) (rounds e f l k)

def messagesUp (log : List Event) : List (List UInt8) :=
  log.filterMap fun
    | .pe (.messageReceived _ bytes) => some bytes
    | _ => none

/-! ## A message on its way -/

theorem transmitted_eq (e : Env) {s : St} {t : SopStar} (ht : s.pdmsg.xmitType = .sopStar t)
    (hid : IdsInRange s) :
    ∃ tx, (∀ u, (tx.msgIdCounter u).toNat < 2 ^ 3) ∧
      transmitted e s = { s with
        prlTx := tx
        events := s.events ++ [.transmit (.sopStar t) ((getSopStarHeader e t s).setWidth 16)
          (window s.pdmsg.chkBuf 0 CHK_BUF_SIZE_BYTES)] ++ [.incrementMsgid t]
        pdmsg := { s.pdmsg with flags := { s.pdmsg.flags with txComplete := true } } } := by
  refine ⟨{ s.prlTx with
    flags := { s.prlTx.flags with msgXmit := false }
    lastXmitType := .sopStar t
    xmitStatus := .wait
    msgIdCounter := fun u =>
      if u = t then (s.prlTx.msgIdCounter t + 1) &&& 7 else s.prlTx.msgIdCounter u }, ?_, ?_⟩
  · intro u
    dsimp only
    split
    · rw [BitVec.toNat_and]
      exact Nat.lt_succ_of_le Nat.and_le_right
    · exact hid u
  · simp only [transmitted, incrementMsgidCounter, prlTxConstructMessage, tcpmTransmit, emit,
      setPdmsg, setPrlTx, txHeader, ht]
    rfl

theorem cnt_getSopStarHeader (e : Env) (t : SopStar) {s : St} (hid : IdsInRange s)
    (hobjs : s.pdmsg.dataObjs < 2 ^ 3) :
    PdHeader.cnt ⟨t, (getSopStarHeader e t s).setWidth 16⟩ = s.pdmsg.dataObjs := by
  apply cnt_pdHeader
  · split
    · cases e.powerRole <;> decide
    · cases e.cablePlug <;> decide
  · split
    · cases e.dataRole <;> decide
    · decide
  · exact hid t
  · cases s.pdmsg.rev t <;> decide
  · exact hobjs

theorem onWire_transmitted (e : Env) {s : St} {t : SopStar} (ht : s.pdmsg.xmitType = .sopStar t)
    (hid : IdsInRange s) (hext : s.pdmsg.ext = true) (hobjs : s.pdmsg.dataObjs < 2 ^ 3) :
    ∃ m, onWire (transmitted e s) = some m ∧ m.header.ext = true ∧
      ∀ i < 4 * s.pdmsg.dataObjs, m.payload i = s.pdmsg.chkBuf i := by
  obtain ⟨tx, -, heq⟩ := transmitted_eq e ht hid
  have hcnt := cnt_getSopStarHeader e t hid hobjs
  have hheader : PdHeader.ext ⟨t, (getSopStarHeader e t s).setWidth 16⟩ = true := by
    rw [getSopStarHeader, hext]
    exact ext_pdHeader ..
  rw [heq]
  simp only [onWire, List.filterMap_append, List.filterMap_cons, List.filterMap_nil, Event.message,
    List.append_nil, List.getLast?_concat]
  generalize (getSopStarHeader e t s).setWidth 16 = header at hcnt hheader ⊢
  refine ⟨_, rfl, hheader, ?_⟩
  intro i hi
  have hlt : i < CHK_BUF_SIZE_BYTES := by
    simp only [CHK_BUF_SIZE_BYTES]
    omega
  show (((window s.pdmsg.chkBuf 0 CHK_BUF_SIZE_BYTES).take CHK_BUF_SIZE_BYTES).take
    (4 * PdHeader.cnt ⟨t, header⟩)).getD i 0 = _
  rw [hcnt, List.getD_eq_getElem?_getD, List.getElem?_take, if_pos hi, List.getElem?_take,
    if_pos hlt, getElem?_window, if_pos hlt, Option.getD_some, Nat.zero_add]

theorem toRch_payload (m : RxMessage) (s : St) {i : Nat} (hi : i < CHK_BUF_SIZE_BYTES) :
    (takeMessage m s.cachedMessages s).pdmsg.rxChkBuf i = m.payload i := by
  show blit s.pdmsg.chkBuf CHK_BUF_SIZE_BYTES m.payload CHK_BUF_SIZE_BYTES
    (CHK_BUF_SIZE_BYTES + i) = m.payload i
  rw [blit_apply_of_mem (by omega), Nat.add_sub_cancel_left]

theorem takeMessage_exhdr (m : RxMessage) (s : St) :
    (takeMessage m s.cachedMessages s).pdmsg.exhdr = m.extHeader := by
  rw [PdMessage.exhdr, RxMessage.extHeader, toRch_payload m s (by decide),
    toRch_payload m s (by decide)]

/-! ## The sender -/

/-- The number of bytes in chunk `k` of a message. -/
def chunkLen (len k : Nat) : Nat := min (len - 26 * k) 26

/-- A port that was asked to send an extended message. -/
structure ReadyToSend (t : SopStar) (s : St) : Prop where
  tch : s.tch.state = .waitForMessageRequestFromPe
  rch : s.rch.state = .waitForMessageFromProtocolLayer
  request : s.tch.flags.msgXmit = true
  chunking : s.tch.flags.chunking = true
  noMessage : s.tch.flags.msgReceived = false
  noAbort : s.pdmsg.flags.abort = false
  noError : s.pdmsg.flags.txError = false
  ext : s.pdmsg.ext = true
  type : s.pdmsg.xmitType = .sopStar t
  rev : s.pdmsg.rev t = .rev30
  ids : IdsInRange s

/-- A port that sends a message in chunks, where chunk `k` is the next. -/
structure Sender (t : SopStar) (msg : ExtendedMsg) (k : Nat) (s : St) : Prop where
  noAbort : s.pdmsg.flags.abort = false
  noError : s.pdmsg.flags.txError = false
  emsg : s.txEmsg = msg
  ext : s.pdmsg.ext = true
  type : s.pdmsg.xmitType = .sopStar t
  number : s.pdmsg.chunkNumberToSend = k
  ids : IdsInRange s

/-- Chunk `k` has been put together. -/
structure Sends (t : SopStar) (msg : ExtendedMsg) (k : Nat) (s : St) : Prop
    extends Sender t msg k s where
  tch : s.tch.state = .constructChunkedMessage
  noMessage : s.tch.flags.msgReceived = false
  offset : s.pdmsg.sendOffset = 26 * k + chunkLen msg.len k
  objs : s.pdmsg.dataObjs = (chunkLen msg.len k + 2 + 3) / 4
  exhdr : le16 (s.pdmsg.chkBuf 0) (s.pdmsg.chkBuf 1) = (pdExtHeader k false msg.len).setWidth 16
  data : ∀ i < chunkLen msg.len k, s.pdmsg.chkBuf (2 + i) = msg.buf (26 * k + i)

structure WaitsForRequest (t : SopStar) (msg : ExtendedMsg) (k : Nat) (s : St) : Prop
    extends Sender t msg k s where
  tch : s.tch.state = .waitChunkRequest
  offset : s.pdmsg.sendOffset = 26 * k

theorem Sender.construct {t : SopStar} {msg : ExtendedMsg} {k : Nat} {s : St}
    (h : Sender t msg k s) (htch : s.tch.state = .constructChunkedMessage)
    (hf : s.tch.flags.msgReceived = false) (hoff : s.pdmsg.sendOffset = 26 * k)
    (hk : 26 * k < msg.len) (hlen : msg.len ≤ EXTENDED_BUFFER_SIZE) :
    Sends t msg k (tchConstructChunk s) := by
  simp only [EXTENDED_BUFFER_SIZE] at hlen
  have hnum : min ((2 ^ 32 + s.txEmsg.len - s.pdmsg.sendOffset) % 2 ^ 16)
      PD_MAX_EXTENDED_MSG_CHUNK_LEN = chunkLen msg.len k := by
    simp only [h.emsg, hoff, chunkLen, PD_MAX_EXTENDED_MSG_CHUNK_LEN]
    omega
  have hchunk : chunkLen msg.len k ≤ 26 := Nat.min_le_right _ _
  -- The header is in front of all that is written after it.
  have hbyte : ∀ i < 2, (tchConstructChunk s).pdmsg.chkBuf i =
      wordBytes (pdExtHeader k false msg.len) i := by
    intro i hi
    simp only [tchConstructChunk, setPrlTx, hnum]
    rw [blit_apply_of_notMem (by omega), blit_apply_of_notMem (by omega),
      blit_apply_of_mem (by omega), h.number, h.emsg, Nat.sub_zero]
  refine ⟨⟨h.noAbort, h.noError, h.emsg, h.ext, h.type, h.number, h.ids⟩, htch, hf, ?_, ?_, ?_, ?_⟩
  · show add32 s.pdmsg.sendOffset (min _ _) = _
    rw [hnum, hoff]
    exact Nat.mod_eq_of_lt (by omega)
  · show (min _ _ + 2 + 3) / 4 = _
    rw [hnum]
  · rw [hbyte 0 (by decide), hbyte 1 (by decide), le16_wordBytes]
  · intro i hi
    simp only [tchConstructChunk, setPrlTx, hnum]
    rw [blit_apply_of_mem (by omega), Nat.add_sub_cancel_left, hoff, h.emsg]

theorem ReadyToSend.sends {t : SopStar} {s : St} (h : ReadyToSend t s) (hpos : 0 < s.txEmsg.len)
    (hlen : s.txEmsg.len ≤ EXTENDED_BUFFER_SIZE) (e : Env) :
    Sends t s.txEmsg 0 (tchRun e s) := by
  have hrun : tchRun e s = tchConstructChunk { s with
      tch := { s.tch with
        state := .constructChunkedMessage, flags := { s.tch.flags with msgXmit := false } }
      pdmsg := { s.pdmsg with sendOffset := 0, chunkNumberToSend := 0 } } := by
    simp [tchRun, h.tch, tchWaitForMessageRequestFromPeRun, tchIfMessageReceived, h.noMessage,
      h.request, setTch, h.rch, pdmsgXmitTypeIsRev30, h.type, h.rev, h.ext, h.chunking, setStateTch,
      tchGoto, tchExit, tchEntry, tchConstructChunkedMessageEntry]
  rw [hrun]
  exact Sender.construct ⟨h.noAbort, h.noError, rfl, h.ext, h.type, rfl, h.ids⟩ rfl h.noMessage rfl
    hpos hlen

theorem Sends.sending {t : SopStar} {msg : ExtendedMsg} {k : Nat} {s : St} (h : Sends t msg k s)
    (e : Env) : tchRun e s = { s with tch := { s.tch with state := .sendingChunkedMessage } } := by
  simp [tchRun, h.tch, tchConstructChunkedMessageRun, h.noAbort, setStateTch, tchGoto, tchExit,
    tchEntry]

/-- The sender sends the chunk, and waits for a request if it was not the last. -/
theorem Sends.waits {t : SopStar} {msg : ExtendedMsg} {k : Nat} {s : St} (h : Sends t msg k s)
    (hk : 26 * (k + 1) < msg.len) (hlen : msg.len ≤ EXTENDED_BUFFER_SIZE) (e : Env) :
    WaitsForRequest t msg (k + 1) (tchRun e (transmitted e (tchRun e s))) := by
  simp only [EXTENDED_BUFFER_SIZE] at hlen
  have hsending := h.sending e
  obtain ⟨tx, htx, heq⟩ := transmitted_eq e (s := tchRun e s) (t := t)
    (by rw [hsending]; exact h.type) (by rw [hsending]; exact h.ids)
  have hoff : s.pdmsg.sendOffset = 26 * (k + 1) := by
    rw [h.offset, chunkLen]
    omega
  have hlt : s.pdmsg.sendOffset < s.txEmsg.len := by
    rw [h.emsg, hoff]
    exact hk
  have hrun : ∃ timers, tchRun e (transmitted e (tchRun e s)) = { s with
      tch := { s.tch with state := .waitChunkRequest }
      prlTx := tx
      events := (transmitted e (tchRun e s)).events
      timers := timers
      pdmsg := { s.pdmsg with
        flags := { s.pdmsg.flags with txComplete := false }
        chunkNumberToSend := add32 s.pdmsg.chunkNumberToSend 1 } } := by
    refine ⟨fun u => if u = .chunkSenderRequest then true else s.timers u, ?_⟩
    rw [heq, hsending]
    simp [tchRun, tchSendingChunkedMessageRun, h.noError, hlt, Nat.ne_of_gt hlt,
      tchIfMessageReceived, h.noMessage, setStateTch, tchGoto, tchExit, tchEntry,
      tchWaitChunkRequestEntry, pdTimerEnable, setPdmsg]
  obtain ⟨timers, hrun⟩ := hrun
  rw [hrun]
  refine ⟨⟨h.noAbort, h.noError, h.emsg, h.ext, h.type, ?_, htx⟩, rfl, hoff⟩
  show add32 s.pdmsg.chunkNumberToSend 1 = k + 1
  rw [h.number]
  exact Nat.mod_eq_of_lt (by omega)

theorem WaitsForRequest.sends {t : SopStar} {msg : ExtendedMsg} {k : Nat} {s : St}
    (h : WaitsForRequest t msg k s) (hk : 26 * k < msg.len) (hlen : msg.len ≤ EXTENDED_BUFFER_SIZE)
    (e : Env) {q : RxMessage} (hext : q.header.ext = true)
    (hreq : pdExtHeaderReqChunk q.extHeader = true) (hnum : pdExtHeaderChunkNum q.extHeader = k) :
    Sends t msg k (tchRun e (toTch q s)) := by
  have hex := takeMessage_exhdr q s
  have hrun : ∃ timers, tchRun e (toTch q s) = tchConstructChunk { takeMessage q s.cachedMessages s with
      tch := { s.tch with
        state := .constructChunkedMessage, flags := { s.tch.flags with msgReceived := false } }
      timers := timers } := by
    refine ⟨fun u => if u = .chunkSenderRequest then false else s.timers u, ?_⟩
    have hstate : (toTch q s).tch.state = .waitChunkRequest := h.tch
    have hreq' : pdExtHeaderReqChunk (takeMessage q s.cachedMessages s).pdmsg.exhdr = true := by
      rw [hex]
      exact hreq
    have hnum' : pdExtHeaderChunkNum (takeMessage q s.cachedMessages s).pdmsg.exhdr =
        s.pdmsg.chunkNumberToSend := by
      rw [hex, h.number]
      exact hnum
    have hext' : (takeMessage q s.cachedMessages s).rxEmsg.header.ext = true := hext
    have hnext : (takeMessage q s.cachedMessages s).pdmsg.chunkNumberToSend =
        s.pdmsg.chunkNumberToSend := rfl
    have htch : (takeMessage q s.cachedMessages s).tch = s.tch := rfl
    have htimers : (takeMessage q s.cachedMessages s).timers = s.timers := rfl
    simp only [tchRun, hstate]
    simp [tchWaitChunkRequestRun, toTch, setTch, hext', hreq', hnum', hnext, htch, htimers, h.tch,
      setStateTch, tchGoto, tchExit, tchEntry, tchConstructChunkedMessageEntry,
      tchIfMessageReceived, pdTimerDisable]
  obtain ⟨timers, hrun⟩ := hrun
  rw [hrun]
  exact Sender.construct ⟨h.noAbort, h.noError, h.emsg, h.ext, h.type, h.number, h.ids⟩ rfl rfl
    h.offset hk hlen

/-! ## The receiver -/

/-- A port that waits for a message. -/
structure ReadyToReceive (r : St) : Prop where
  rch : r.rch.state = .waitForMessageFromProtocolLayer
  chunking : r.rch.flags.chunking = true
  noAbort : r.pdmsg.flags.abort = false
  rev : pdmsgXmitTypeIsRev30 r = true
  ids : IdsInRange r

structure HasChunks (msg : ExtendedMsg) (k : Nat) (r : St) : Prop where
  noAbort : r.pdmsg.flags.abort = false
  ids : IdsInRange r
  expected : r.pdmsg.chunkNumberExpected = k
  received : r.pdmsg.numBytesReceived = 26 * k
  bytes : window r.rxEmsg.buf 0 (26 * k) = window msg.buf 0 (26 * k)

def Receives (msg : ExtendedMsg) (k : Nat) (r : St) : Prop :=
  k = 0 ∧ ReadyToReceive r ∨ r.rch.state = .waitingChunk ∧ HasChunks msg k r

structure IsChunk (msg : ExtendedMsg) (k : Nat) (m : RxMessage) : Prop where
  ext : m.header.ext = true
  exhdr : m.extHeader = (pdExtHeader k false msg.len).setWidth 16
  data : ∀ i < chunkLen msg.len k, m.payload (2 + i) = msg.buf (26 * k + i)

structure Processes (msg : ExtendedMsg) (k : Nat) (r : St) : Prop extends HasChunks msg k r where
  rch : r.rch.state = .processingExtendedMessage
  exhdr : r.pdmsg.exhdr = (pdExtHeader k false msg.len).setWidth 16
  data : ∀ i < chunkLen msg.len k, r.pdmsg.rxChkBuf (2 + i) = msg.buf (26 * k + i)

theorem messagesUp_append (log log' : List Event) :
    messagesUp (log ++ log') = messagesUp log ++ messagesUp log' := List.filterMap_append

theorem Sends.onWire {t : SopStar} {msg : ExtendedMsg} {k : Nat} {s : St} (h : Sends t msg k s)
    (e : Env) : ∃ m, onWire (transmitted e (tchRun e s)) = some m ∧ IsChunk msg k m := by
  have hchunk : chunkLen msg.len k ≤ 26 := Nat.min_le_right _ _
  have hobjs := h.objs
  rw [h.sending e]
  obtain ⟨m, hm, hext, hdata⟩ := onWire_transmitted e
    (s := { s with tch := { s.tch with state := .sendingChunkedMessage } }) h.type h.ids h.ext
    (show s.pdmsg.dataObjs < 2 ^ 3 by omega)
  change ∀ i < 4 * s.pdmsg.dataObjs, m.payload i = s.pdmsg.chkBuf i at hdata
  refine ⟨m, hm, hext, ?_, ?_⟩
  · rw [RxMessage.extHeader, hdata 0 (by omega), hdata 1 (by omega)]
    exact h.exhdr
  · intro i hi
    rw [hdata _ (by omega)]
    exact h.data i hi

theorem Receives.processes {msg : ExtendedMsg} {k : Nat} {r : St} (h : Receives msg k r) {m : RxMessage}
    (hm : IsChunk msg k m) (hk : k < 16) (hlen : msg.len ≤ EXTENDED_BUFFER_SIZE) (f : Env) :
    Processes msg k (rchRun f (toRch m r)) ∧
      messagesUp (rchRun f (toRch m r)).events = messagesUp r.events := by
  simp only [EXTENDED_BUFFER_SIZE] at hlen
  have hchunk : chunkLen msg.len k ≤ 26 := Nat.min_le_right _ _
  have hexhdr : (toRch m r).pdmsg.exhdr = (pdExtHeader k false msg.len).setWidth 16 :=
    (takeMessage_exhdr m r).trans hm.exhdr
  have hdata : ∀ i < chunkLen msg.len k,
      (toRch m r).pdmsg.rxChkBuf (2 + i) = msg.buf (26 * k + i) := by
    intro i hi
    have hlt : 2 + i < CHK_BUF_SIZE_BYTES := by
      simp only [CHK_BUF_SIZE_BYTES]
      omega
    exact (toRch_payload m r hlt).trans (hm.data i hi)
  have hchunked : pdExtHeaderChunked (toRch m r).pdmsg.exhdr = true := by
    rw [hexhdr]
    exact chunked_pdExtHeader false
  have hext : (toRch m r).rxEmsg.header.ext = true := hm.ext
  have hflag : (toRch m r).rch.flags.msgReceived = true := rfl
  obtain ⟨rfl, hready⟩ | ⟨hst, hhas⟩ := h
  · have hrun : ∃ timers, rchRun f (toRch m r) =
        inState .processingExtendedMessage timers (firstChunk (toRch m r)) := by
      obtain ⟨timers, heq⟩ := setStateRch_eq f (s := firstChunk (toRch m r))
        (show r.rch.state ≠ .processingExtendedMessage by rw [hready.rch]; decide)
      refine ⟨timers, ?_⟩
      have hst : (toRch m r).rch.state = .waitForMessageFromProtocolLayer := hready.rch
      have hrev : pdmsgXmitTypeIsRev30 (setRch (fun f => { f with msgReceived := false }) (toRch m r)) =
          true := hready.rev
      have hcond : (setRch (fun f => { f with msgReceived := false }) (toRch m r)).rch.flags.chunking =
          true := hready.chunking
      have hext' : (setRch (fun f => { f with msgReceived := false }) (toRch m r)).rxEmsg.header.ext =
          true := hext
      have hchunked' : pdExtHeaderChunked
          (setRch (fun f => { f with msgReceived := false }) (toRch m r)).pdmsg.exhdr = true := hchunked
      simp only [rchRun, hst, rchWaitForMessageFromProtocolLayerRun, hflag, hrev, hext', hcond,
        hchunked', Bool.and_self, if_true]
      exact heq
    obtain ⟨timers, hrun⟩ := hrun
    rw [hrun]
    refine ⟨⟨⟨hready.noAbort, hready.ids, rfl, rfl, rfl⟩, rfl, hexhdr, hdata⟩, ?_⟩
    show messagesUp (r.events ++ [.dequeue m] ++ [.firstChunk]) = _
    rw [messagesUp_append, messagesUp_append]
    simp [messagesUp]
  · have hreq : pdExtHeaderReqChunk (toRch m r).pdmsg.exhdr = false := by
      rw [hexhdr]
      exact reqChunk_pdExtHeader false hk (by omega)
    have hrun : ∃ timers, rchRun f (toRch m r) = inState .processingExtendedMessage timers
        (setRch (fun f => { f with msgReceived := false })
          (setPdmsg (fun f => { f with txComplete := false }) (toRch m r))) := by
      obtain ⟨timers, heq⟩ := setStateRch_eq f
        (s := setRch (fun f => { f with msgReceived := false })
          (setPdmsg (fun f => { f with txComplete := false }) (toRch m r)))
        (show r.rch.state ≠ .processingExtendedMessage by rw [hst]; decide)
      refine ⟨timers, ?_⟩
      have hst' : (toRch m r).rch.state = .waitingChunk := hst
      have hext' : (setPdmsg (fun f => { f with txComplete := false }) (toRch m r)).rxEmsg.header.ext =
          true := hext
      have hreq' : pdExtHeaderReqChunk
          (setPdmsg (fun f => { f with txComplete := false }) (toRch m r)).pdmsg.exhdr = false := hreq
      have hchunked' : pdExtHeaderChunked
          (setPdmsg (fun f => { f with txComplete := false }) (toRch m r)).pdmsg.exhdr = true := hchunked
      simp only [rchRun, hst', rchWaitingChunkRun, hflag, if_true, hext', hreq', hchunked',
        Bool.not_true, Bool.or_self, Bool.false_eq_true, if_false]
      exact heq
    obtain ⟨timers, hrun⟩ := hrun
    rw [hrun]
    refine ⟨⟨⟨hhas.noAbort, hhas.ids, hhas.expected, hhas.received, hhas.bytes⟩, rfl, hexhdr, hdata⟩,
      ?_⟩
    show messagesUp (r.events ++ [.dequeue m]) = _
    rw [messagesUp_append]
    simp [messagesUp]

theorem Processes.append {msg : ExtendedMsg} {k : Nat} {r : St} (h : Processes msg k r) (hk : k < 16)
    (hlt : 26 * k < msg.len) (hlen : msg.len ≤ EXTENDED_BUFFER_SIZE) :
    byteNum r.pdmsg = chunkLen msg.len k ∧ pdExtHeaderDataSize r.pdmsg.exhdr = msg.len ∧
      (rchAppend r).pdmsg.numBytesReceived = 26 * k + chunkLen msg.len k ∧
      window (rchAppend r).rxEmsg.buf 0 (26 * k + chunkLen msg.len k) =
        window msg.buf 0 (26 * k + chunkLen msg.len k) := by
  simp only [EXTENDED_BUFFER_SIZE] at hlen
  have hchunk : chunkLen msg.len k ≤ 26 := Nat.min_le_right _ _
  have hsize : pdExtHeaderDataSize r.pdmsg.exhdr = msg.len := by
    rw [h.exhdr]
    exact dataSize_pdExtHeader false hk (by omega)
  have hnum : byteNum r.pdmsg = chunkLen msg.len k := by
    rw [byteNum_eq (by rw [hsize, h.received]; omega), hsize, h.received]
    rfl
  refine ⟨hnum, hsize, ?_, ?_⟩
  · show add32 r.pdmsg.numBytesReceived (byteNum r.pdmsg) = _
    rw [hnum, h.received]
    exact Nat.mod_eq_of_lt (by omega)
  · show window (blit r.rxEmsg.buf r.pdmsg.numBytesReceived (fun i => r.pdmsg.rxChkBuf (2 + i))
      (byteNum r.pdmsg)) 0 _ = _
    rw [hnum, h.received, window_blit_end, h.bytes, ← window_append, Nat.zero_add]
    congr 1
    apply window_congr
    intro i hi
    rw [Nat.zero_add]
    exact h.data i hi

/-- The run function comes to the point where the chunk was appended. -/
theorem Processes.run_eq {msg : ExtendedMsg} {k : Nat} {r : St} (h : Processes msg k r) (hk : k < 16)
    (hlt : 26 * k < msg.len) (hlen : msg.len ≤ EXTENDED_BUFFER_SIZE) (f : Env) :
    rchRun f r = if msg.len ≤ 26 * k + chunkLen msg.len k then
      setStateRch f .passUpMessage (lastChunk r)
    else setStateRch f .requestingChunk (rchAppend r) := by
  obtain ⟨hnum, hsize, hcount, -⟩ := h.append hk hlt hlen
  simp only [EXTENDED_BUFFER_SIZE] at hlen
  have hexp : pdExtHeaderChunkNum r.pdmsg.exhdr = r.pdmsg.chunkNumberExpected := by
    rw [h.exhdr, h.expected]
    exact chunkNum_pdExtHeader false hk (by omega)
  have hroom : ¬add32 r.pdmsg.numBytesReceived (byteNum r.pdmsg) > EXTENDED_BUFFER_SIZE := by
    have hcount' : add32 r.pdmsg.numBytesReceived (byteNum r.pdmsg) = 26 * k + chunkLen msg.len k :=
      hcount
    rw [hcount', chunkLen, EXTENDED_BUFFER_SIZE]
    omega
  simp only [rchRun, h.rch, rchProcessingExtendedMessageRun, h.noAbort, Bool.false_eq_true, if_false,
    if_pos hexp, if_neg hroom, hcount, hsize, lastChunk, ge_iff_le]

theorem Processes.last {msg : ExtendedMsg} {k : Nat} {r : St} (h : Processes msg k r) (hk : k < 16)
    (hlt : 26 * k < msg.len) (hlast : msg.len ≤ 26 * (k + 1)) (hlen : msg.len ≤ EXTENDED_BUFFER_SIZE)
    (f : Env) : (rchRun f r).rch.state = .waitForMessageFromProtocolLayer ∧
      messagesUp (rchRun f r).events = messagesUp r.events ++ [msg.bytes] := by
  obtain ⟨-, -, hcount, hbytes⟩ := h.append hk hlt hlen
  have hall : 26 * k + chunkLen msg.len k = msg.len := by
    rw [chunkLen]
    omega
  obtain ⟨timers, heq⟩ := setStateRch_passUpMessage f (s := lastChunk r)
    (show r.rch.state ≠ .passUpMessage by rw [h.rch]; decide)
  rw [h.run_eq hk hlt hlen f, if_pos (Nat.le_of_eq hall.symm), heq]
  refine ⟨rfl, ?_⟩
  have hmsg : (lastChunk r).rxEmsg.bytes = msg.bytes := by
    show window (rchAppend r).rxEmsg.buf 0 (rchAppend r).pdmsg.numBytesReceived = _
    rw [hcount, hbytes, hall]
    rfl
  show messagesUp (r.events ++ [.chunk _ _] ++ [.pe (.messageReceived _ (lastChunk r).rxEmsg.bytes)]) = _
  rw [messagesUp_append, messagesUp_append, hmsg]
  simp [messagesUp]

theorem Processes.more {msg : ExtendedMsg} {k : Nat} {r : St} (h : Processes msg k r)
    (hmore : 26 * (k + 1) < msg.len) (hlen : msg.len ≤ EXTENDED_BUFFER_SIZE) (f : Env) :
    (rchRun f r).rch.state = .requestingChunk ∧
      messagesUp (rchRun f (transmitted f (rchRun f r))).events = messagesUp r.events ∧
      Receives msg (k + 1) (rchRun f (transmitted f (rchRun f r))) ∧
      ∃ q, onWire (transmitted f (rchRun f r)) = some q ∧ q.header.ext = true ∧
        pdExtHeaderReqChunk q.extHeader = true ∧ pdExtHeaderChunkNum q.extHeader = k + 1 := by
  have h260 : EXTENDED_BUFFER_SIZE = 260 := rfl
  have hk : k < 16 := by omega
  obtain ⟨-, -, hcount, hbytes⟩ := h.append hk (by omega) hlen
  have hfull : chunkLen msg.len k = 26 := by
    rw [chunkLen]
    omega
  obtain ⟨timers, heq⟩ := setStateRch_eq f (s := rchAppend r)
    (show r.rch.state ≠ .requestingChunk by rw [h.rch]; decide)
  have hrun : rchRun f r = rchRequestingChunkEntry (inState .requestingChunk timers (rchAppend r)) := by
    rw [h.run_eq hk (by omega) hlen f, if_neg (by omega), heq]
    rfl
  generalize hu : rchRequestingChunkEntry (inState .requestingChunk timers (rchAppend r)) = u at hrun
  have hust : u.rch.state = .requestingChunk := by rw [← hu]; rfl
  have htype : u.pdmsg.xmitType = .sopStar r.prlRx.sop := by rw [← hu]; rfl
  have hids : IdsInRange u := by rw [← hu]; exact h.ids
  have hobjs : u.pdmsg.dataObjs = 1 := by rw [← hu]; rfl
  have hext : u.pdmsg.ext = true := by rw [← hu]; rfl
  have hexp : u.pdmsg.chunkNumberExpected = k + 1 := by
    rw [← hu]
    show add32 r.pdmsg.chunkNumberExpected 1 = k + 1
    rw [h.expected]
    exact Nat.mod_eq_of_lt (by omega)
  have hbuf : ∀ i < 4, u.pdmsg.chkBuf i = wordBytes (pdExtHeader (k + 1) true 0) i := by
    intro i hi
    rw [← hexp, ← hu]
    show blit (rchAppend r).pdmsg.chkBuf 0 _ 4 i = _
    rw [blit_apply_of_mem (by omega), Nat.sub_zero]
    rfl
  rw [hrun]
  obtain ⟨tx, htx, htrans⟩ := transmitted_eq f htype hids
  obtain ⟨q, hq, hqext, hqdata⟩ := onWire_transmitted f htype hids hext (by rw [hobjs]; decide)
  rw [hobjs] at hqdata
  have hqhdr : q.extHeader = (pdExtHeader (k + 1) true 0).setWidth 16 := by
    rw [RxMessage.extHeader, hqdata 0 (by decide), hqdata 1 (by decide), hbuf 0 (by decide),
      hbuf 1 (by decide), le16_wordBytes]
  have hwait : ∃ timers', rchRun f (transmitted f u) =
      inState .waitingChunk timers' (setPdmsg (fun f => { f with txComplete := false })
        (transmitted f u)) := by
    have hst : (transmitted f u).rch.state = .requestingChunk := by
      rw [htrans]
      exact hust
    have hdone : (transmitted f u).pdmsg.flags.txComplete = true := by rw [htrans]
    obtain ⟨timers', heq'⟩ := setStateRch_eq f
      (s := setPdmsg (fun f => { f with txComplete := false }) (transmitted f u))
      (show (transmitted f u).rch.state ≠ .waitingChunk by rw [hst]; decide)
    refine ⟨fun v => if v = .chunkSenderResponse then true else timers' v, ?_⟩
    simp only [rchRun, hst, rchRequestingChunkRun, hdone, if_true]
    rw [heq']
    rfl
  obtain ⟨timers', hwait⟩ := hwait
  refine ⟨hust, ?_, .inr ?_, q, hq, hqext, ?_, ?_⟩
  · rw [hwait, htrans, ← hu]
    show messagesUp (r.events ++ [.chunk _ _] ++ [.transmit _ _ _] ++ [.incrementMsgid _]) = _
    rw [messagesUp_append, messagesUp_append, messagesUp_append]
    simp [messagesUp]
  · rw [hwait, htrans]
    refine ⟨rfl, ?_, htx, hexp, ?_, ?_⟩
    · rw [← hu]
      exact h.noAbort
    · rw [← hu]
      exact hcount.trans (by omega)
    · rw [← hu]
      show window (rchAppend r).rxEmsg.buf 0 (26 * (k + 1)) = _
      rw [show 26 * (k + 1) = 26 * k + chunkLen msg.len k by omega]
      exact hbytes
  · rw [hqhdr]
    exact reqChunk_pdExtHeader true (by omega) (by omega)
  · rw [hqhdr]
    exact chunkNum_pdExtHeader true (by omega) (by omega)

/-! ## Rounds -/

/-- Before round `k`. -/
structure Linked (t : SopStar) (msg : ExtendedMsg) (up : List (List UInt8)) (k : Nat) (l : Link) :
    Prop where
  sender : Sends t msg k l.sender
  receiver : Receives msg k l.receiver
  requests : l.requests = List.range' 1 k
  up : messagesUp l.receiver.events = up

section

variable {t : SopStar} {msg : ExtendedMsg} {up : List (List UInt8)} {k : Nat} {l : Link} (e f : Env)

theorem Linked.more (h : Linked t msg up k l) (hk : 26 * (k + 1) < msg.len)
    (hlen : msg.len ≤ EXTENDED_BUFFER_SIZE) : Linked t msg up (k + 1) (round e f l) := by
  have h260 : EXTENDED_BUFFER_SIZE = 260 := rfl
  obtain ⟨m, hm, hchunk⟩ := h.sender.onWire e
  obtain ⟨hproc, hup⟩ := h.receiver.processes hchunk (by omega) hlen f
  obtain ⟨hst, hup', hreceives, q, hq, hext, hreq, hnum⟩ := hproc.more hk hlen f
  simp only [round, hm, if_pos hst, hq]
  refine ⟨?_, hreceives, ?_, ?_⟩
  · exact (h.sender.waits hk hlen e).sends hk hlen e hext hreq hnum
  · rw [h.requests, hnum, List.range'_1_concat, Nat.add_comm]
  · exact (hup'.trans hup).trans h.up

theorem Linked.last (h : Linked t msg up k l) (hlt : 26 * k < msg.len)
    (hlast : msg.len ≤ 26 * (k + 1)) (hlen : msg.len ≤ EXTENDED_BUFFER_SIZE) :
    messagesUp (round e f l).receiver.events = up ++ [msg.bytes] ∧
      (round e f l).requests = List.range' 1 k := by
  have h260 : EXTENDED_BUFFER_SIZE = 260 := rfl
  obtain ⟨m, hm, hchunk⟩ := h.sender.onWire e
  obtain ⟨hproc, hup⟩ := h.receiver.processes hchunk (by omega) hlen f
  obtain ⟨hst, hup'⟩ := hproc.last (by omega) hlt hlast hlen f
  have hne : (rchRun f (rchRun f (toRch m l.receiver))).rch.state ≠ .requestingChunk := by
    rw [hst]
    decide
  simp only [round, hm, if_neg hne]
  exact ⟨hup'.trans (by rw [hup, h.up]), h.requests⟩

end

/-- **The round trip of a chunked message.** A port that was asked to send an extended
message of up to 260 bytes sends it in `n` chunks to a port that waits for a message.
The receiver passes up one message, with the bytes of the original, and asks for the
chunks 1 to `n - 1`. -/
theorem chunked_round_trip (e f : Nat → Env) (e₀ : Env) {t : SopStar} {s r : St} (hs : ReadyToSend t s)
    (hr : ReadyToReceive r) (hpos : 0 < s.txEmsg.len) (hlen : s.txEmsg.len ≤ EXTENDED_BUFFER_SIZE) :
    let n := (s.txEmsg.len + 25) / 26
    let l := rounds e f ⟨tchRun e₀ s, r, []⟩ n
    messagesUp l.receiver.events = messagesUp r.events ++ [s.txEmsg.bytes] ∧
      l.requests = List.range' 1 (n - 1) := by
  dsimp only
  obtain ⟨k, hk⟩ : ∃ k, (s.txEmsg.len + 25) / 26 = k + 1 :=
    ⟨(s.txEmsg.len - 1) / 26, by omega⟩
  have hlinked : ∀ j ≤ k, Linked t s.txEmsg (messagesUp r.events) j
      (rounds e f ⟨tchRun e₀ s, r, []⟩ j) := by
    intro j hj
    induction j with
    | zero => exact ⟨hs.sends hpos hlen e₀, .inl ⟨rfl, hr⟩, rfl, rfl⟩
    | succ j ih => exact (ih (by omega)).more (e j) (f j) (by omega) hlen
  rw [hk]
  exact (hlinked k (Nat.le_refl k)).last (e k) (f k) (by omega) (by omega) hlen

def startedPort : St :=
  [.call quietEnv .prlSetDefaultPdRevision, .run (fun _ => quietEnv) true].foldl step boot

/-- The policy engine has asked for a message of 52 bytes. -/
def sendingPort : St :=
  [.call quietEnv (.writeTxEmsg 52 fun i => UInt8.ofNat i),
    .call quietEnv (.prlSendExtDataMsg (.sopStar .sop) 1)].foldl step startedPort

theorem chunked_round_trip_two_chunks :
    let l := rounds (fun _ => quietEnv) (fun _ => quietEnv) ⟨tchRun quietEnv sendingPort, startedPort, []⟩ 2
    messagesUp l.receiver.events = [(List.range 52).map UInt8.ofNat] ∧ l.requests = [1] := by
  have hids : ∀ t, (startedPort.prlTx.msgIdCounter t).toNat < 2 ^ 3 := by
    intro t
    cases t <;> decide +kernel
  have hs : ReadyToSend .sop sendingPort :=
    ⟨by decide +kernel, by decide +kernel, by decide +kernel, by decide +kernel, by decide +kernel,
      by decide +kernel, by decide +kernel, by decide +kernel, by decide +kernel, by decide +kernel,
      hids⟩
  have hr : ReadyToReceive startedPort :=
    ⟨by decide +kernel, by decide +kernel, by decide +kernel, by decide +kernel, hids⟩
  obtain ⟨hup, hreq⟩ := chunked_round_trip (fun _ => quietEnv) (fun _ => quietEnv) quietEnv hs hr
    (by decide +kernel) (by decide +kernel)
  have hlen : sendingPort.txEmsg.len = 52 := by decide +kernel
  have hbytes : sendingPort.txEmsg.bytes = (List.range 52).map UInt8.ofNat := by decide +kernel
  have hnone : messagesUp startedPort.events = [] := by decide +kernel
  rw [hlen] at hup hreq
  rw [hbytes, hnone] at hup
  exact ⟨hup, hreq⟩

end ChromeEc.UsbPrl
