import ChromeEc.OneWireUart.Model
import ChromeEc.Lib.Relay
import ChromeEc.Lib.Steps

/- What is handed on was sent, in this order and once, and what was given up as acknowledged is
  handed on or waits.

  The messages of one endpoint and what the other makes of them are a link (`link`), and each
  call does to the two links that an endpoint is part of what the steps of `Lib.Relay` do. A
  link goes wrong only where `Regular` excludes it:

    1. an endpoint takes an acknowledgement of another message, with the same number, for one
       of the message it repeats: the RESET has the number of the first message, and a message
       that was refused uses up a number;
    2. a new message comes with the number of the message taken before it, and counts as a copy;
    3. a new message comes when `rx_queue` is full, and is acknowledged all the same;
    4. an endpoint starts again, and drops messages that were acknowledged or hands on again
       what is still repeated;
    5. there is no callback;
    6. a message has 80 bytes, and the receiver looks for a header inside it. -/
namespace ChromeEc.OneWireUart
open Lib Relay

variable {i : Bool} {x x' y : Side} {d : Data} {msg m : Message} {now : Time}

def labels : Labels Message := ⟨Message.no, fun msg => msg.msgId, Message.reset⟩

/-! ## Frames that arrive -/

theorem scan_nil {no : Nat} : scan no [] = .incomplete := rfl

theorem findHeader_nil : findHeader [] = [] := rfl

theorem rxLoop_nil {no rounds : Nat} (h : d.rxRingBuf = []) : rxLoop i no rounds d = d := by
  cases rounds with
  | zero => rfl
  | succ rounds =>
    simp only [rxLoop, h, findHeader_nil, scan_nil]
    rw [← h]

theorem rxMessage_rest (ring : List UInt8) :
    { rxMessage i msg { d with rxRingBuf := ring } with
      rxRingBuf := (rxMessage i msg { d with rxRingBuf := ring }).rxRingBuf.drop ring.length } =
    { rxMessage i msg d with rxRingBuf := [] } := by
  unfold rxMessage
  split
  · simp
  · split
    · simp [oneWireUartReset]
    · simp

theorem rxMessage_rxRingBuf (hring : d.rxRingBuf = []) : (rxMessage i msg d).rxRingBuf = [] := by
  unfold rxMessage
  split
  · exact hring
  · split
    · rfl
    · exact hring

/-- A frame that comes when no bytes are left over is looked at once. -/
theorem rxFifo_eq (hring : d.rxRingBuf = []) (hlen : msg.payload.length ≤ maxPayloadSize) (hid : msg.msgId < 32) :
    rxFifo i msg d = if msg.sender ≠ i then rxMessage i msg d else d := by
  have hload : loadRxFifo msg.frame d = { d with rxRingBuf := msg.frame } := by
    have hfits : msgLen msg ≤ rxRingSize := by
      have hsize : headerSize + maxPayloadSize ≤ rxRingSize := by decide
      exact (Nat.add_le_add_left hlen _).trans hsize
    rw [loadRxFifo, hring, List.nil_append, List.take_of_length_le (by simpa using hfits)]
  have hscan : scan msg.no msg.frame = .packet msg := by
    have hread : scan msg.no (msg.frame ++ []) = .packet msg := scan_frame hlen hid
    rwa [List.append_nil] at hread
  have hfind : findHeader msg.frame = msg.frame := rfl
  rw [rxFifo, processRxFifo, hload]
  simp only [rxLoop, hfind, hscan]
  split
  · have hdropped := @rxMessage_rest i d msg msg.frame
    rw [length_frame] at hdropped
    rw [hdropped, rxLoop_nil rfl, ← @rxMessage_rxRingBuf i d msg hring]
  · have hdropped : msg.frame.drop (msgLen msg) = [] := List.drop_of_length_le (by simp)
    rw [hdropped, rxLoop_nil rfl, ← hring]

/-! ## The two links -/

/-- The messages among the frames, without the acknowledgements. -/
def messages (frames : List Message) : List Message := frames.filter fun msg => !msg.ack

/-- The numbers in the acknowledgements among the frames. -/
def answers (frames : List Message) : List Nat := (frames.filter fun msg => msg.ack).map Message.no

def Data.pending (d : Data) : List Message := if d.msgPending = true then [d.resendCache] else []

/-- The copies of messages of `x` that `y` has not seen. -/
def line (x y : Side) : List Message :=
  messages y.wire ++ (messages x.data.txRingBuf ++ (x.data.pending ++ x.data.txQueue))

/-- The numbers of the messages that `x` hears are acknowledged. -/
def Side.heard (x : Side) : List Nat := answers x.wire ++ x.data.ackNo.toList

/-- The message that the callback got last, as long as its copies are told by its number. -/
def Side.last (y : Side) : Option Message := if y.data.lastReceivedMsgId = -1 then none else y.handed.getLast?

def link (x y : Side) : Link Message where
  queued := x.queued
  line := line x y
  acked := answers y.data.txRingBuf ++ x.heard
  retired := x.retired
  waiting := y.data.rxQueue
  handed := y.handed
  last := y.last

/-- A frame as an endpoint sends it. -/
structure Message.Sent (id : Bool) (msg : Message) : Prop where
  sender : msg.sender = id
  short : msg.payload.length ≤ maxPayloadSize
  id : msg.msgId < 32

structure Side.Wf (id : Bool) (x : Side) : Prop where
  leftOver : x.data.rxRingBuf = []
  ring : ∀ msg ∈ x.data.txRingBuf, msg.Sent id
  wire : ∀ msg ∈ x.wire, msg.Sent !id
  sending : ∀ msg ∈ x.data.pending ++ x.data.txQueue, msg.Sent id ∧ msg.ack = false
  told : x.data.lastReceivedMsgId = -1 ∨ ∃ p, x.handed.getLast? = some p ∧ x.data.lastReceivedMsgId = p.msgId

/-- Two endpoints, and the messages of each of them. -/
structure Linked (id : Bool) (x y : Side) : Prop where
  here : x.Wf id
  there : y.Wf !id
  out : (link x y).Sound labels
  back : (link y x).Sound labels

theorem Linked.symm (h : Linked i x y) : Linked (!i) y x := ⟨h.there, i.not_not.symm ▸ h.here, h.back, h.out⟩

@[simp] theorem messages_nil : messages [] = [] := rfl

@[simp] theorem messages_append {l k : List Message} :
    messages (l ++ k) = messages l ++ messages k := List.filter_append ..

@[simp] theorem answers_nil : answers [] = [] := rfl

@[simp] theorem answers_append {l k : List Message} : answers (l ++ k) = answers l ++ answers k := by simp [answers]

theorem messages_one : messages [msg] = if msg.ack = true then [] else [msg] := by
  cases hack : msg.ack <;> simp [messages, hack]

theorem answers_one : answers [msg] = if msg.ack = true then [msg.no] else [] := by
  cases hack : msg.ack <;> simp [answers, hack]

/-! ## When nothing goes wrong -/

/-- What waits for the callback of `x` was handed on before, or `y` does not hear that it is acknowledged. -/
def Purges (x y : Side) : Prop := ∀ m ∈ x.data.rxQueue, m ∈ x.handed ∨ m ∉ y.retired ∧ m.no ∉ y.heard

/-- `x` starts again when it drops nothing that was acknowledged, and when `y` does not repeat what was handed on. -/
def Restarts (x y : Side) : Prop := Purges x y ∧ ∀ m ∈ line y x, m ∉ x.handed

/-- The message before the next one. -/
def Side.recent (x : Side) : Option Message := (x.last.toList ++ x.data.rxQueue).getLast?

/-- There is room for the message, and it does not count as a copy of another one. -/
def Welcome (x : Side) (msg : Message) : Prop :=
  if x.data.rxQueue.length < queueSize then ∀ p ∈ x.recent, p.msgId = msg.msgId → p = msg
  else msg ∈ x.handed ∨ msg ∈ x.data.rxQueue

/-- The message under way has been sent too often. -/
def GivesUp (now : Time) (d : Data) : Prop :=
  d.txRingBuf = [] ∧ d.msgPending = true ∧ ¬Acked d ∧ canSend now d ∧ maxRetry ≤ d.retryCount

def RegularCall (x y : Side) : Call → Prop
  | .enable => x.data.enabled = false → Restarts x y
  | .disable => x.data.enabled = true → Restarts x y
  | .send _ payload => payload.length ≠ maxPayloadSize
  | .load now =>
    (Acked x.data → x.data.resendCache.reset = false → x.data.ackNo = some x.data.resendCache.no) ∧
      (GivesUp now x.data → Restarts x y)
  | .receive =>
    x.data.enabled = true → ∀ msg ∈ x.wire.head?, msg.ack = false → if msg.reset = true then Purges x y else Welcome x msg
  | .process => x.data.msgReceivedCb = true
  | _ => True

def Regular (a : System × (Bool × Call)) : Prop := RegularCall (a.1.side a.2.1) (a.1.side !a.2.1) a.2.2

instance : Decidable (Purges x y) := inferInstanceAs (Decidable (∀ m ∈ x.data.rxQueue, _))

instance : Decidable (Restarts x y) := inferInstanceAs (Decidable (_ ∧ ∀ m ∈ line y x, _))

instance : Decidable (Welcome x msg) := by
  unfold Welcome
  infer_instance

instance : Decidable (GivesUp now d) := inferInstanceAs (Decidable (_ ∧ _))

instance : ∀ c, Decidable (RegularCall x y c)
  | .enable | .disable | .send _ _ | .load _ | .process | .receive => by unfold RegularCall; infer_instance
  | .setCallback | .transmit | .lose _ | .recover => isTrue trivial

instance : DecidablePred Regular := fun _ => inferInstanceAs (Decidable (RegularCall _ _ _))

/-! ## What each part of a call keeps -/

theorem sublist_of_cons {wire : List Message} (h : x.wire = msg :: wire) : wire.Sublist x.wire := by
  rw [h]
  exact List.sublist_cons_self _ _

theorem takeAck_of_ne (h : d.ack ≠ d.resendCache.msgId) : takeAck d = d := if_neg fun hboth => h hboth.2

theorem takeNext_of_pending (h : d.msgPending = true) : takeNext d = d := if_pos h

theorem txRingBuf_takeNext (d : Data) : (takeNext (takeAck d)).txRingBuf = d.txRingBuf := by
  have hack : (takeAck d).txRingBuf = d.txRingBuf := by
    rw [takeAck]
    split <;> rfl
  rw [takeNext]
  split
  · exact hack
  · split <;> exact hack

theorem retryCount_takeNext (h : ¬(d.msgPending = true ∧ d.ack ≠ d.resendCache.msgId)) :
    (takeNext (takeAck d)).retryCount = 0 := by
  have hidle : (takeAck d).msgPending = false := by
    rw [takeAck]
    split
    · rfl
    · rename_i hnot
      by_contra hbusy
      have hpending : d.msgPending = true := by simpa using hbusy
      exact h ⟨hpending, fun hack => hnot ⟨hpending, hack⟩⟩
  rw [takeNext, if_neg (by simp [hidle])]
  split <;> rfl

/-- A copy is told by the number of the message that the callback got last. -/
theorem Side.Wf.last_tag {n : Nat} (h : x.Wf i) : x.last.map labels.tag = some n ↔ x.data.lastReceivedMsgId = n := by
  rcases h.told with hnone | ⟨p, hp, hid⟩
  · have hlast : x.last = none := if_pos hnone
    rw [hlast, hnone]
    exact iff_of_false (by simp) (by omega)
  · have hlast : x.last = some p := by
      rw [Side.last, if_neg (by omega), hp]
    rw [hlast, hid]
    exact Option.some_inj

@[simp] theorem messages_genAckResponse : messages [genAckResponse i msg] = [] := rfl

@[simp] theorem answers_genAckResponse : answers [genAckResponse i msg] = [msg.no] := rfl

theorem sent_genAckResponse (h : msg.msgId < 32) : (genAckResponse i msg).Sent i := ⟨rfl, Nat.zero_le _, h⟩

theorem line_front {wire : List Message} (hwire : x.wire = msg :: wire) (hack : msg.ack = false) :
    line y x = msg :: line y { x with wire := wire } := by
  have hsplit : x.wire = [msg] ++ wire := hwire
  rw [line, hsplit, messages_append, messages_one, hack]
  rfl

namespace Linked

variable (h : Linked i x y)
include h

theorem wire {wire : List Message} (hwire : wire.Sublist x.wire) : Linked i { x with wire := wire } y where
  here := ⟨h.here.leftOver, h.here.ring, fun msg hmsg => h.here.wire msg (hwire.subset hmsg), h.here.sending, h.here.told⟩
  there := h.there
  out := by
    have hacked : (answers wire).Sublist (answers x.wire) := (hwire.filter _).map _
    exact h.out.thin (List.Sublist.refl _) ((hacked.append_right _).append_left _).subset
  back := by
    have hline : (messages wire).Sublist (messages x.wire) := hwire.filter _
    exact h.back.thin (hline.append_right _) (List.Subset.refl _)

theorem restart (hpurge : Purges x y) (hfresh : ∀ a ∈ x.handed, ∀ m ∈ line y x, a.no < m.no) (d : Data) :
    Linked i { x with data := oneWireUartReset d } y where
  here := ⟨rfl, fun _ hmsg => absurd hmsg List.not_mem_nil, h.here.wire,
    fun _ hmsg => absurd hmsg List.not_mem_nil, Or.inl rfl⟩
  there := h.there
  out := by
    have hline : (messages y.wire ++ []).Sublist (line x y) := (List.nil_sublist _).append_left _
    have hacked : answers y.data.txRingBuf ++ (answers x.wire ++ []) ⊆ answers y.data.txRingBuf ++ x.heard := by
      simp [Side.heard]
    exact h.out.thin hline hacked
  back := by
    have hthin := h.back.thin (List.Sublist.refl _) (List.subset_append_right (answers x.data.txRingBuf) y.heard)
    exact hthin.restart hpurge hfresh

theorem answer (hmsg : msg ∈ y.queued) (hid : msg.msgId < 32)
    (htaken : msg.reset = false → msg ∈ x.handed ∨ msg ∈ x.data.rxQueue) :
    Linked i { x with data := { x.data with txRingBuf := x.data.txRingBuf ++ [genAckResponse i msg] } } y where
  here := by
    refine ⟨h.here.leftOver, fun f hf => ?_, h.here.wire, h.here.sending, h.here.told⟩
    rcases List.mem_append.mp hf with hf | hf
    · exact h.here.ring f hf
    · exact List.mem_singleton.mp hf ▸ sent_genAckResponse hid
  there := h.there
  out := by
    have hline : messages (x.data.txRingBuf ++ [genAckResponse i msg]) = messages x.data.txRingBuf := by simp
    have hout := h.out
    unfold link line at hout ⊢
    rwa [hline]
  back := by
    refine (h.back.answer hmsg htaken).thin (List.Sublist.refl _) ?_
    show answers (x.data.txRingBuf ++ [genAckResponse i msg]) ++ y.heard ⊆ msg.no :: (answers x.data.txRingBuf ++ y.heard)
    intro n hn
    simp only [answers_append, answers_genAckResponse, List.mem_append, List.mem_cons, List.not_mem_nil, or_false] at hn ⊢
    tauto

theorem enqueue (hsent : msg.Sent i) (hack : msg.ack = false) (hno : msg.no = x.queued.length) :
    Linked i { x with data := { x.data with txQueue := x.data.txQueue ++ [msg] }, queued := x.queued ++ [msg] } y where
  here := by
    refine ⟨h.here.leftOver, h.here.ring, h.here.wire, fun f hf => ?_, h.here.told⟩
    have hf' : f ∈ (x.data.pending ++ x.data.txQueue) ++ [msg] := by
      rw [List.append_assoc]
      exact hf
    rcases List.mem_append.mp hf' with hf | hf
    · exact h.here.sending f hf
    · exact List.mem_singleton.mp hf ▸ ⟨hsent, hack⟩
  there := h.there
  out := by
    have hline : messages y.wire ++ (messages x.data.txRingBuf ++ (x.data.pending ++ (x.data.txQueue ++ [msg]))) =
        line x y ++ [msg] := by simp [line]
    have hout := h.out.enqueue (m := msg) hno
    unfold Link.enqueue at hout
    rw [show (link x y).line = line x y from rfl, ← hline] at hout
    exact hout
  back := h.back

theorem takeAck (hmine : Acked x.data → x.data.resendCache.reset = false → x.data.ackNo = some x.data.resendCache.no)
    (hring : x.data.txRingBuf = []) :
    Linked i
      { x with
        data := takeAck x.data
        retired := x.retired ++ if Acked x.data ∧ x.data.resendCache.reset = false then [x.data.resendCache] else [] }
      y := by
  by_cases hacked : x.data.msgPending = true ∧ x.data.ack = x.data.resendCache.msgId
  · have hall : Acked x.data := ⟨hring, hacked⟩
    have hpending : x.data.pending = [x.data.resendCache] := if_pos hacked.1
    have hmem : x.data.resendCache ∈ x.queued := by
      refine h.out.known _ (List.mem_append_right _ ?_)
      show x.data.resendCache ∈ line x y
      simp [line, hpending]
    have hline : (messages y.wire ++ (messages x.data.txRingBuf ++ ([] ++ x.data.txQueue))).Sublist (line x y) := by
      have hqueue : ([] ++ x.data.txQueue).Sublist (x.data.pending ++ x.data.txQueue) :=
        (List.nil_sublist _).append_right _
      exact (hqueue.append_left _).append_left _
    have hheard : answers y.data.txRingBuf ++ (answers x.wire ++ []) ⊆ answers y.data.txRingBuf ++ x.heard := by
      simp [Side.heard]
    rw [OneWireUart.takeAck, if_pos hacked]
    refine ⟨⟨h.here.leftOver, h.here.ring, h.here.wire, fun f hf => ?_, h.here.told⟩, h.there, ?_, h.back⟩
    · exact h.here.sending f (List.mem_append_right _ hf)
    · cases hreset : x.data.resendCache.reset
      · have hheld : x.data.resendCache.no ∈ answers y.data.txRingBuf ++ x.heard := by
          simp [Side.heard, hmine hall hreset]
        rw [if_pos ⟨hall, rfl⟩]
        exact (h.out.retire hmem hreset hheld).thin hline hheard
      · rw [if_neg (by simp), List.append_nil]
        exact h.out.thin hline hheard
  · have hnot : ¬Acked x.data := fun hall => hacked hall.2
    rw [OneWireUart.takeAck, if_neg hacked, if_neg fun hboth => hnot hboth.1, List.append_nil]
    exact h

theorem takeNext : Linked i { x with data := OneWireUart.takeNext x.data } y := by
  rw [OneWireUart.takeNext]
  split
  · exact h
  · rename_i hidle
    have hpending : x.data.pending = [] := if_neg hidle
    split
    · exact ⟨⟨h.here.leftOver, h.here.ring, h.here.wire, h.here.sending, h.here.told⟩, h.there, h.out, h.back⟩
    · rename_i msg queue hqueue
      have hsame : x.data.pending ++ x.data.txQueue = [msg] ++ queue := by rw [hpending, hqueue]; rfl
      have hsending := h.here.sending
      have hout := h.out
      unfold link line at hout
      rw [hsame] at hsending hout
      exact ⟨⟨h.here.leftOver, h.here.ring, h.here.wire, hsending, h.here.told⟩, h.there, hout, h.back⟩

theorem sendPending (hring : x.data.txRingBuf = [])
    (hrestart : x.data.msgPending = true → canSend now x.data → maxRetry ≤ x.data.retryCount → Restarts x y) :
    Linked i { x with data := OneWireUart.sendPending now x.data } y := by
  rw [OneWireUart.sendPending]
  split
  · exact h
  · rename_i hbusy
    have hpending : x.data.pending = [x.data.resendCache] := if_pos (by simpa using hbusy)
    split
    · rename_i hcan
      split
      · rename_i hmax
        obtain ⟨hpurge, hnot⟩ := hrestart (by simpa using hbusy) hcan hmax
        have hgone := h.restart hpurge (h.back.fresh_of_not_handed hnot) x.data
        exact ⟨⟨hgone.here.leftOver, hgone.here.ring, hgone.here.wire, hgone.here.sending, hgone.here.told⟩, h.there,
          hgone.out, hgone.back⟩
      · have hcache := h.here.sending x.data.resendCache (by simp [hpending])
        have hone : messages (x.data.txRingBuf ++ [x.data.resendCache]) = [x.data.resendCache] := by
          rw [hring, List.nil_append, messages_one, hcache.2]
          rfl
        have hline : (link x y).line = messages y.wire ++ x.data.resendCache :: x.data.txQueue := by
          show line x y = _
          rw [line, hring, hpending]
          rfl
        refine ⟨⟨h.here.leftOver, fun f hf => ?_, h.here.wire, h.here.sending, h.here.told⟩, h.there, ?_, ?_⟩
        · rcases List.mem_append.mp hf with hf | hf
          · exact h.here.ring f hf
          · exact List.mem_singleton.mp hf ▸ hcache.1
        · have hout := h.out.again hline
          have hnew : messages y.wire ++
              (messages (x.data.txRingBuf ++ [x.data.resendCache]) ++ (x.data.pending ++ x.data.txQueue)) =
                messages y.wire ++ x.data.resendCache :: x.data.resendCache :: x.data.txQueue := by
            rw [hone, hpending]
            rfl
          rw [← hnew] at hout
          exact hout
        · have hnone : answers (x.data.txRingBuf ++ [x.data.resendCache]) = answers x.data.txRingBuf := by
            simp [answers_one, hcache.2]
          have hback := h.back
          unfold link at hback ⊢
          rwa [hnone]
    · exact h

theorem transmit {ring : List Message} (hring : x.data.txRingBuf = msg :: ring) :
    Linked i { x with data := { x.data with txRingBuf := ring } } (y.hear [msg]) := by
  have hsplit : x.data.txRingBuf = [msg] ++ ring := hring
  have hmsg : msg.Sent i := h.here.ring msg (by simp [hring])
  refine ⟨⟨h.here.leftOver, fun f hf => h.here.ring f (by simp [hring, hf]), h.here.wire, h.here.sending, h.here.told⟩,
    ⟨h.there.leftOver, h.there.ring, fun f hf => ?_, h.there.sending, h.there.told⟩, ?_, ?_⟩
  · rcases List.mem_append.mp hf with hf | hf
    · exact h.there.wire f hf
    · rw [List.mem_singleton.mp hf, Bool.not_not]
      exact hmsg
  · have hline : messages (y.wire ++ [msg]) ++ (messages ring ++ (x.data.pending ++ x.data.txQueue)) = line x y := by
      rw [line, hsplit, messages_append, messages_append]
      simp only [List.append_assoc]
    have hout := h.out
    unfold link at hout
    rw [← hline] at hout
    exact hout
  · have hacked : answers ring ++ (answers (y.wire ++ [msg]) ++ y.data.ackNo.toList) ⊆
        answers x.data.txRingBuf ++ y.heard := by
      intro n hn
      simp only [hsplit, Side.heard, answers_append, List.mem_append] at hn ⊢
      tauto
    exact h.back.thin (List.Sublist.refl _) hacked

theorem process (hcb : x.data.msgReceivedCb = true) {r : List Message × Data} (hr : processPacket x.data = some r) :
    Linked i { x with data := r.2, handed := x.handed ++ r.1 } y := by
  rw [processPacket] at hr
  split at hr
  · cases hr
  · rename_i msg queue hqueue
    obtain rfl := Option.some.inj hr
    have hback := h.back.hand
    by_cases hcopy : x.data.lastReceivedMsgId = msg.msgId
    · rw [Link.hand_copy hqueue (h.here.last_tag.mpr hcopy)] at hback
      have hidle : ¬(x.data.lastReceivedMsgId ≠ msg.msgId ∧ x.data.msgReceivedCb = true) := fun hboth => hboth.1 hcopy
      simp only [if_neg hidle, List.append_nil]
      rw [← hcopy]
      exact ⟨⟨h.here.leftOver, h.here.ring, h.here.wire, h.here.sending, h.here.told⟩, h.there, h.out, hback⟩
    · rw [Link.hand_new hqueue fun htag => hcopy (h.here.last_tag.mp htag)] at hback
      simp only [if_pos (show x.data.lastReceivedMsgId ≠ msg.msgId ∧ x.data.msgReceivedCb = true from ⟨hcopy, hcb⟩)]
      refine ⟨⟨h.here.leftOver, h.here.ring, h.here.wire, h.here.sending, Or.inr ⟨msg, by simp, rfl⟩⟩, h.there, h.out, ?_⟩
      have hlast : (if (msg.msgId : Int) = -1 then none else (x.handed ++ [msg]).getLast?) = some msg := by
        rw [if_neg (by omega)]
        simp
      rw [← hlast] at hback
      exact hback

theorem receiveAck {wire : List Message} (hwire : x.wire = msg :: wire) (hack : msg.ack = true) :
    Linked i { x with wire := wire, data := { x.data with ack := msg.msgId, ackNo := some msg.no } } y := by
  have hthin := h.wire (sublist_of_cons hwire)
  refine ⟨⟨h.here.leftOver, h.here.ring, hthin.here.wire, h.here.sending, h.here.told⟩, h.there, ?_, hthin.back⟩
  have hheard : answers y.data.txRingBuf ++ (answers wire ++ [msg.no]) ⊆ answers y.data.txRingBuf ++ x.heard := by
    have hsplit : x.wire = [msg] ++ wire := hwire
    intro n hn
    simp only [Side.heard, hsplit, answers_append, answers_one, hack, if_pos, List.mem_append] at hn ⊢
    tauto
  exact h.out.thin (List.Sublist.refl _) hheard

theorem receiveReset {wire : List Message} (hwire : x.wire = msg :: wire) (hack : msg.ack = false)
    (hreset : msg.reset = true) (hpurge : Purges x y) :
    Linked i { x with wire := wire, data := rxMessage i msg x.data } y := by
  have hfront := line_front (y := y) hwire hack
  have hmsg : msg ∈ y.queued := by
    refine h.back.known msg (List.mem_append_right _ ?_)
    show msg ∈ line y x
    rw [hfront]
    exact List.mem_cons_self
  have hfresh := h.back.fresh_behind hfront hreset
  have hgone := (h.wire (sublist_of_cons hwire)).restart hpurge hfresh x.data
  have hid : msg.msgId < 32 := (h.here.wire msg (by simp [hwire])).id
  have hlast := hgone.answer hmsg hid (by simp [hreset])
  rw [rxMessage, if_neg (by simp [hack]), if_pos hreset]
  exact hlast

theorem receiveData {wire : List Message} (hwire : x.wire = msg :: wire) (hack : msg.ack = false)
    (hreset : msg.reset = false) (hwelcome : Welcome x msg) :
    Linked i { x with wire := wire, data := rxMessage i msg x.data } y := by
  have hfront := line_front (y := y) hwire hack
  have hmsg : msg ∈ y.queued := by
    refine h.back.known msg (List.mem_append_right _ ?_)
    show msg ∈ line y x
    rw [hfront]
    exact List.mem_cons_self
  have hid : msg.msgId < 32 := (h.here.wire msg (by simp [hwire])).id
  have hthin := h.wire (sublist_of_cons hwire)
  rw [rxMessage, if_neg (by simp [hack]), if_neg (by simp [hreset]), kMsgqPut]
  rw [Welcome] at hwelcome
  split at hwelcome
  · rename_i hroom
    have htake := h.back.take hfront hreset fun p hp htag => hwelcome p hp (by simpa [labels] using htag)
    rw [if_pos hroom, Option.getD_some]
    have htaken : Linked i { x with wire := wire, data := { x.data with rxQueue := x.data.rxQueue ++ [msg] } } y :=
      ⟨⟨h.here.leftOver, h.here.ring, hthin.here.wire, h.here.sending, h.here.told⟩, h.there, hthin.out, htake⟩
    exact htaken.answer hmsg hid fun _ => Or.inr (by simp)
  · rename_i hfull
    rw [if_neg hfull, Option.getD_none]
    exact hthin.answer hmsg hid fun _ => hwelcome

/-! ## Calls -/

theorem sendReset : Linked i
    { x with
      data := (oneWireUartSendReset i x.queued.length x.data).2
      queued := x.queued ++ (oneWireUartSendReset i x.queued.length x.data).1 } y := by
  rw [oneWireUartSendReset]
  split
  · rw [List.append_nil]
    exact h
  · rw [kMsgqPut]
    by_cases hroom : x.data.txQueue.length < queueSize
    · rw [if_pos hroom]
      exact h.enqueue ⟨rfl, Nat.zero_le _, Nat.zero_lt_succ _⟩ rfl rfl
    · rw [if_neg hroom, List.append_nil]
      exact h

theorem enabled (b : Bool) : Linked i { x with data := { x.data with enabled := b } } y :=
  ⟨⟨h.here.leftOver, h.here.ring, h.here.wire, h.here.sending, h.here.told⟩, h.there, h.out, h.back⟩

theorem restarts (hrestart : Restarts x y) (d : Data) : Linked i { x with data := oneWireUartReset d } y :=
  h.restart hrestart.1 (h.back.fresh_of_not_handed hrestart.2) d

theorem send {cmd : UInt8} {payload : List UInt8} (hsize : payload.length ≠ maxPayloadSize) :
    Linked i
      { x with
        data := (oneWireUartSend i x.queued.length cmd payload x.data).2
        queued := x.queued ++
          if (oneWireUartSend i x.queued.length cmd payload x.data).1 = .zero then
            [dataMessage i x.queued.length cmd payload x.data] else [] } y := by
  have hused : Linked i { x with data := { x.data with msgId := x.data.msgId + 1 } } y :=
    ⟨⟨h.here.leftOver, h.here.ring, h.here.wire, h.here.sending, h.here.told⟩, h.there, h.out, h.back⟩
  unfold oneWireUartSend kMsgqPut
  by_cases henabled : x.data.enabled = false
  · simpa [henabled] using h
  · by_cases hlong : maxPayloadSize < payload.length
    · simpa [henabled, hlong] using h
    · by_cases hroom : x.data.txQueue.length < queueSize
      · have hshort : (cmd :: payload).length ≤ maxPayloadSize := by
          rw [List.length_cons]
          omega
        have hsent : (dataMessage i x.queued.length cmd payload x.data).Sent i :=
          ⟨rfl, hshort, Nat.mod_lt _ (by decide)⟩
        have hqueued := hused.enqueue hsent rfl rfl
        simpa [henabled, hlong, hroom] using hqueued
      · simpa [henabled, hlong, hroom] using hused

theorem load
    (hmine : Acked x.data → x.data.resendCache.reset = false → x.data.ackNo = some x.data.resendCache.no)
    (hgives : GivesUp now x.data → Restarts x y) :
    Linked i
      { x with
        data := loadNextMessage now x.data
        retired := x.retired ++ if Acked x.data ∧ x.data.resendCache.reset = false then [x.data.resendCache] else [] }
      y := by
  rw [loadNextMessage]
  split
  · rename_i hring
    have hnot : ¬Acked x.data := fun hacked => hring hacked.1
    rw [if_neg fun hboth => hnot hboth.1, List.append_nil]
    exact ⟨⟨h.here.leftOver, h.here.ring, h.here.wire, h.here.sending, h.here.told⟩, h.there, h.out, h.back⟩
  · rename_i hring
    have hempty : x.data.txRingBuf = [] := not_not.mp hring
    have hnext := (h.takeAck hmine hempty).takeNext
    by_cases hwaits : x.data.msgPending = true ∧ x.data.ack ≠ x.data.resendCache.msgId
    · have hnot : ¬Acked x.data := fun hacked => hwaits.2 hacked.2.2
      rw [takeAck_of_ne hwaits.2, takeNext_of_pending hwaits.1, if_neg fun hboth => hnot hboth.1, List.append_nil]
      exact h.sendPending hempty fun hbusy hcan hmax => hgives ⟨hempty, hbusy, hnot, hcan, hmax⟩
    · have hzero : (OneWireUart.takeNext (OneWireUart.takeAck x.data)).retryCount = 0 := retryCount_takeNext hwaits
      refine hnext.sendPending ((txRingBuf_takeNext _).trans hempty) fun _ _ hmax => ?_
      rw [hzero] at hmax
      exact absurd hmax (by decide)

theorem receive {wire : List Message} (hwire : x.wire = msg :: wire)
    (hregular : x.data.enabled = true → msg.ack = false → if msg.reset = true then Purges x y else Welcome x msg) :
    Linked i { x with wire := wire, data := if x.data.enabled = true then rxFifo i msg x.data else x.data } y := by
  have hsent : msg.Sent !i := h.here.wire msg (by simp [hwire])
  split
  · rename_i henabled
    rw [rxFifo_eq h.here.leftOver hsent.short hsent.id, if_pos (by rw [hsent.sender]; cases i <;> decide)]
    cases hack : msg.ack
    · have hcase := hregular henabled hack
      cases hreset : msg.reset
      · rw [hreset] at hcase
        exact h.receiveData hwire hack hreset hcase
      · rw [hreset] at hcase
        exact h.receiveReset hwire hack hreset hcase
    · rw [rxMessage, if_pos hack]
      exact h.receiveAck hwire hack
  · exact h.wire (sublist_of_cons hwire)

theorem call {c : Call} {out : List Message} (hregular : RegularCall x y c)
    (hcall : OneWireUart.call i c x = some (out, x')) :
    Linked i x' (y.hear out) := by
  have hquiet : y.hear [] = y := by
    rw [Side.hear, List.append_nil]
  cases c with
  | enable =>
    cases hcall
    rw [hquiet, oneWireUartEnable]
    split
    · rw [List.append_nil]
      exact h
    · rename_i hoff
      exact ((h.enabled true).restarts (hregular (by simpa using hoff)) _).sendReset
  | disable =>
    cases hcall
    rw [hquiet, oneWireUartDisable]
    split
    · exact h
    · rename_i hon
      exact (h.enabled false).restarts (hregular (by simpa using hon)) _
  | setCallback =>
    cases hcall
    rw [hquiet]
    exact ⟨⟨h.here.leftOver, h.here.ring, h.here.wire, h.here.sending, h.here.told⟩, h.there, h.out, h.back⟩
  | send cmd payload =>
    cases hcall
    rw [hquiet]
    exact h.send hregular
  | load now =>
    cases hcall
    rw [hquiet]
    exact h.load hregular.1 hregular.2
  | transmit =>
    rw [OneWireUart.call] at hcall
    split at hcall
    · cases hcall
    · rename_i msg ring hring
      cases hcall
      exact h.transmit hring
  | lose k =>
    rw [OneWireUart.call] at hcall
    split at hcall
    · cases hcall
      rw [hquiet]
      exact h.wire (List.eraseIdx_sublist _ _)
    · cases hcall
  | receive =>
    rw [OneWireUart.call] at hcall
    split at hcall
    · cases hcall
    · rename_i msg wire hwire
      cases hcall
      rw [hquiet]
      exact h.receive hwire fun henabled hack => hregular henabled msg (by rw [hwire]; rfl) hack
  | process =>
    rw [OneWireUart.call, Option.map_eq_some_iff] at hcall
    obtain ⟨r, hr, heq⟩ := hcall
    cases heq
    rw [hquiet]
    exact h.process hregular hr
  | recover =>
    rw [OneWireUart.call] at hcall
    split at hcall
    · cases hcall
      rw [hquiet]
      have hsame : Linked i { x with data := { x.data with recovery := false } } y :=
        ⟨⟨h.here.leftOver, h.here.ring, h.here.wire, h.here.sending, h.here.told⟩, h.there, h.out, h.back⟩
      exact hsame.sendReset
    · cases hcall

end Linked

/-! ## Runs -/

@[simp] theorem System.side_set {s : System} : (s.set x i).side i = x := by cases i <;> rfl

theorem System.side_set_of_ne {s : System} {j : Bool} (hne : j ≠ i) : (s.set x i).side j = s.side j := by
  cases i <;> cases j <;> first | rfl | exact absurd rfl hne

theorem linked_initial : ∀ i, Linked i (System.initial.side i) (System.initial.side !i) := by
  have hwf : ∀ id, Side.initial.Wf id := fun id => by
    constructor <;> simp [Side.initial, Data.initial, Data.pending]
  intro i
  cases i <;> exact ⟨hwf _, hwf _, sound_empty, sound_empty⟩

theorem linked_step {s s' : System} {a : Bool × Call} (h : ∀ i, Linked i (s.side i) (s.side !i))
    (hregular : Regular (s, a)) (hstep : step a s = some s') : ∀ i, Linked i (s'.side i) (s'.side !i) := by
  obtain ⟨i, c⟩ := a
  rw [step, Option.map_eq_some_iff] at hstep
  obtain ⟨⟨out, x'⟩, hcall, rfl⟩ := hstep
  have hlinked := (h i).call hregular hcall
  have hhere : (((s.set x' i).set ((s.side !i).hear out) !i).side i) = x' := by
    rw [System.side_set_of_ne (by cases i <;> decide), System.side_set]
  have hthere : (((s.set x' i).set ((s.side !i).hear out) !i).side !i) = (s.side !i).hear out := System.side_set
  intro j
  by_cases hj : j = i
  · subst hj
    dsimp only at hhere hthere ⊢
    rw [hhere, hthere]
    exact hlinked
  · obtain rfl : j = !i := by cases i <;> cases j <;> first | rfl | exact absurd rfl hj
    dsimp only at hhere hthere ⊢
    rw [Bool.not_not, hhere, hthere]
    exact hlinked.symm

/-- What the link is for: the messages that the callback of one endpoint gets are some of those that the other one sent, in
their order and each once, and what the other one gave up as acknowledged was handed on once or waits. -/
def Delivered (x y : Side) : Prop :=
  y.handed.Sublist x.sent ∧ x.sent.Nodup ∧ ∀ m ∈ x.retired, y.handed.count m = 1 ∨ m ∈ y.data.rxQueue

theorem Linked.delivered (h : Linked i x y) : Delivered x y := by
  refine ⟨h.out.handed_sublist, h.out.nodup_queued.filter _, fun m hm => ?_⟩
  rcases h.out.retired m hm with hhanded | hwaits
  · exact Or.inl (List.count_eq_one_of_mem h.out.nodup_handed hhanded)
  · exact Or.inr hwaits

/-- As long as every step is regular, whatever gets lost and is repeated. -/
theorem regular_delivery {l : List (System × (Bool × Call))} {s : System} (h : Steps.Run step System.initial l s)
    (hregular : ∀ a ∈ l, Regular a) : ∀ i, Delivered (s.side i) (s.side !i) := by
  have hlinked : ∀ i, Linked i (s.side i) (s.side !i) :=
    h.invariant (P := fun s => ∀ i, Linked i (s.side i) (s.side !i)) linked_initial
      (fun s a s' hs ha hnext => linked_step hs ha hnext) hregular
  exact fun i => (hlinked i).delivered

/-- The RESET is sent twice and acknowledged twice. The second acknowledgement comes after the first message, which has
the same number and got lost. -/
def mistaken : List (Bool × Call) :=
  [(false, .enable), (true, .enable), (true, .setCallback), (false, .load 0), (false, .transmit), (false, .load 2500),
    (false, .transmit), (true, .receive), (true, .transmit), (true, .receive), (true, .transmit), (false, .receive),
    (false, .send 4 [1, 2]), (false, .load 5000), (false, .transmit), (true, .lose 0),
      (false, .receive), (false, .load 7500)]

theorem reset_acknowledgement_mistaken :
    ¬∀ l s, Steps.Run step System.initial l s → ∀ i, Delivered (s.side i) (s.side !i) := by
  intro h
  have hend : ((Steps.trace step mistaken ([], System.initial)).map fun r =>
      (r.2.zero.retired.length, r.2.one.handed, r.2.one.data.rxQueue)) = some (1, [], []) := by decide +kernel
  obtain ⟨r, hr, heq⟩ := Option.map_eq_some_iff.mp hend
  obtain ⟨hretired, hhanded, hwaits⟩ : r.2.zero.retired.length = 1 ∧ r.2.one.handed = [] ∧ r.2.one.data.rxQueue = [] := by
    simpa using heq
  obtain ⟨m, hm⟩ := List.length_eq_one_iff.mp hretired
  have hlost := (h _ _ (.of_trace .start hr) false).2.2 m (by rw [System.side, hm]; exact List.mem_singleton_self m)
  rw [Bool.not_false, System.side, hhanded, hwaits] at hlost
  simp at hlost

/-- The acknowledgement of the RESET comes before the first message. Of that one the frame gets lost, and then the
acknowledgement, so it comes twice. Another one follows it, and one goes the other way. -/
def exchange : List (Bool × Call) :=
  [(false, .enable), (true, .enable), (true, .setCallback), (false, .setCallback), (false, .load 0), (false, .transmit),
    (true, .receive), (true, .transmit), (false, .receive), (false, .send 4 [1, 2]), (false, .send 5 [3]),
    (false, .load 2500), (false, .transmit), (true, .lose 0),
    (false, .load 5000), (false, .transmit), (true, .receive), (true, .transmit), (false, .lose 0),
    (false, .load 7500), (false, .transmit), (true, .receive), (true, .process), (true, .process), (true, .transmit),
    (false, .receive), (false, .load 10000), (false, .transmit), (true, .receive), (true, .process), (true, .transmit),
    (false, .receive), (false, .load 12500),
    (true, .send 6 [4]), (true, .load 15000), (true, .transmit), (false, .receive), (false, .process), (false, .transmit),
    (true, .receive), (true, .load 17500)]

theorem regular_delivery_exchange :
    ∃ l s, Steps.Run step System.initial l s ∧ l.map Prod.snd = exchange ∧
      (s.zero.retired.length = 2 ∧ s.one.handed.map Message.payload = [[4, 1, 2], [5, 3]] ∧
        s.zero.handed.map Message.payload = [[6, 4]]) ∧ ∀ i, Delivered (s.side i) (s.side !i) := by
  have hend : (Steps.trace step exchange ([], System.initial)).any fun r => decide
      ((r.2.zero.retired.length = 2 ∧ r.2.one.handed.map Message.payload = [[4, 1, 2], [5, 3]] ∧
        r.2.zero.handed.map Message.payload = [[6, 4]]) ∧ ∀ a ∈ r.1, Regular a) := by decide +kernel
  obtain ⟨l, s, run, hlabels, hdone, hregular⟩ := Steps.exists_run hend
  exact ⟨l, s, run, hlabels, hdone, regular_delivery run hregular⟩

end ChromeEc.OneWireUart
