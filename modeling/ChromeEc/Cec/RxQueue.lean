import ChromeEc.Lib.Frames
import ChromeEc.Lib.Steps
import ChromeEc.Lib.Laps
import ChromeEc.Lib.Ring
import Mathlib.Data.BitVec

/- Received messages in `common/cec.c`.

  Each port has a queue of received messages: a ring of bytes in which a message is a byte
  with its length and then its bytes. The driver of the port, the state of the chipset and
  the board's policy for messages that come while the AP is off are given with each call.

  Correspondence (C ↔ Lean):
    `struct cec_rx_queue` ↔ `RxQueue`, the buffer a function of the offset
    `cec_rx_queue[port]` and
      `cec_mkbp_events[port]` ↔ `Port`, with what was done outside of this file
    the loop of `cec_rx_queue_push` ↔ `pushBytes`
    the loop of `cec_rx_queue_pop` ↔ `popBytes`
    `hc_cec_read`, for a port ↔ `hcCecRead`
    `CEC_CMD_ENABLE` of `hc_cec_set` ↔ `cecSetEnable`

  The receive queue gives back the messages it was given.

  `Queued` says which messages are in the queue and where: from the read offset on, each
  behind its length, up to the write offset, with at least one byte of the buffer left over.
  A push that fails has written only to bytes behind the write offset and ahead of the read
  offset, which belong to no message (`pushBytes_before`). -/
namespace ChromeEc.Cec
open Lib

/-- `CEC_RX_BUFFER_SIZE`. -/
abbrev rxBufferSize : Nat := 20

abbrev maxCecMsgLen : Nat := 16

abbrev Bytes := Nat → UInt8

/-- The values of `enum ec_error_list` that are returned. -/
inductive EcError where
  | success
  | overflow
  | inval
  | notHandled
  deriving DecidableEq

structure RxQueue where
  writeOffset : Nat
  readOffset : Nat
  buf : Bytes

def cecRxQueueFlush (q : RxQueue) : RxQueue := { q with readOffset := 0, writeOffset := 0 }

/-- `(offset + 1) % CEC_RX_BUFFER_SIZE`. -/
def nextOffset (offset : Nat) : Nat := (offset + 1) % rxBufferSize

/-- The bytes are stored from the offset on, until the read offset is met. -/
def pushBytes (readOffset : Nat) : List UInt8 → Nat → Bytes → EcError × Nat × Bytes
  | [], offset, buf => (.success, offset, buf)
  | b :: rest, offset, buf =>
    if offset = readOffset then
      (.overflow, offset, buf)
    else
      pushBytes readOffset rest (nextOffset offset) (setCell buf offset b)

def cecRxQueuePush (msg : Bytes) (msgLen : UInt8) (q : RxQueue) : EcError × RxQueue :=
  if maxCecMsgLen < msgLen.toNat ∨ msgLen = 0 then
    (.inval, q)
  else
    -- the length is filled in last
    let r := pushBytes q.readOffset (window msg 0 msgLen.toNat) (nextOffset q.writeOffset) (setCell q.buf q.writeOffset 0)
    if r.1 ≠ .success then
      (r.1, { q with buf := r.2.2 })
    else if r.2.1 = q.readOffset then
      -- the queue would look empty
      (.overflow, { q with buf := r.2.2 })
    else
      (.success, { q with buf := setCell r.2.2 q.writeOffset msgLen, writeOffset := r.2.1 })

/-- `n` bytes are left to take, the next one for place `i` of the message. -/
def popBytes : Nat → Nat → Bytes → RxQueue → Bytes × RxQueue
  | 0, _, msg, q => (msg, q)
  | n + 1, i, msg, q =>
    popBytes n (i + 1) (setCell msg i (q.buf q.readOffset)) { q with readOffset := nextOffset q.readOffset }

/-- What `cec_rx_queue_pop` returns, and what it stores for the caller. -/
structure Popped where
  rv : Int
  msg : Bytes
  msgLen : UInt8

def cecRxQueuePop (msg : Bytes) (q : RxQueue) : Popped × RxQueue :=
  if q.readOffset = q.writeOffset then
    (⟨-1, msg, 0⟩, q)
  else
    let msgLen := q.buf q.readOffset
    if msgLen = 0 ∨ maxCecMsgLen < msgLen.toNat then
      (⟨-1, msg, 0⟩, q)
    else
      let r := popBytes msgLen.toNat 0 msg { q with readOffset := nextOffset q.readOffset }
      (⟨0, r.1, msgLen⟩, r.2)

/-! ## A port -/

/-- What is done outside of this file. -/
inductive Effect where
  | powerButtonSimulatePress (ms : Nat)
  /-- `mkbp_send_event(EC_MKBP_EVENT_CEC_EVENT)`. -/
  | mkbpSendEvent
  deriving DecidableEq

structure Port where
  rxQueue : RxQueue
  mkbpEvents : BitVec 32
  effects : List Effect

/-- `enum cec_action`. -/
inductive Action where
  | none
  | powerButton
  deriving DecidableEq

/-- An entry of a `struct cec_offline_policy` table. -/
structure OfflinePolicy where
  command : UInt8
  action : Action

/-- The table ends where the command or the action is 0. -/
def cecFindAction (command : UInt8) : List OfflinePolicy → Action
  | [] => .none
  | p :: rest =>
    if p.command ≠ 0 ∧ p.action ≠ .none then
      if p.command = command then p.action else cecFindAction command rest
    else
      .none

/-- What a message finds when it arrives: whether the chipset is off, and the policy of the board, if any. -/
structure Env where
  chipsetOff : Bool
  offlinePolicy : Option (List OfflinePolicy)

def cecProcessOfflineMessage (e : Env) (msg : Bytes) (msgLen : UInt8) (p : Port) : EcError × Port :=
  if e.chipsetOff = false then
    (.notHandled, p)
  else if msgLen < 1 then
    (.inval, p)
  else if msgLen = 1 then
    (.success, p)
  else if cecFindAction (msg 1) (e.offlinePolicy.getD []) = .powerButton then
    (.success, { p with effects := p.effects ++ [.powerButtonSimulatePress 200] })
  else
    (.success, p)

def cecSendOk : BitVec 32 := 1
def cecSendFailed : BitVec 32 := 2
def cecHaveData : BitVec 32 := 4

def cecSendResults : BitVec 32 := cecSendOk ||| cecSendFailed

def sendMkbpEvent (event : BitVec 32) (p : Port) : Port :=
  let cleared :=
    if event &&& cecSendResults ≠ 0 ∧ p.mkbpEvents &&& cecSendResults ≠ 0 then
      p.mkbpEvents &&& ~~~cecSendResults
    else
      p.mkbpEvents
  { p with mkbpEvents := cleared ||| event, effects := p.effects ++ [.mkbpSendEvent] }

/-- What `get_received_message` of the driver gives, if it succeeds. -/
abbrev Received := Option (Bytes × UInt8)

def handleReceivedMessage (e : Env) (received : Received) (p : Port) : Port :=
  match received with
  | none => p
  | some (msg, msgLen) =>
    -- a message that is consumed offline is queued all the same
    let p := (cecProcessOfflineMessage e msg msgLen p).2
    let r := cecRxQueuePush msg msgLen p.rxQueue
    let r := if r.1 = .overflow then cecRxQueuePush msg msgLen (cecRxQueueFlush r.2) else r
    let p := { p with rxQueue := r.2 }
    if r.1 ≠ .success then p else sendMkbpEvent cecHaveData p

/-- `EC_RES_SUCCESS` with the response, or else `EC_RES_UNAVAILABLE`. -/
def hcCecRead (response : Bytes) (p : Port) : Option (Bytes × UInt8) × Port :=
  let r := cecRxQueuePop response p.rxQueue
  let p := { p with rxQueue := r.2 }
  if r.1.rv ≠ 0 then (none, p) else (some (r.1.msg, r.1.msgLen), p)

/-- Whether the port is enabled or disabled as asked. Disabling it clears the queue and the events. -/
def cecSetEnable (enable : UInt8) (driverSucceeds : Bool) (p : Port) : Bool × Port :=
  if enable ≠ 0 ∧ enable ≠ 1 then
    (false, p)
  else if driverSucceeds = false then
    (false, p)
  else if enable = 0 then
    (true, { p with rxQueue := ⟨0, 0, fun _ => 0⟩, mkbpEvents := 0 })
  else
    (true, p)

/-! ## Messages -/

variable {q : RxQueue} {m : List UInt8} {ms : List (List UInt8)} {msg : Bytes} {msgLen : UInt8}

def message (msg : Bytes) (msgLen : UInt8) : List UInt8 := window msg 0 msgLen.toNat

@[simp] theorem length_message : (message msg msgLen).length = msgLen.toNat := length_window _ _ _

/-- The bytes that messages take up in the buffer. -/
abbrev queueBytes (ms : List (List UInt8)) : List UInt8 := frames UInt8.ofNat ms

/-- A length that `cec_rx_queue_push` takes. -/
def Sized (n : Nat) : Prop := n ≤ maxCecMsgLen ∧ n ≠ 0

instance : DecidablePred Sized := fun _ => inferInstanceAs (Decidable (_ ∧ _))

structure Queued (q : RxQueue) (ms : List (List UInt8)) : Prop where
  read_lt : q.readOffset < rxBufferSize
  write_eq : q.writeOffset = (q.readOffset + (queueBytes ms).length) % rxBufferSize
  room : (queueBytes ms).length < rxBufferSize
  sized : ∀ m ∈ ms, Sized m.length
  framed : Framed UInt8.ofNat rxBufferSize q.buf q.readOffset ms

theorem Queued.empty {offset : Nat} {buf : Bytes} (h : offset < rxBufferSize) : Queued ⟨offset, offset, buf⟩ [] :=
  ⟨h, (Nat.mod_eq_of_lt h).symm, (by decide : 0 < rxBufferSize), fun _ hm => absurd hm List.not_mem_nil, .nil⟩

/-! ## Pushing -/

theorem nextOffset_add (h d : Nat) : nextOffset ((h + d) % rxBufferSize) = (h + (d + 1)) % rxBufferSize := by
  rw [nextOffset, Nat.mod_add_mod, Nat.add_assoc]

theorem offset_eq_iff {h d : Nat} (hh : h < rxBufferSize) (hpos : 0 < d) (hd : d ≤ rxBufferSize) :
    (h + d) % rxBufferSize = h ↔ d = rxBufferSize := by
  constructor
  · intro heq
    rcases Nat.lt_or_ge (h + d) rxBufferSize with hlt | hge
    · rw [Nat.mod_eq_of_lt hlt] at heq
      omega
    · rw [Nat.mod_eq_sub_mod hge, Nat.mod_eq_of_lt (by omega)] at heq
      omega
  · rintro rfl
    rw [Nat.add_mod_right, Nat.mod_eq_of_lt hh]

theorem ringAt_setCell {h d i : Nat} (buf : Bytes) (b : UInt8) (hi : i < rxBufferSize) (hd : d < rxBufferSize) :
    ringAt rxBufferSize (setCell buf ((h + d) % rxBufferSize) b) h i =
      if i = d then b else ringAt rxBufferSize buf h i :=
  ringAt_put buf b hi hd

/-- The places before the first that is written keep their bytes, however it ends. -/
theorem pushBytes_before {h d i : Nat} (l : List UInt8) (buf : Bytes) (hh : h < rxBufferSize) (hpos : 0 < d)
    (hd : d ≤ rxBufferSize) (hi : i < d) :
    ringAt rxBufferSize (pushBytes h l ((h + d) % rxBufferSize) buf).2.2 h i = ringAt rxBufferSize buf h i := by
  induction l generalizing d buf with
  | nil => rfl
  | cons b rest ih =>
    rw [pushBytes]
    split
    · rfl
    · rename_i hroom
      rw [offset_eq_iff hh hpos hd] at hroom
      rw [nextOffset_add, ih _ (Nat.succ_pos d) (by omega) (by omega), ringAt_setCell _ _ (by omega) (by omega),
        if_neg (by omega)]

theorem pushBytes_fits {h d : Nat} {l : List UInt8} (buf : Bytes) (hh : h < rxBufferSize) (hpos : 0 < d)
    (hfits : d + l.length ≤ rxBufferSize) :
    (pushBytes h l ((h + d) % rxBufferSize) buf).1 = .success ∧
      (pushBytes h l ((h + d) % rxBufferSize) buf).2.1 = (h + (d + l.length)) % rxBufferSize ∧
      Memory.Holds (ringAt rxBufferSize (pushBytes h l ((h + d) % rxBufferSize) buf).2.2 h) d l := by
  induction l generalizing d buf with
  | nil => exact ⟨rfl, rfl, Memory.holds_nil⟩
  | cons b rest ih =>
    rw [List.length_cons] at hfits
    have hroom : (h + d) % rxBufferSize ≠ h := by
      rw [Ne, offset_eq_iff hh hpos (by omega)]
      omega
    obtain ⟨hrv, hoffset, hheld⟩ := ih (setCell buf ((h + d) % rxBufferSize) b) (Nat.succ_pos d) (by omega)
    rw [pushBytes, if_neg hroom, nextOffset_add]
    refine ⟨hrv, ?_, ?_⟩
    · rw [hoffset, List.length_cons, Nat.add_assoc d 1, Nat.add_comm 1]
    · rw [Memory.holds_cons]
      refine ⟨?_, hheld⟩
      rw [pushBytes_before _ _ hh (Nat.succ_pos d) (by omega) (Nat.lt_succ_self d),
        ringAt_setCell _ _ (by omega) (by omega), if_pos rfl]

theorem pushBytes_overflow {h d : Nat} {l : List UInt8} (buf : Bytes) (hh : h < rxBufferSize) (hpos : 0 < d)
    (hd : d ≤ rxBufferSize) (hfull : rxBufferSize < d + l.length) :
    (pushBytes h l ((h + d) % rxBufferSize) buf).1 = .overflow := by
  induction l generalizing d buf with
  | nil =>
    rw [List.length_nil] at hfull
    omega
  | cons b rest ih =>
    rw [List.length_cons] at hfull
    rw [pushBytes]
    split
    · rfl
    · rename_i hroom
      rw [offset_eq_iff hh hpos hd] at hroom
      rw [nextOffset_add]
      exact ih _ (Nat.succ_pos d) (by omega) (by omega)

/-- A message fits if a byte of the buffer is left over. -/
def Fits (ms : List (List UInt8)) (n : Nat) : Prop := (queueBytes ms).length + 1 + n < rxBufferSize

instance {n : Nat} : Decidable (Fits ms n) := inferInstanceAs (Decidable (_ < _))

theorem push_inval (h : ¬Sized msgLen.toNat) : cecRxQueuePush msg msgLen q = (.inval, q) := by
  have hlen : maxCecMsgLen < msgLen.toNat ∨ msgLen = 0 := by
    rcases Nat.lt_or_ge maxCecMsgLen msgLen.toNat with hlong | hshort
    · exact .inl hlong
    · refine .inr (UInt8.toNat_inj.mp ?_)
      by_contra hne
      exact h ⟨hshort, hne⟩
  exact if_pos hlen

theorem push_sized (h : Sized msgLen.toNat) : ¬(maxCecMsgLen < msgLen.toNat ∨ msgLen = 0) := by
  rintro (hlong | rfl)
  · exact absurd h.1 (Nat.not_le_of_lt hlong)
  · exact h.2 rfl

theorem Queued.rewritten {buf : Bytes} (h : Queued q ms)
    (hsame : ∀ i, i < (queueBytes ms).length →
      ringAt rxBufferSize buf q.readOffset i = ringAt rxBufferSize q.buf q.readOffset i) :
    Queued { q with buf } ms :=
  ⟨h.read_lt, h.write_eq, h.room, h.sized, h.framed.congr hsame⟩

/-- The places of the queued messages keep their bytes while a message is stored. -/
theorem Queued.stored_before (h : Queued q ms) (l : List UInt8) {i : Nat} (hi : i < (queueBytes ms).length) :
    ringAt rxBufferSize (pushBytes q.readOffset l (nextOffset q.writeOffset) (setCell q.buf q.writeOffset 0)).2.2
      q.readOffset i = ringAt rxBufferSize q.buf q.readOffset i := by
  have hroom := h.room
  rw [h.write_eq, nextOffset_add, pushBytes_before _ _ h.read_lt (Nat.succ_pos _) (by omega) (by omega),
    ringAt_setCell _ _ (by omega) (by omega), if_neg (by omega)]

theorem Queued.push_overflow (h : Queued q ms) (hsized : Sized msgLen.toNat) (hfull : ¬Fits ms msgLen.toNat) :
    (cecRxQueuePush msg msgLen q).1 = .overflow ∧ Queued (cecRxQueuePush msg msgLen q).2 ms := by
  have hroom := h.room
  have hfull : rxBufferSize ≤ (queueBytes ms).length + 1 + msgLen.toNat := Nat.le_of_not_lt hfull
  have hlen : (window msg 0 msgLen.toNat).length = msgLen.toNat := length_window _ _ _
  have hkept : Queued { q with
      buf := (pushBytes q.readOffset (window msg 0 msgLen.toNat) (nextOffset q.writeOffset)
        (setCell q.buf q.writeOffset 0)).2.2 } ms :=
    h.rewritten fun i hi => h.stored_before _ hi
  unfold cecRxQueuePush
  rw [if_neg (push_sized hsized)]
  dsimp only
  split
  · rename_i hfailed
    refine ⟨?_, hkept⟩
    rcases Nat.lt_or_eq_of_le hfull with hlt | heq
    · rw [h.write_eq, nextOffset_add]
      exact pushBytes_overflow _ h.read_lt (Nat.succ_pos _) (by omega) (by omega)
    · refine absurd ?_ hfailed
      rw [h.write_eq, nextOffset_add]
      exact (pushBytes_fits _ h.read_lt (Nat.succ_pos _) (by omega)).1
  · rename_i hstored
    rcases Nat.lt_or_eq_of_le hfull with hlt | heq
    · refine absurd ?_ hstored
      rw [h.write_eq, nextOffset_add, pushBytes_overflow _ h.read_lt (Nat.succ_pos _) (by omega) (by omega)]
      exact EcError.noConfusion
    · have hcaught : (pushBytes q.readOffset (window msg 0 msgLen.toNat) (nextOffset q.writeOffset)
          (setCell q.buf q.writeOffset 0)).2.1 = q.readOffset := by
        rw [h.write_eq, nextOffset_add, (pushBytes_fits _ h.read_lt (Nat.succ_pos _) (by omega)).2.1,
          offset_eq_iff h.read_lt (by omega) (by omega)]
        omega
      rw [if_pos hcaught]
      exact ⟨rfl, hkept⟩

theorem Queued.push_success (h : Queued q ms) (hsized : Sized msgLen.toNat) (hfits : Fits ms msgLen.toNat) :
    (cecRxQueuePush msg msgLen q).1 = .success ∧
      Queued (cecRxQueuePush msg msgLen q).2 (ms ++ [message msg msgLen]) := by
  have hfits : (queueBytes ms).length + 1 + msgLen.toNat < rxBufferSize := hfits
  have hlen : (window msg 0 msgLen.toNat).length = msgLen.toNat := length_window _ _ _
  have hbefore := fun i hi => h.stored_before (window msg 0 msgLen.toNat) (i := i) hi
  obtain ⟨hrv, hoffset, hheld⟩ := pushBytes_fits (l := window msg 0 msgLen.toNat) (setCell q.buf q.writeOffset 0)
    h.read_lt (Nat.succ_pos (queueBytes ms).length) (by omega)
  rw [← nextOffset_add, ← h.write_eq] at hrv hoffset hheld
  have hmore : (pushBytes q.readOffset (window msg 0 msgLen.toNat) (nextOffset q.writeOffset)
      (setCell q.buf q.writeOffset 0)).2.1 ≠ q.readOffset := by
    rw [hoffset, Ne, offset_eq_iff h.read_lt (by omega) (by omega)]
    omega
  unfold cecRxQueuePush
  rw [if_neg (push_sized hsized)]
  dsimp only
  rw [if_neg (not_not.mpr hrv), if_neg hmore]
  refine ⟨rfl, ?_⟩
  generalize pushBytes q.readOffset (window msg 0 msgLen.toNat) (nextOffset q.writeOffset)
    (setCell q.buf q.writeOffset 0) = r at hbefore hoffset hheld
  -- the length is the last byte to be stored
  have hcommitted : ∀ i, i < rxBufferSize → ringAt rxBufferSize (setCell r.2.2 q.writeOffset msgLen) q.readOffset i =
      if i = (queueBytes ms).length then msgLen else ringAt rxBufferSize r.2.2 q.readOffset i := by
    intro i hi
    rw [h.write_eq]
    exact ringAt_setCell _ _ hi h.room
  refine ⟨h.read_lt, ?_, ?_, ?_, ?_⟩
  · rw [length_frames_snoc, length_message]
    show r.2.1 = _
    rw [hoffset, hlen]
  · rw [length_frames_snoc, length_message]
    exact hfits
  · intro m hm
    rw [List.mem_append, List.mem_singleton] at hm
    obtain hm | rfl := hm
    · exact h.sized m hm
    · rw [length_message]
      exact hsized
  · refine Framed.snoc (h.framed.congr ?_) ?_ ?_
    · intro i (hi : i < (queueBytes ms).length)
      rw [hcommitted i (by omega), if_neg (by omega)]
      exact hbefore i hi
    · rw [hcommitted _ h.room, if_pos rfl, length_message, UInt8.ofNat_toNat]
    · refine Memory.Holds.congr hheld fun i (hlo : (queueBytes ms).length + 1 ≤ i) hhi => ?_
      have hhi : i < (queueBytes ms).length + 1 + msgLen.toNat := hlen ▸ hhi
      rw [hcommitted i (by omega), if_neg (by omega)]

/-! ## Popping -/

theorem popBytes_eq (n i : Nat) (msg : Bytes) (h : q.readOffset < rxBufferSize) : popBytes n i msg q =
    (blit msg i (ringAt rxBufferSize q.buf q.readOffset) n,
      { q with readOffset := (q.readOffset + n) % rxBufferSize }) := by
  induction n generalizing i msg q with
  | zero => rw [popBytes, blit_zero, Nat.add_zero, Nat.mod_eq_of_lt h]
  | succ n ih =>
    have hnext : nextOffset q.readOffset < rxBufferSize := Nat.mod_lt _ (by decide)
    have hfirst : setCell msg i (q.buf q.readOffset) = blit msg i (ringAt rxBufferSize q.buf q.readOffset) 1 := by
      funext j
      unfold setCell blit
      split
      · rename_i hj
        rw [if_pos (by omega), hj, Nat.sub_self, ringAt, Nat.add_zero, Nat.mod_eq_of_lt h]
      · rw [if_neg (by omega)]
    have hrest : ringAt rxBufferSize q.buf (nextOffset q.readOffset) =
        fun a => ringAt rxBufferSize q.buf q.readOffset (1 + a) := by
      funext a
      rw [nextOffset, ringAt_mod (Nat.dvd_refl _), ringAt_add]
    rw [popBytes, ih _ _ hnext]
    show (blit (setCell msg i (q.buf q.readOffset)) (i + 1) (ringAt rxBufferSize q.buf (nextOffset q.readOffset)) n, _) = _
    rw [hfirst, hrest, blit_append, Nat.add_comm 1 n]
    congr 2
    rw [nextOffset, Nat.mod_add_mod, Nat.add_assoc, Nat.add_comm 1 n]

theorem Queued.pop_empty (h : Queued q []) : cecRxQueuePop msg q = (⟨-1, msg, 0⟩, q) := by
  have hsame : q.readOffset = q.writeOffset := by
    rw [h.write_eq]
    exact (Nat.mod_eq_of_lt h.read_lt).symm
  exact if_pos hsame

structure Gives (m : List UInt8) (msg : Bytes) (r : Popped) : Prop where
  rv : r.rv = 0
  length : r.msgLen.toNat = m.length
  bytes : message r.msg r.msgLen = m
  untouched : ∀ i, m.length ≤ i → r.msg i = msg i

theorem Queued.pop (h : Queued q (m :: ms)) (msg : Bytes) :
    Gives m msg (cecRxQueuePop msg q).1 ∧ Queued (cecRxQueuePop msg q).2 ms := by
  have hroom := h.room
  have hlength : (queueBytes (m :: ms)).length = 1 + m.length + (queueBytes ms).length := length_frames_cons
  have hsized : Sized m.length := h.sized m List.mem_cons_self
  have hshort : m.length ≤ 16 := hsized.1
  have hmore : q.readOffset ≠ q.writeOffset := by
    rw [h.write_eq]
    intro heq
    have := (offset_eq_iff h.read_lt (by omega) (by omega)).mp heq.symm
    omega
  obtain ⟨hcount, hheld⟩ := h.framed.first
  have hlen : q.buf q.readOffset = UInt8.ofNat m.length := by
    rw [← hcount, ringAt, Nat.add_zero, Nat.mod_eq_of_lt h.read_lt]
  have htoNat : (q.buf q.readOffset).toNat = m.length := by
    rw [hlen, UInt8.toNat_ofNat', Nat.mod_eq_of_lt (by omega)]
  have hnext : nextOffset q.readOffset < rxBufferSize := Nat.mod_lt _ (by decide)
  unfold cecRxQueuePop
  rw [if_neg hmore]
  dsimp only
  rw [if_neg (mt Or.symm (push_sized (htoNat.symm ▸ hsized))), htoNat, popBytes_eq _ _ _ hnext]
  dsimp only
  have hafter : (nextOffset q.readOffset + m.length) % rxBufferSize =
      (q.readOffset + (1 + m.length)) % rxBufferSize := by
    rw [nextOffset, Nat.mod_add_mod, Nat.add_assoc]
  refine ⟨⟨rfl, htoNat, ?_, fun i hi => blit_apply_of_notMem (by omega)⟩, ?_⟩
  · have hwindow : window (ringAt rxBufferSize q.buf q.readOffset) 1 m.length = m := Memory.read_eq_iff.mpr hheld
    show window _ 0 (q.buf q.readOffset).toNat = m
    refine Eq.trans ?_ hwindow
    rw [htoNat]
    apply window_congr
    intro i hi
    show blit msg 0 (ringAt rxBufferSize q.buf (nextOffset q.readOffset)) m.length (0 + i) = _
    rw [blit_apply_of_mem (by omega), nextOffset, ringAt_mod (Nat.dvd_refl _), ringAt_add, Nat.zero_add, Nat.sub_zero]
  · refine ⟨Nat.mod_lt _ (by decide), ?_, by omega, fun k hk => h.sized k (List.mem_cons_of_mem _ hk), ?_⟩
    · show q.writeOffset = ((nextOffset q.readOffset + m.length) % rxBufferSize + (queueBytes ms).length) % rxBufferSize
      rw [hafter, Nat.mod_add_mod, h.write_eq, hlength, Nat.add_assoc q.readOffset]
    · show Framed UInt8.ofNat rxBufferSize q.buf ((nextOffset q.readOffset + m.length) % rxBufferSize) ms
      rw [hafter]
      exact h.framed.rest

/-- The messages that at most `n` pops give. -/
def popAll : Nat → RxQueue → List (List UInt8)
  | 0, _ => []
  | n + 1, q =>
    let r := cecRxQueuePop (fun _ => 0) q
    if r.1.rv = 0 then message r.1.msg r.1.msgLen :: popAll n r.2 else []

/-- The messages that can be read from the queue. A buffer full of messages has less than one a byte. -/
def readable (q : RxQueue) : List (List UInt8) := popAll rxBufferSize q

theorem Queued.popAll {n : Nat} (h : Queued q ms) (hn : ms.length ≤ n) : popAll n q = ms := by
  induction n generalizing q ms with
  | zero => rw [Cec.popAll, List.eq_nil_of_length_eq_zero (Nat.le_zero.mp hn)]
  | succ n ih =>
    cases ms with
    | nil =>
      rw [Cec.popAll, h.pop_empty]
      rfl
    | cons m ms =>
      obtain ⟨hgives, hrest⟩ := h.pop fun _ => 0
      rw [Cec.popAll, if_pos hgives.rv, hgives.bytes, ih hrest (Nat.le_of_succ_le_succ hn)]

theorem Queued.readable (h : Queued q ms) : readable q = ms :=
  h.popAll (Nat.le_trans length_le_length_frames (Nat.le_of_lt h.room))

/-! ## A port -/

/-- A step of a port: `cec_rx_queue_push`, `cec_rx_queue_pop`, the host command that pops, the
message of the driver, or enabling and disabling. -/
inductive Call where
  | push (msg : Bytes) (msgLen : UInt8)
  | pop (msg : Bytes)
  | read (response : Bytes)
  | received (e : Env) (received : Received)
  | setEnable (enable : UInt8) (driverSucceeds : Bool)

def portStep : Call → Port → Option Port
  | .push msg msgLen, p => some { p with rxQueue := (cecRxQueuePush msg msgLen p.rxQueue).2 }
  | .pop msg, p => some { p with rxQueue := (cecRxQueuePop msg p.rxQueue).2 }
  | .read response, p => some (hcCecRead response p).2
  | .received e received, p => some (handleReceivedMessage e received p)
  | .setEnable enable driverSucceeds, p => some (cecSetEnable enable driverSucceeds p).2

def given (r : Popped) : List (List UInt8) := if r.rv = 0 then [message r.msg r.msgLen] else []

def queuedBy : Port × Call → List (List UInt8)
  | (p, .push msg msgLen) => if (cecRxQueuePush msg msgLen p.rxQueue).1 = .success then [message msg msgLen] else []
  | (_, .received _ (some (msg, msgLen))) => if Sized msgLen.toNat then [message msg msgLen] else []
  | _ => []

/-- The messages that a step takes out of the queue: it returns one, or it drops them all. -/
def takenBy : Port × Call → List (List UInt8)
  | (p, .pop msg) => given (cecRxQueuePop msg p.rxQueue).1
  | (p, .read response) => given (cecRxQueuePop response p.rxQueue).1
  | (p, .received _ (some (msg, msgLen))) =>
    if (cecRxQueuePush msg msgLen p.rxQueue).1 = .overflow then readable p.rxQueue else []
  | (p, .setEnable enable driverSucceeds) =>
    if enable = 0 ∧ driverSucceeds = true then readable p.rxQueue else []
  | _ => []

theorem offline_rxQueue (e : Env) (p : Port) : (cecProcessOfflineMessage e msg msgLen p).2.rxQueue = p.rxQueue := by
  unfold cecProcessOfflineMessage
  split
  · rfl
  split
  · rfl
  split
  · rfl
  split
  · rfl
  · rfl

theorem received_rxQueue (e : Env) (p : Port) : (handleReceivedMessage e (some (msg, msgLen)) p).rxQueue =
    if (cecRxQueuePush msg msgLen p.rxQueue).1 = .overflow then
      (cecRxQueuePush msg msgLen (cecRxQueueFlush (cecRxQueuePush msg msgLen p.rxQueue).2)).2
    else (cecRxQueuePush msg msgLen p.rxQueue).2 := by
  unfold handleReceivedMessage
  simp only [offline_rxQueue]
  by_cases hfull : (cecRxQueuePush msg msgLen p.rxQueue).1 = .overflow
  · simp only [if_pos hfull]
    split
    · rfl
    · rfl
  · simp only [if_neg hfull]
    split
    · rfl
    · rfl

theorem fits_nil {n : Nat} (h : Sized n) : Fits [] n := by
  have hshort : n ≤ 16 := h.1
  show 0 + 1 + n < 20
  omega

theorem push_cases (msg : Bytes) (msgLen : UInt8) (h : Queued q ms) :
    (¬Sized msgLen.toNat ∧ cecRxQueuePush msg msgLen q = (.inval, q)) ∨
    (Sized msgLen.toNat ∧ ¬Fits ms msgLen.toNat ∧ (cecRxQueuePush msg msgLen q).1 = .overflow ∧
      Queued (cecRxQueuePush msg msgLen q).2 ms) ∨
    (Sized msgLen.toNat ∧ Fits ms msgLen.toNat ∧ (cecRxQueuePush msg msgLen q).1 = .success ∧
      Queued (cecRxQueuePush msg msgLen q).2 (ms ++ [message msg msgLen])) := by
  by_cases hsized : Sized msgLen.toNat
  · by_cases hfits : Fits ms msgLen.toNat
    · exact .inr (.inr ⟨hsized, hfits, h.push_success hsized hfits⟩)
    · exact .inr (.inl ⟨hsized, hfits, h.push_overflow hsized hfits⟩)
  · exact .inl ⟨hsized, push_inval hsized⟩

theorem Queued.push_failed (h : Queued q ms) (hfailed : (cecRxQueuePush msg msgLen q).1 ≠ .success) :
    Queued (cecRxQueuePush msg msgLen q).2 ms := by
  obtain ⟨-, hinval⟩ | ⟨-, -, -, hkept⟩ | ⟨-, -, hsuccess, -⟩ := push_cases msg msgLen h
  · rw [hinval]
    exact h
  · exact hkept
  · exact absurd hsuccess hfailed

/-- After a message was received it is the newest, and the only one where the queue overflowed. -/
theorem Queued.received {p : Port} (e : Env) (h : Queued p.rxQueue ms) (hsized : Sized msgLen.toNat) :
    Queued (handleReceivedMessage e (some (msg, msgLen)) p).rxQueue
      ((if (cecRxQueuePush msg msgLen p.rxQueue).1 = .overflow then [] else ms) ++ [message msg msgLen]) := by
  rw [received_rxQueue]
  obtain ⟨hnot, -⟩ | ⟨-, -, hoverflow, -⟩ | ⟨-, -, hsuccess, hqueued⟩ := push_cases msg msgLen h
  · exact absurd hsized hnot
  · have hflushed : Queued (cecRxQueueFlush (cecRxQueuePush msg msgLen p.rxQueue).2) [] := .empty (by decide)
    rw [if_pos hoverflow, if_pos hoverflow]
    exact (hflushed.push_success hsized (fits_nil hsized)).2
  · have hroom : (cecRxQueuePush msg msgLen p.rxQueue).1 ≠ .overflow := by
      rw [hsuccess]
      exact EcError.noConfusion
    rw [if_neg hroom, if_neg hroom]
    exact hqueued

/-! ## Runs -/

variable {start p p' : Port} {l : List (Port × Call)} {call : Call}

theorem Queued.popped (h : Queued q ms) (msg : Bytes) :
    ∃ ms', Queued (cecRxQueuePop msg q).2 ms' ∧ given (cecRxQueuePop msg q).1 ++ ms' = ms := by
  cases ms with
  | nil =>
    rw [h.pop_empty]
    exact ⟨[], h, rfl⟩
  | cons m ms =>
    obtain ⟨hgives, hrest⟩ := h.pop msg
    refine ⟨ms, hrest, ?_⟩
    rw [given, if_pos hgives.rv, hgives.bytes]
    rfl

theorem read_rxQueue (response : Bytes) (p : Port) :
    (hcCecRead response p).2.rxQueue = (cecRxQueuePop response p.rxQueue).2 := by
  unfold hcCecRead
  dsimp only
  split
  · rfl
  · rfl

/-- Every message that a step takes out is older than those that stay, and these are older than the
one it puts in. -/
theorem Queued.step (h : Queued p.rxQueue ms) (hstep : portStep call p = some p') :
    ∃ ms', Queued p'.rxQueue ms' ∧ takenBy (p, call) ++ ms' = ms ++ queuedBy (p, call) := by
  cases call with
  | push msg msgLen =>
    cases hstep
    by_cases hsuccess : (cecRxQueuePush msg msgLen p.rxQueue).1 = .success
    · obtain ⟨-, hinval⟩ | ⟨-, -, hoverflow, -⟩ | ⟨-, -, -, hqueued⟩ := push_cases msg msgLen h
      · rw [hinval] at hsuccess
        cases hsuccess
      · rw [hoverflow] at hsuccess
        cases hsuccess
      · refine ⟨_, hqueued, ?_⟩
        rw [queuedBy, if_pos hsuccess]
        rfl
    · refine ⟨ms, h.push_failed hsuccess, ?_⟩
      rw [queuedBy, if_neg hsuccess, List.append_nil]
      rfl
  | pop msg =>
    cases hstep
    obtain ⟨ms', hrest, htaken⟩ := h.popped msg
    exact ⟨ms', hrest, htaken.trans (List.append_nil ms).symm⟩
  | read response =>
    cases hstep
    obtain ⟨ms', hrest, htaken⟩ := h.popped response
    refine ⟨ms', ?_, htaken.trans (List.append_nil ms).symm⟩
    rw [read_rxQueue]
    exact hrest
  | received e received =>
    cases hstep
    cases received with
    | none => exact ⟨ms, h, (List.append_nil ms).symm⟩
    | some x =>
      obtain ⟨msg, msgLen⟩ := x
      by_cases hsized : Sized msgLen.toNat
      · refine ⟨_, h.received e hsized, ?_⟩
        rw [takenBy, queuedBy, if_pos hsized, h.readable]
        split
        · rfl
        · rfl
      · refine ⟨ms, ?_, ?_⟩
        · rw [received_rxQueue, push_inval hsized, if_neg EcError.noConfusion]
          exact h
        · rw [takenBy, queuedBy, push_inval hsized, if_neg EcError.noConfusion, if_neg hsized, List.append_nil]
          rfl
  | setEnable enable driverSucceeds =>
    cases hstep
    have htaken : takenBy (p, .setEnable enable driverSucceeds) =
        if enable = 0 ∧ driverSucceeds = true then Cec.readable p.rxQueue else [] := rfl
    rw [htaken]
    by_cases hcleared : enable = 0 ∧ driverSucceeds = true
    · refine ⟨[], ?_, ?_⟩
      · obtain ⟨rfl, rfl⟩ := hcleared
        exact .empty (by decide)
      · rw [if_pos hcleared, h.readable]
        rfl
    · refine ⟨ms, ?_, ?_⟩
      · unfold cecSetEnable
        split
        · exact h
        split
        · exact h
        · rename_i hsucceeds
          rw [if_neg fun hzero => hcleared ⟨hzero, by simpa using hsucceeds⟩]
          exact h
      · rw [if_neg hcleared]
        exact (List.append_nil ms).symm

theorem run_queued (hstart : Queued start.rxQueue []) (h : Steps.Run portStep start l p) :
    ∃ ms, Queued p.rxQueue ms ∧ l.flatMap takenBy ++ ms = l.flatMap queuedBy := by
  induction h with
  | start => exact ⟨[], hstart, rfl⟩
  | @step l p p' call run hnext ih =>
    obtain ⟨ms, hqueued, hsame⟩ := ih
    obtain ⟨ms', hqueued', hsame'⟩ := hqueued.step hnext
    refine ⟨ms', hqueued', ?_⟩
    calc (l ++ [(p, call)]).flatMap takenBy ++ ms'
        = l.flatMap takenBy ++ (takenBy (p, call) ++ ms') := by simp [List.flatMap_append]
      _ = l.flatMap takenBy ++ (ms ++ queuedBy (p, call)) := by rw [hsame']
      _ = l.flatMap queuedBy ++ queuedBy (p, call) := by rw [← List.append_assoc, hsame]
      _ = (l ++ [(p, call)]).flatMap queuedBy := by simp [List.flatMap_append]

/-- Wherever the offsets of the empty queue are at first: in every run the messages come out in the
order and with the bytes with which they went in, a push that fails leaves the messages, and a
message that was received is the newest. -/
theorem cec_rx_queue_messages {offset : Nat} {buf : Bytes} {mkbpEvents : BitVec 32} {effects : List Effect}
    (hoffset : offset < rxBufferSize)
    (h : Steps.Run portStep ⟨⟨offset, offset, buf⟩, mkbpEvents, effects⟩ l p) :
    l.flatMap takenBy ++ readable p.rxQueue = l.flatMap queuedBy ∧
    (readable p.rxQueue = [] → ∀ msg, cecRxQueuePop msg p.rxQueue = (⟨-1, msg, 0⟩, p.rxQueue)) ∧
    (∀ m ms, readable p.rxQueue = m :: ms →
      ∀ msg, Gives m msg (cecRxQueuePop msg p.rxQueue).1 ∧ readable (cecRxQueuePop msg p.rxQueue).2 = ms) ∧
    (∀ msg msgLen, (cecRxQueuePush msg msgLen p.rxQueue).1 ≠ .success →
      readable (cecRxQueuePush msg msgLen p.rxQueue).2 = readable p.rxQueue) ∧
    (∀ e msg msgLen, Sized msgLen.toNat → readable (handleReceivedMessage e (some (msg, msgLen)) p).rxQueue =
      (if (cecRxQueuePush msg msgLen p.rxQueue).1 = .overflow then [] else readable p.rxQueue) ++
        [message msg msgLen]) := by
  obtain ⟨ms, hqueued, hsame⟩ := run_queued (.empty hoffset) h
  rw [hqueued.readable]
  refine ⟨hsame, ?_, ?_, ?_, ?_⟩
  · rintro rfl msg
    exact hqueued.pop_empty
  · rintro m rest rfl msg
    exact ⟨(hqueued.pop msg).1, (hqueued.pop msg).2.readable⟩
  · intro msg msgLen hfailed
    exact (hqueued.push_failed hfailed).readable
  · intro e msg msgLen hsized
    exact (hqueued.received e hsized).readable

/-- A message of 16 bytes that goes around the end of the buffer. -/
theorem cec_rx_queue_messages_around : ∃ l p, Steps.Run portStep ⟨⟨15, 15, fun _ => 0xff⟩, 0, []⟩ l p ∧
    readable p.rxQueue = [message (fun i => .ofNat i) 16] := by
  have hrun : Steps.Run portStep ⟨⟨15, 15, fun _ => 0xff⟩, 0, []⟩ [(_, .push (fun i => .ofNat i) 16)] _ :=
    .step .start rfl
  exact ⟨_, _, hrun, (cec_rx_queue_messages (by decide) hrun).1⟩

end ChromeEc.Cec
