import ChromeEc.OneWireUart.Delivery
import Mathlib.Data.List.DropRight

/- The frames of the one-wire link in the bytes that come in: `process_rx_fifo` in
  `zephyr/drivers/one_wire_uart/one_wire_uart.c`, called after each read of the UART.

  A frame is delivered when it is cut into chunks in any way and comes to an endpoint that has
  no bytes left over and room for the message (`Delivers`). A frame with a byte other than the
  magic and the length changed is refused (`Refuses`): the checksum of what is left differs
  modulo 0xFFFF, by at most 255 or 255 * 256. Whatever the bytes are, the loop comes to an end
  with too few of them for a frame, and peeks no more bytes than there are (`Resyncs`).

  The sender takes 80 bytes beside the command, and the receiver 80 bytes with it. -/
namespace ChromeEc.OneWireUart

/-- Nothing is left over of earlier bytes, and the message can be queued. -/
structure Idle (d : Data) : Prop where
  ring : d.rxRingBuf = []
  room : d.rxQueue.length < queueSize

def receive (i : Bool) (no : Nat) (d : Data) (chunk : List UInt8) : Data := processRxFifo i no (loadRxFifo chunk d)

/-- The message is queued once with its command and payload, and nothing is left over. -/
def Delivers (i : Bool) (cmd : UInt8) (payload : List UInt8) (msg : Message) : Prop :=
  ∀ (no : Nat) (d : Data) (chunks : List (List UInt8)), Idle d → chunks.flatten = msg.frame →
    ∃ m : Message, m.payload = cmd :: payload ∧ (chunks.foldl (receive i no) d).rxQueue = d.rxQueue ++ [m] ∧
      (chunks.foldl (receive i no) d).rxRingBuf = []

/-- A byte behind the length is changed. -/
def Refuses (msg : Message) : Prop :=
  ∀ (no k : Nat) (b : UInt8) (rest : List UInt8), 2 ≤ k → k < msg.frame.length → b ≠ msg.frame.getD k 0 →
    scan no (msg.frame.set k b ++ rest) = .bad

/-- How many bytes a round peeks. -/
def peeks (ring : List UInt8) : List Nat :=
  let payloadLen := (ring.getD 1 0).toNat
  if ring.length < headerSize then []
  else if maxPayloadSize < payloadLen then [headerSize]
  else if ring.length < headerSize + payloadLen then [headerSize]
  else [headerSize, headerSize + payloadLen]

/-- The loop ends, as the bytes that it leaves are not a frame and are fewer than the longest one has; what it peeks are
bytes that were received, no more than there is room for in a message, and the message it finds is among them. -/
structure Resyncs (i : Bool) (no : Nat) (d : Data) : Prop where
  ends : scan no (findHeader (processRxFifo i no d).rxRingBuf) = .incomplete
  left : (processRxFifo i no d).rxRingBuf.length < headerSize + maxPayloadSize
  peeked : ∀ ring, ∀ n ∈ peeks ring, n ≤ ring.length ∧ n ≤ headerSize + (maxPayloadSize + 1)
  found : ∀ ring msg, scan no ring = .packet msg →
    msgLen msg ∈ peeks ring ∧ msg = parse no (ring.take (msgLen msg)) ∧ verifyChecksum (ring.take (msgLen msg)) = true

variable {i : Bool} {d : Data} {msg : Message} {no k sum rounds : Nat} {b : UInt8} {bytes ring rest : List UInt8}

/-! ## A byte that is changed -/

/-- What a byte counts in its word. -/
def weight (k : Nat) : Nat := if k % 2 = 0 then 1 else 256

theorem wordSum_set (h : k < bytes.length) :
    wordSum (bytes.set k b) + weight k * (bytes.getD k 0).toNat = wordSum bytes + weight k * b.toNat := by
  induction bytes using wordSum.induct generalizing k with
  | case1 => cases h
  | case2 a =>
    obtain rfl : k = 0 := by simpa using h
    simp [wordSum, weight, Nat.add_comm]
  | case3 a c rest ih =>
    obtain _ | _ | k := k
    · simp [wordSum, weight]
      omega
    · simp [wordSum, weight]
      omega
    · have hrec := ih (by simpa using h)
      have hweight : weight (k + 2) = weight k := by simp [weight]
      simp only [List.set_cons_succ, List.getD_cons_succ, wordSum, hweight]
      omega

theorem foldCarry_mod : foldCarry rounds sum % 0xFFFF = sum % 0xFFFF := by
  induction rounds generalizing sum with
  | zero => rfl
  | succ rounds ih =>
    rw [foldCarry]
    split
    · rw [ih]
      omega
    · rfl

theorem checksum_set_ne (h : k < bytes.length) (hb : b ≠ bytes.getD k 0) : checksum (bytes.set k b) ≠ checksum bytes := by
  intro heq
  have hmod := congrArg (· % 0xFFFF) heq
  simp only [checksum, foldCarry_mod] at hmod
  have hsum := @wordSum_set k b bytes h
  have hold := (bytes.getD k 0).toNat_lt
  have hnew := b.toNat_lt
  have hne : b.toNat ≠ (bytes.getD k 0).toNat := fun hsame => hb (UInt8.toNat_inj.mp hsame)
  rw [weight] at hsum
  split at hsum <;> omega

theorem checksum_bytes (h : sum ≤ 0xFFFF) : (UInt8.ofNat sum).toNat + 256 * (UInt8.ofNat (sum / 256)).toNat = sum := by
  simp only [UInt8.toNat_ofNat']
  omega

theorem verifyChecksum_set (hlen : msg.payload.length ≤ maxPayloadSize) (hk : 2 ≤ k) (hlt : k < msg.frame.length)
    (hb : b ≠ msg.frame.getD k 0) : verifyChecksum (msg.frame.set k b) = false := by
  have hsum : checksum (msg.layout 0) ≤ 0xFFFF := checksum_le (by simp [msgLen]; omega)
  have hlow : msg.frame.getD 2 0 = UInt8.ofNat (checksum (msg.layout 0)) := rfl
  have hhigh : msg.frame.getD 3 0 = UInt8.ofNat (checksum (msg.layout 0) / 256) := rfl
  have hbytes := checksum_bytes hsum
  rw [← hlow, ← hhigh] at hbytes
  rw [← Bool.not_eq_true, verifyChecksum, beq_iff_eq]
  obtain rfl | rfl | hfour : k = 2 ∨ k = 3 ∨ 4 ≤ k := by omega
  · have hzero : ((msg.frame.set 2 b).set 2 0).set 3 0 = msg.layout 0 := rfl
    have hsame : (msg.frame.set 2 b).getD 3 0 = msg.frame.getD 3 0 := rfl
    have hchanged : (msg.frame.set 2 b).getD 2 0 = b := rfl
    have hne : b.toNat ≠ (msg.frame.getD 2 0).toNat := fun heq => hb (UInt8.toNat_inj.mp heq)
    rw [hzero, hsame, hchanged]
    omega
  · have hzero : ((msg.frame.set 3 b).set 2 0).set 3 0 = msg.layout 0 := rfl
    have hsame : (msg.frame.set 3 b).getD 2 0 = msg.frame.getD 2 0 := rfl
    have hchanged : (msg.frame.set 3 b).getD 3 0 = b := rfl
    have hne : b.toNat ≠ (msg.frame.getD 3 0).toNat := fun heq => hb (UInt8.toNat_inj.mp heq)
    rw [hzero, hsame, hchanged]
    omega
  · obtain ⟨k, rfl⟩ := Nat.exists_eq_add_of_le' hfour
    have hzero : ((msg.frame.set (k + 4) b).set 2 0).set 3 0 = (msg.layout 0).set (k + 4) b := rfl
    have hsame : (msg.frame.set (k + 4) b).getD 2 0 = msg.frame.getD 2 0 := rfl
    have hsame' : (msg.frame.set (k + 4) b).getD 3 0 = msg.frame.getD 3 0 := rfl
    have hbyte : msg.frame.getD (k + 4) 0 = (msg.layout 0).getD (k + 4) 0 := rfl
    rw [hzero, hsame, hsame', hbytes]
    rw [length_frame] at hlt
    exact checksum_set_ne (by rwa [length_layout]) (hbyte ▸ hb)

theorem payloadLen_frame (h : msg.payload.length ≤ maxPayloadSize + 1) (hk : 2 ≤ k) :
    ((msg.frame.set k b ++ rest).getD 1 0).toNat = msg.payload.length := by
  have hbyte : (msg.frame.set k b ++ rest).getD 1 0 = UInt8.ofNat msg.payload.length := by
    match k, hk with
    | k + 2, _ => rfl
  have hsize : maxPayloadSize = 80 := rfl
  rw [hbyte, UInt8.toNat_ofNat']
  omega

theorem refuses (h : msg.payload.length ≤ maxPayloadSize + 1) : Refuses msg := by
  intro no k b rest hk hlt hb
  have hlen : (msg.frame.set k b).length = msgLen msg := by rw [List.length_set, length_frame]
  simp only [scan, payloadLen_frame h hk, List.length_append, hlen]
  rw [if_neg (by rw [msgLen]; omega)]
  by_cases hlong : maxPayloadSize < msg.payload.length
  · rw [if_pos hlong]
  · have hshort := Nat.le_of_not_lt hlong
    have htake : (msg.frame.set k b ++ rest).take (headerSize + msg.payload.length) = msg.frame.set k b := by
      rw [← msgLen, ← hlen, List.take_left]
    rw [if_neg hlong, if_neg (by rw [msgLen]; omega), htake,
      verifyChecksum_set hshort hk hlt hb, if_neg Bool.false_ne_true]

/-! ## What is left of the bytes -/

theorem scan_incomplete (h : scan no ring = .incomplete) : ring.length < headerSize + maxPayloadSize := by
  simp only [scan] at h
  have hsize : maxPayloadSize = 80 := rfl
  split_ifs at h <;> omega

theorem scan_length (h : scan no ring ≠ .incomplete) : headerSize ≤ ring.length := by
  by_contra hshort
  rw [scan] at h
  exact h (if_pos (Nat.lt_of_not_le hshort))

theorem scan_packet (h : scan no ring = .packet msg) : msg.payload.length ≤ maxPayloadSize ∧ msgLen msg ∈ peeks ring ∧
    msg = parse no (ring.take (msgLen msg)) ∧ verifyChecksum (ring.take (msgLen msg)) = true := by
  simp only [scan] at h
  split_ifs at h with hheader hlong hwhole hverify
  have hmsg := (Scan.packet.inj h).symm
  have hpayload : msg.payload.length = (ring.getD 1 0).toNat := by
    rw [hmsg, parse, List.length_drop, List.length_take]
    omega
  have hlen : headerSize + (ring.getD 1 0).toNat = msgLen msg := by rw [msgLen, hpayload]
  rw [hlen] at hmsg hverify
  refine ⟨by omega, ?_, hmsg, hverify⟩
  simp only [peeks]
  rw [if_neg hheader, if_neg hlong, if_neg hwhole, hlen]
  exact List.mem_cons_of_mem _ (List.mem_singleton_self _)

theorem peeks_le {n : Nat} (h : n ∈ peeks ring) : n ≤ ring.length ∧ n ≤ headerSize + (maxPayloadSize + 1) := by
  simp only [peeks] at h
  split_ifs at h
  · cases h
  · obtain rfl := List.mem_singleton.mp h
    omega
  · obtain rfl := List.mem_singleton.mp h
    omega
  · rcases List.mem_pair.mp h with rfl | rfl <;> omega

theorem length_findHeader : (findHeader ring).length ≤ ring.length := (List.dropWhile_sublist _).length_le

theorem findHeader_findHeader : findHeader (findHeader ring) = findHeader ring := List.dropWhile_idempotent ..

theorem rxMessage_ring (i : Bool) (msg : Message) (d : Data) :
    (rxMessage i msg d).rxRingBuf.length ≤ d.rxRingBuf.length := by
  unfold rxMessage
  split
  · exact le_refl _
  · split
    · exact Nat.zero_le _
    · exact le_refl _

theorem rxMessage_queue {m : Message} (h : m ∈ (rxMessage i msg d).rxQueue) : m ∈ d.rxQueue ∨ m = msg := by
  unfold rxMessage at h
  split at h
  · exact Or.inl h
  · split at h
    · cases h
    · simp only [kMsgqPut] at h
      split at h
      · simpa using h
      · exact Or.inl h

theorem found_state (i : Bool) (msg : Message) (d : Data) :
    (if msg.sender ≠ i then rxMessage i msg d else d).rxRingBuf.length ≤ d.rxRingBuf.length ∧
      ∀ m ∈ (if msg.sender ≠ i then rxMessage i msg d else d).rxQueue, m ∈ d.rxQueue ∨ m = msg := by
  split
  · exact ⟨rxMessage_ring i msg d, fun m hm => rxMessage_queue hm⟩
  · exact ⟨le_refl _, fun m hm => Or.inl hm⟩

theorem rxLoop_ends (h : d.rxRingBuf.length < rounds) :
    let ring := (rxLoop i no rounds d).rxRingBuf
    findHeader ring = ring ∧ scan no ring = .incomplete := by
  induction rounds generalizing d with
  | zero => exact absurd h (Nat.not_lt_zero _)
  | succ rounds ih =>
    have hle : (findHeader d.rxRingBuf).length ≤ d.rxRingBuf.length := length_findHeader
    simp only [rxLoop]
    cases hscan : scan no (findHeader d.rxRingBuf) with
    | incomplete => exact ⟨findHeader_findHeader, hscan⟩
    | bad =>
      have hheader : headerSize ≤ (findHeader d.rxRingBuf).length := scan_length (by rw [hscan]; exact Scan.noConfusion)
      refine ih ?_
      simp only [List.length_drop]
      have hsize : headerSize = 5 := rfl
      omega
    | packet msg =>
      have hheader : headerSize ≤ (findHeader d.rxRingBuf).length := scan_length (by rw [hscan]; exact Scan.noConfusion)
      have hring := (found_state i msg { d with rxRingBuf := findHeader d.rxRingBuf }).1
      refine ih ?_
      simp only [List.length_drop, msgLen] at hring ⊢
      have hsize : headerSize = 5 := rfl
      omega

theorem rxLoop_queue {m : Message} (h : m ∈ (rxLoop i no rounds d).rxQueue) :
    m ∈ d.rxQueue ∨ m.payload.length ≤ maxPayloadSize := by
  induction rounds generalizing d with
  | zero => exact Or.inl h
  | succ rounds ih =>
    cases hscan : scan no (findHeader d.rxRingBuf) with
    | incomplete =>
      simp only [rxLoop, hscan] at h
      exact Or.inl h
    | bad =>
      simp only [rxLoop, hscan] at h
      have hrec := ih h
      exact hrec
    | packet msg =>
      simp only [rxLoop, hscan] at h
      rcases ih h with hmem | hshort
      · rcases (found_state i msg _).2 m hmem with hold | rfl
        · exact Or.inl hold
        · exact Or.inr (scan_packet hscan).1
      · exact Or.inr hshort

theorem resyncs (i : Bool) (no : Nat) (d : Data) : Resyncs i no d := by
  obtain ⟨hfind, hscan⟩ := @rxLoop_ends i d no _ (Nat.lt_succ_self d.rxRingBuf.length)
  refine ⟨?_, scan_incomplete hscan, fun ring n => peeks_le, fun ring msg h => (scan_packet h).2⟩
  rw [processRxFifo, hfind]
  exact hscan

/-! ## A frame in chunks -/

variable {front chunk : List UInt8} {chunks : List (List UInt8)}

/-- The bytes of a frame that is not all there yet are kept. -/
theorem processRxFifo_front (hlen : msg.payload.length ≤ maxPayloadSize) (h : front ++ rest = msg.frame)
    (hmore : front.length < msg.frame.length) :
    processRxFifo i no { d with rxRingBuf := front } = { d with rxRingBuf := front } := by
  have hfront : front = msg.frame.take front.length := by rw [← h, List.take_left]
  have hfind : findHeader front = front := by
    cases front with
    | nil => rfl
    | cons c front =>
      have hmagic : c = headerMagic := (List.cons.inj h).1
      rw [hmagic, findHeader, List.dropWhile_cons_of_neg (by simp)]
  have hscan : scan no front = .incomplete := by
    by_cases hheader : front.length < headerSize
    · exact if_pos hheader
    · have hcount : (front.getD 1 0).toNat = msg.payload.length := by
        have hbyte : front.getD 1 0 = (front ++ rest).getD 1 0 := by
          have hsize : headerSize = 5 := rfl
          rw [List.getD_eq_getElem?_getD, List.getD_eq_getElem?_getD, List.getElem?_append_left (by omega)]
        have hlength : (msg.frame.getD 1 0).toNat = msg.payload.length := by
          have hsize : maxPayloadSize = 80 := rfl
          show (UInt8.ofNat msg.payload.length).toNat = msg.payload.length
          rw [UInt8.toNat_ofNat']
          omega
        rw [hbyte, h, hlength]
      rw [length_frame, msgLen] at hmore
      simp only [scan, hcount]
      rw [if_neg hheader, if_neg (Nat.not_lt.mpr hlen), if_pos hmore]
  simp only [processRxFifo, rxLoop, hfind, hscan]

theorem loadRxFifo_front (h : (front ++ chunk).length ≤ rxRingSize) :
    loadRxFifo chunk { d with rxRingBuf := front } = { d with rxRingBuf := front ++ chunk } := by
  simp only [loadRxFifo, List.take_of_length_le h]

theorem receive_nil (hring : d.rxRingBuf = []) : receive i no d [] = d := by
  have hload : loadRxFifo [] d = d := by
    rw [loadRxFifo, hring, List.append_nil, List.take_nil, ← hring]
  rw [receive, hload, processRxFifo, rxLoop_nil hring]

theorem frame_fits (hlen : msg.payload.length ≤ maxPayloadSize) : msg.frame.length ≤ rxRingSize := by
  have hsize : headerSize + maxPayloadSize ≤ rxRingSize := by decide
  rw [length_frame]
  exact (Nat.add_le_add_left hlen _).trans hsize

/-- A frame that comes in chunks is taken in as one that comes as a whole. -/
theorem receive_chunks (hring : d.rxRingBuf = []) (hlen : msg.payload.length ≤ maxPayloadSize) (hid : msg.msgId < 32)
    (hmore : front.length < msg.frame.length) (h : front ++ chunks.flatten = msg.frame) :
    chunks.foldl (receive i msg.no) { d with rxRingBuf := front } = rxFifo i msg d := by
  have hfits := frame_fits hlen
  induction chunks generalizing front with
  | nil =>
    rw [List.flatten_nil, List.append_nil] at h
    exact absurd (congrArg List.length h) hmore.ne
  | cons chunk chunks ih =>
    rw [List.flatten_cons, ← List.append_assoc] at h
    have hpart : (front ++ chunk).length ≤ msg.frame.length := by
      rw [← h, @List.length_append _ (front ++ chunk)]
      exact Nat.le_add_right _ _
    have hload : loadRxFifo chunk { d with rxRingBuf := front } = { d with rxRingBuf := front ++ chunk } :=
      loadRxFifo_front (hpart.trans hfits)
    rw [List.foldl_cons, receive, hload]
    by_cases hwhole : front ++ chunk = msg.frame
    · -- What is left are reads that bring nothing.
      have hrest : ∀ c ∈ chunks, c = [] := by
        rw [hwhole, List.append_right_eq_self] at h
        exact List.flatten_eq_nil_iff.mp h
      have hframe : processRxFifo i msg.no { d with rxRingBuf := front ++ chunk } = rxFifo i msg d := by
        rw [rxFifo, loadRxFifo, hring, List.nil_append, List.take_of_length_le hfits, hwhole]
      have hleft : (rxFifo i msg d).rxRingBuf = [] := by
        rw [rxFifo_eq hring hlen hid]
        split
        · exact rxMessage_rxRingBuf hring
        · exact hring
      rw [hframe]
      clear ih h
      induction chunks with
      | nil => rfl
      | cons c chunks ih =>
        rw [List.foldl_cons, hrest c (List.mem_cons_self ..), receive_nil hleft]
        exact ih fun c' hc => hrest c' (List.mem_cons_of_mem c hc)
    · have hshort : (front ++ chunk).length < msg.frame.length := by
        refine Nat.lt_of_le_of_ne hpart fun heq => hwhole ?_
        have hnil : chunks.flatten = [] := by
          have hcount := congrArg List.length h
          rw [List.length_append, heq] at hcount
          exact List.length_eq_zero_iff.mp (by omega)
        rw [← h, hnil, List.append_nil]
      rw [processRxFifo_front hlen h hshort]
      exact ih hshort h

/-! ## What is sent -/

theorem sent_message {cmd : UInt8} {payload : List UInt8} {s s' : Data}
    (hsend : oneWireUartSend i no cmd payload s = (.zero, s')) (hmsg : s'.txQueue = s.txQueue ++ [msg]) :
    msg = dataMessage i no cmd payload s ∧ payload.length ≤ maxPayloadSize := by
  rw [oneWireUartSend] at hsend
  split at hsend
  · cases hsend
  · split at hsend
    · cases hsend
    · rename_i hsize
      refine ⟨?_, Nat.le_of_not_lt hsize⟩
      split at hsend
      · rename_i queue hput
        obtain ⟨-, rfl⟩ := Prod.mk.inj hsend
        rw [kMsgqPut] at hput
        split at hput
        · have hqueue := (Option.some.inj hput).trans hmsg
          exact (List.cons.inj (List.append_cancel_left hqueue)).1.symm
        · cases hput
      · cases hsend

theorem delivers {cmd : UInt8} {payload : List UInt8} {s : Data} (hlen : payload.length < maxPayloadSize) :
    Delivers (!i) cmd payload (dataMessage i no cmd payload s) := by
  rintro n d chunks hidle hchunks
  have hshort : (cmd :: payload).length ≤ maxPayloadSize := hlen
  -- The number of the message is not in its bytes.
  let m : Message := { dataMessage i no cmd payload s with no := n }
  have hid : m.msgId < 32 := Nat.mod_lt _ (by decide)
  have hframe : [] ++ chunks.flatten = m.frame := hchunks
  have hpos : ([] : List UInt8).length < m.frame.length := by
    rw [length_frame, msgLen]
    exact Nat.lt_of_lt_of_le (by decide) (Nat.le_add_right headerSize _)
  have hstart : { d with rxRingBuf := [] } = d := by rw [← hidle.ring]
  have hall : chunks.foldl (receive (!i) n) d = rxMessage (!i) m d := by
    have hother : m.sender ≠ !i := by
      show i ≠ !i
      cases i <;> decide
    have hrun : chunks.foldl (receive (!i) m.no) { d with rxRingBuf := [] } = rxFifo (!i) m d :=
      receive_chunks hidle.ring hshort hid hpos hframe
    rw [hstart, rxFifo_eq hidle.ring hshort hid, if_pos hother] at hrun
    exact hrun
  refine ⟨m, rfl, ?_, ?_⟩
  · have hput : kMsgqPut m d.rxQueue = some (d.rxQueue ++ [m]) := if_pos hidle.room
    rw [hall]
    show (kMsgqPut m d.rxQueue).getD d.rxQueue = _
    rw [hput]
    rfl
  · rw [hall, rxMessage_rxRingBuf hidle.ring]

/-- A message with a command and 80 bytes more is never queued. -/
theorem not_delivers {cmd : UInt8} {payload : List UInt8} (hlen : payload.length = maxPayloadSize) :
    ¬Delivers i cmd payload msg := by
  intro h
  obtain ⟨m, hpayload, hqueue, -⟩ := h 0 Data.initial [msg.frame] ⟨rfl, by decide⟩ (List.append_nil _)
  have hmem : m ∈ ([msg.frame].foldl (receive i 0) Data.initial).rxQueue := by
    rw [hqueue]
    exact List.mem_append_right _ (List.mem_singleton_self m)
  rcases rxLoop_queue hmem with hold | hshort
  · cases hold
  · rw [hpayload, List.length_cons, hlen] at hshort
    exact Nat.not_succ_le_self _ hshort

/-- What `one_wire_uart_send` accepts is delivered by its frame, damaged frames are refused, and any bytes are
resynchronised, exactly when the payload is not of the longest size. -/
theorem delivery_iff {cmd : UInt8} {payload : List UInt8} {s s' : Data}
    (hsend : oneWireUartSend i no cmd payload s = (.zero, s')) (hmsg : s'.txQueue = s.txQueue ++ [msg]) :
    (Delivers (!i) cmd payload msg ∧ Refuses msg ∧ ∀ j n d, Resyncs j n d) ↔ payload.length ≠ maxPayloadSize := by
  obtain ⟨rfl, hle⟩ := sent_message hsend hmsg
  constructor
  · rintro ⟨hdelivers, -, -⟩ hfull
    exact not_delivers hfull hdelivers
  · intro hne
    exact ⟨delivers (Nat.lt_of_le_of_ne hle hne), refuses (Nat.succ_le_succ hle), resyncs⟩

def enabledData : Data := { Data.initial with enabled := true }

/-- Command 1 with three bytes -/
theorem delivery_iff_three : Delivers true 1 [7, 0xec, 9] (dataMessage false 0 1 [7, 0xec, 9] enabledData) ∧
    Refuses (dataMessage false 0 1 [7, 0xec, 9] enabledData) ∧ ∀ j n d, Resyncs j n d :=
  (@delivery_iff false (dataMessage false 0 1 [7, 0xec, 9] enabledData) 0 1 [7, 0xec, 9] enabledData _ rfl rfl).mpr
    (by decide)

/-- A command with 80 bytes is accepted by the sender, and its frame is not delivered. -/
theorem full_payload_refused : ∃ s' msg,
    oneWireUartSend false 0 1 (List.replicate maxPayloadSize 0) enabledData = (.zero, s') ∧
      s'.txQueue = [msg] ∧ ¬Delivers true 1 (List.replicate maxPayloadSize 0) msg :=
  ⟨_, _, rfl, rfl, not_delivers List.length_replicate⟩

end ChromeEc.OneWireUart
