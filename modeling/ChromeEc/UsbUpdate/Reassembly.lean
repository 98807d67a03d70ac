import ChromeEc.UsbUpdate.Safety

/- Reassembly of update blocks.

  A block is a frame: the declared size, `struct update_command`, and the body. The
  receiver wants the frame header in a chunk of its own, and then the body in
  chunks that, the last one apart, are longer than a header. `Assembling` is what
  holds between these chunks: the buffer starts with the bytes received so far.

  What is proved: such a block is passed to the updater once, as the frame without
  its size field, and a start message that is none is answered with an error and
  goes no further (`block_reassembled`). A frame that comes in one chunk is not a
  block start (`single_chunk_frame_rejected`). -/
namespace ChromeEc.UsbUpdate
open Lib UpdateFw

variable {cfg : Config} {sha256 : List UInt8 → List UInt8}

def handlerCalls (events : List Event) : List (List UInt8) :=
  events.filterMap fun
    | .handler body => some body
    | _ => none

theorem handlerCalls_append (es fs : List Event) :
    handlerCalls (es ++ fs) = handlerCalls es ++ handlerCalls fs :=
  List.filterMap_append

/-! ## Messages -/

/-- A chunk with its time, and what the updater meets then. -/
structure Arrival where
  env : Env
  now : BitVec 64
  chunk : Chunk

def Arrival.bytes (a : Arrival) : List UInt8 := a.chunk.bytes

def Arrival.input (a : Arrival) : Input := .chunk a.env a.now a.chunk

/-- No chunk comes more than five seconds after the one before it. -/
def Timely : BitVec 64 → List Arrival → Prop
  | _, [] => True
  | prev, a :: rest => a.now - prev ≤ 5000000 ∧ Timely a.now rest

instance Timely.decidable : (prev : BitVec 64) → (as : List Arrival) → Decidable (Timely prev as)
  | _, [] => inferInstanceAs (Decidable True)
  | prev, a :: rest =>
    have := Timely.decidable a.now rest
    inferInstanceAs (Decidable (a.now - prev ≤ 5000000 ∧ Timely a.now rest))

def IsVendorCommand (cfg : Config) (sha256 : List UInt8 → List UInt8) (bytes : List UInt8) : Prop :=
  sizeofHeader ≤ bytes.length ∧ bytes.length ≤ maxPacketSize ∧
    be32toh bytes 8 = UPDATE_EXTRA_CMD ∧ (be32toh bytes 0).toNat = bytes.length ∧
    updatePduValid cfg.toConfig sha256 (bytes.drop 4) = true

/-- An update start PDU: a frame header that declares its own size, digest and base
0. -/
def IsUpdateStart (bytes : List UInt8) : Prop :=
  bytes.length = sizeofHeader ∧ (be32toh bytes 0).toNat = sizeofHeader ∧ be32toh bytes 4 = 0 ∧
    be32toh bytes 8 = 0

def IsUpdateDone (bytes : List UInt8) : Prop := bytes.length = 4 ∧ be32toh bytes 0 = UPDATE_DONE

/-- A block start: a frame header that declares a body that is not empty and fits
the buffer. -/
def IsBlockStart (cfg : Config) (bytes : List UInt8) : Prop :=
  bytes.length = sizeofHeader ∧ sizeofHeader < (be32toh bytes 0).toNat ∧
    (be32toh bytes 0).toNat ≤ 4 + cfg.bufferSize

instance (cfg : Config) (bytes : List UInt8) : Decidable (IsBlockStart cfg bytes) :=
  inferInstanceAs (Decidable (_ ∧ _ ∧ _))

/-- A message that should start something and does not. -/
def MalformedStart (cfg : Config) (sha256 : List UInt8 → List UInt8) :
    RxState → List UInt8 → Prop
  | .idle, bytes => ¬IsVendorCommand cfg sha256 bytes ∧ ¬IsUpdateStart bytes
  | .outsideBlock, bytes => ¬IsUpdateDone bytes ∧ ¬IsBlockStart cfg bytes
  | .insideBlock, _ => False

/-! ## Calls in time -/

theorem step_queue {s : State} (hq : s.queue = []) (input : Input) :
    (step cfg sha256 s input).1.queue = [] := by
  cases input with
  | reset => rfl
  | chunk env now c =>
    simp only [step, hq, List.nil_append, updateOutHandler]
    cases afterTimeout now { s with queue := c.bytes } with
    | idle => exact (receiveIdle_safe (s := { s with
        queue := c.bytes
        rxState := .idle
        prevActivityTimestamp :=
          s.prevActivityTimestamp + (now - s.prevActivityTimestamp) }) rfl).2.queue
    | outsideBlock => exact (receiveOutside_safe (s := { s with
        queue := c.bytes
        rxState := .outsideBlock
        prevActivityTimestamp :=
          s.prevActivityTimestamp + (now - s.prevActivityTimestamp) })).2.queue
    | insideBlock => exact receiveInside_queue (s := { s with
        queue := c.bytes
        rxState := .insideBlock
        prevActivityTimestamp :=
          s.prevActivityTimestamp + (now - s.prevActivityTimestamp) })

theorem run_queue {s : State} (hq : s.queue = []) (inputs : List Input) :
    (run cfg sha256 s inputs).1.queue = [] := by
  induction inputs generalizing s with
  | nil => exact hq
  | cons input inputs ih => exact ih (step_queue hq input)

/-- The state in which a branch of the receiver is entered. -/
def entering (s : State) (a : Arrival) : State :=
  { s with queue := a.bytes, prevActivityTimestamp := a.now }

/-- A chunk in time goes to the branch of the receiver's state. -/
theorem step_in_time {s : State} {a : Arrival} (hq : s.queue = [])
    (ht : a.now - s.prevActivityTimestamp ≤ 5000000) :
    step cfg sha256 s a.input =
      match s.rxState with
      | .idle => receiveIdle cfg sha256 a.env (entering s a) a.bytes.length
      | .outsideBlock => receiveOutside cfg (entering s a) a.bytes.length
      | .insideBlock => receiveInside cfg sha256 a.env (entering s a) a.bytes.length := by
  have hnow : s.prevActivityTimestamp + (a.now - s.prevActivityTimestamp) = a.now := by
    rw [BitVec.add_comm, BitVec.sub_add_cancel]
  have hin : ¬5000000 < a.now - s.prevActivityTimestamp := BitVec.not_lt.mpr ht
  simp only [Arrival.input, step, hq, List.nil_append, updateOutHandler, afterTimeout, hnow,
    if_neg hin]
  rfl

/-! ## Assembling a block -/

/-- A block in the making: `got` are the bytes received, `left` is how many are to
come. -/
structure Assembling (s : State) (got : List UInt8) (left : Nat) : Prop where
  rx : s.rxState = .insideBlock
  queue : s.queue = []
  index : s.blockIndex.toNat = got.length
  buffer : window s.blockBuffer 0 got.length = got
  size : s.blockSize.toNat = left
  small : got.length + left < 2 ^ 32

theorem window_blit_append (mem : Nat → UInt8) (got bytes : List UInt8)
    (h : window mem 0 got.length = got) :
    window (blit mem got.length (asMem bytes) bytes.length) 0 (got ++ bytes).length =
      got ++ bytes := by
  have hbytes : window (asMem bytes) 0 bytes.length = bytes := by
    calc window (asMem bytes) 0 bytes.length
        = (bytes.drop 0).take bytes.length := window_getD bytes 0 (Nat.le_of_eq (Nat.zero_add _))
      _ = bytes := List.take_length
  calc window (blit mem got.length (asMem bytes) bytes.length) 0 (got ++ bytes).length
      = window mem 0 got.length ++ window (asMem bytes) 0 bytes.length := by
        rw [List.length_append, window_blit_end]
    _ = got ++ bytes := by rw [h, hbytes]

theorem step_block_start (sha256 : List UInt8 → List UInt8) {s : State} {a : Arrival}
    (hrx : s.rxState = .outsideBlock) (hq : s.queue = []) (ht : a.now - s.prevActivityTimestamp ≤ 5000000)
    (hstart : IsBlockStart cfg a.bytes) :
    handlerCalls (step cfg sha256 s a.input).2 = [] ∧
      Assembling (step cfg sha256 s a.input).1 (a.bytes.drop 4)
        ((be32toh a.bytes 0).toNat - sizeofHeader) ∧
      (step cfg sha256 s a.input).1.prevActivityTimestamp = a.now := by
  obtain ⟨hlen, hlo, hhi⟩ := hstart
  have hbuf := bufferSize_lt cfg
  have h12 : sizeofHeader = 12 := rfl
  have h8 : sizeofCommand = 8 := rfl
  have hsub := toNat_sub_four (x := be32toh a.bytes 0) (by omega)
  have hsub' := toNat_sub_eight (x := be32toh a.bytes 0 - 4) (by omega)
  have hdrop : (a.bytes.drop 4).length = 8 := by
    rw [List.length_drop, hlen]
    rfl
  have hcall : step cfg sha256 s a.input =
      ({ entering s a with
          queue := []
          blockIndex := 8
          blockBuffer := blit s.blockBuffer 0 (asMem (a.bytes.drop 4)) 8
          blockSize := be32toh a.bytes 0 - 4 - 8
          rxState := .insideBlock },
        [.subtract (be32toh a.bytes 0) 4, .write 0 8, .subtract (be32toh a.bytes 0 - 4) 8]) := by
    rw [step_in_time hq ht, hrx]
    have hfetch := fetchTransferStart_eq a.bytes
    rw [if_pos hlen] at hfetch
    simp only [receiveOutside, if_neg (by omega : ¬a.bytes.length = 4), receiveBlockStart,
      entering, hfetch]
    rw [if_neg (by omega)]
  rw [hcall]
  refine ⟨rfl, ?_, rfl⟩
  refine ⟨rfl, rfl, hdrop.symm, ?_, ?_, ?_⟩
  · have h := window_blit_append s.blockBuffer [] (a.bytes.drop 4) rfl
    rw [List.nil_append, hdrop] at h
    rw [hdrop]
    exact h
  · show (be32toh a.bytes 0 - 4 - 8).toNat = _
    omega
  · omega

section
variable {s : State} {got : List UInt8} {left : Nat} {a : Arrival}

/-- What a chunk inside a block does before the receiver looks at what is left. -/
theorem receiveInside_eq (h : Assembling s got left) (hle : a.bytes.length ≤ left) :
    ∃ s' : State, Assembling s' (got ++ a.bytes) (left - a.bytes.length) ∧
      s'.prevActivityTimestamp = a.now ∧
      receiveInside cfg sha256 a.env (entering s a) a.bytes.length =
        (let events : List Event := [.write got.length a.bytes.length,
          .subtract s.blockSize (BitVec.ofNat 32 a.bytes.length)]
        if left - a.bytes.length ≠ 0 then
          if a.bytes.length ≤ sizeofHeader then
            let r := sendErrorReset s' .genError
            (r.1, events ++ r.2)
          else
            (s', events)
        else
          let r := blockReceived cfg sha256 a.env s'
          (r.1, events ++ r.2)) := by
  have hcount := toNat_ofNat_count a.chunk.length_le
  have hsmall := h.small
  have hidx : (s.blockIndex + BitVec.ofNat 32 a.bytes.length).toNat =
      (got ++ a.bytes).length := by
    rw [BitVec.toNat_add, h.index, List.length_append]
    show (got.length + (BitVec.ofNat 32 a.chunk.bytes.length).toNat) % _ = _
    rw [hcount]
    exact Nat.mod_eq_of_lt (Nat.lt_of_le_of_lt (Nat.add_le_add_left hle _) hsmall)
  have hsz : (s.blockSize - BitVec.ofNat 32 a.bytes.length).toNat = left - a.bytes.length := by
    have hcount' : (BitVec.ofNat 32 a.bytes.length).toNat = a.bytes.length := hcount
    rw [BitVec.toNat_sub_of_le (by rw [BitVec.le_def, hcount', h.size]; exact hle), hcount',
      h.size]
  refine ⟨{ entering s a with
    queue := []
    blockBuffer := blit s.blockBuffer got.length (asMem a.bytes) a.bytes.length
    blockIndex := s.blockIndex + BitVec.ofNat 32 a.bytes.length
    blockSize := s.blockSize - BitVec.ofNat 32 a.bytes.length }, ?_, rfl, ?_⟩
  · refine ⟨h.rx, rfl, hidx, window_blit_append _ _ _ h.buffer, hsz, ?_⟩
    rw [List.length_append]
    omega
  · have hne : s.blockSize - BitVec.ofNat 32 a.bytes.length ≠ 0 ↔ left - a.bytes.length ≠ 0 := by
      rw [← hsz]
      constructor
      · intro hn hz
        exact hn (BitVec.eq_of_toNat_eq hz)
      · intro hn hz
        rw [hz] at hn
        exact hn rfl
    simp only [receiveInside, entering, removeUnits, List.take_length, List.drop_length, h.index]
    by_cases hz : left - a.bytes.length ≠ 0
    · rw [if_pos (hne.mpr hz), if_pos hz]
    · rw [if_neg (hne.not.mpr hz), if_neg hz]

theorem step_inside (cfg : Config) (sha256 : List UInt8 → List UInt8) (h : Assembling s got left)
    (ht : a.now - s.prevActivityTimestamp ≤ 5000000) (hlt : a.bytes.length < left)
    (hlong : sizeofHeader < a.bytes.length) :
    handlerCalls (step cfg sha256 s a.input).2 = [] ∧
      Assembling (step cfg sha256 s a.input).1 (got ++ a.bytes) (left - a.bytes.length) ∧
      (step cfg sha256 s a.input).1.prevActivityTimestamp = a.now := by
  obtain ⟨s', hs', hnow, heq⟩ := receiveInside_eq h
    (Nat.le_of_lt hlt)
  rw [step_in_time h.queue ht, h.rx]
  dsimp only
  rw [heq]
  dsimp only
  rw [if_pos (by omega), if_neg (by omega)]
  exact ⟨rfl, hs', hnow⟩

theorem step_last (h : Assembling s got left)
    (ht : a.now - s.prevActivityTimestamp ≤ 5000000) (hall : a.bytes.length = left) :
    handlerCalls (step cfg sha256 s a.input).2 = [got ++ a.bytes] ∧
      (step cfg sha256 s a.input).1.rxState = .outsideBlock := by
  obtain ⟨s', hs', -, heq⟩ := receiveInside_eq h
    (Nat.le_of_eq hall)
  rw [step_in_time h.queue ht, h.rx]
  dsimp only
  rw [heq]
  dsimp only
  rw [if_neg (by omega)]
  refine ⟨?_, rfl⟩
  have hbody : window s'.blockBuffer 0 s'.blockIndex.toNat = got ++ a.bytes := by
    rw [hs'.index]
    exact hs'.buffer
  simp only [blockReceived, hbody]
  rfl

end

/-- The chunks after the block start, by induction on those before the last. -/
theorem run_inside {s : State} {got : List UInt8} {left : Nat} (init : List Arrival)
    (last : Arrival) (h : Assembling s got left)
    (ht : Timely s.prevActivityTimestamp (init ++ [last]))
    (hlong : ∀ a ∈ init, sizeofHeader < a.bytes.length) (hlast : 0 < last.bytes.length)
    (hsum : (init.map fun a => a.bytes.length).sum + last.bytes.length = left) :
    handlerCalls (run cfg sha256 s ((init ++ [last]).map Arrival.input)).2 =
        [got ++ init.flatMap Arrival.bytes ++ last.bytes] ∧
      (run cfg sha256 s ((init ++ [last]).map Arrival.input)).1.rxState = .outsideBlock := by
  induction init generalizing s got left with
  | nil =>
    simp only [List.map_nil, List.sum_nil, Nat.zero_add] at hsum
    obtain ⟨hcalls, hrx⟩ := step_last h ht.1 hsum
    simp only [List.nil_append, List.map_cons, List.map_nil, run, List.append_nil,
      List.flatMap_nil]
    exact ⟨hcalls, hrx⟩
  | cons a init ih =>
    simp only [List.map_cons, List.sum_cons] at hsum
    obtain ⟨hcalls, hs, hnow⟩ := step_inside cfg sha256 h ht.1 (by omega)
      (hlong a List.mem_cons_self)
    have htrest := ht.2
    rw [← hnow] at htrest
    obtain ⟨hrest, hrx⟩ := ih hs htrest (fun b hb => hlong b (List.mem_cons_of_mem _ hb))
      (by omega)
    simp only [List.cons_append, List.map_cons, run, handlerCalls_append, hcalls, List.nil_append,
      List.flatMap_cons]
    refine ⟨?_, hrx⟩
    rw [hrest]
    simp only [List.append_assoc]

/-! ## Malformed starts -/

theorem sendErrorReset_outcome (s : State) :
    (sendErrorReset s .genError).2 = [.reply [6]] ∧ (sendErrorReset s .genError).1.rxState = .idle :=
  ⟨rfl, rfl⟩

theorem receiveIdle_malformed {env : Env} {s : State}
    (hv : ¬IsVendorCommand cfg sha256 s.queue) (hstart : ¬IsUpdateStart s.queue) :
    (receiveIdle cfg sha256 env s s.queue.length).2 = [.reply [6]] ∧
      (receiveIdle cfg sha256 env s s.queue.length).1.rxState = .idle := by
  have hvendor : tryVendorCommand cfg sha256 s.queue s.queue.length = none := by
    simp only [tryVendorCommand, List.take_length]
    split
    · rfl
    rename_i hcount
    split
    · rfl
    rename_i hbase
    split
    · rfl
    rename_i hsize
    split
    · rename_i hvalid
      rw [not_not] at hbase hsize
      exact absurd ⟨by omega, by omega, hbase, hsize, hvalid⟩ hv
    · rfl
  simp only [receiveIdle, hvendor, fetchTransferStart_eq]
  by_cases hlen : s.queue.length = sizeofHeader
  · rw [if_pos hlen]
    dsimp only
    rw [if_pos]
    · exact sendErrorReset_outcome _
    · by_contra hfields
      rw [not_or, not_or, not_not, not_not, not_not] at hfields
      exact hstart ⟨hlen, hfields⟩
  · rw [if_neg hlen]
    exact sendErrorReset_outcome _

theorem receiveBlockStart_malformed {s : State} (h : ¬IsBlockStart cfg s.queue) :
    handlerCalls (receiveBlockStart cfg s s.queue.length).2 = [] ∧
      Event.reply [6] ∈ (receiveBlockStart cfg s s.queue.length).2 ∧
      (receiveBlockStart cfg s s.queue.length).1.rxState = .idle := by
  simp only [receiveBlockStart, fetchTransferStart_eq]
  by_cases hlen : s.queue.length = sizeofHeader
  · rw [if_pos hlen]
    dsimp only
    rw [if_pos]
    · exact ⟨rfl, List.mem_cons_of_mem _ List.mem_cons_self, rfl⟩
    · -- A declared size below 4 wraps far beyond the buffer.
      have hbuf := bufferSize_lt cfg
      have h8 : sizeofCommand = 8 := rfl
      have h12 : sizeofHeader = 12 := rfl
      have hsub : (be32toh s.queue 0 - 4).toNat =
          (2 ^ 32 - 4 + (be32toh s.queue 0).toNat) % 2 ^ 32 := BitVec.toNat_sub _ _
      by_contra hfields
      rw [not_or] at hfields
      exact h ⟨hlen, by omega, by omega⟩
  · rw [if_neg hlen]
    exact ⟨rfl, List.mem_cons_self, rfl⟩

theorem receiveOutside_malformed {s : State} (hdone : ¬IsUpdateDone s.queue)
    (h : ¬IsBlockStart cfg s.queue) :
    handlerCalls (receiveOutside cfg s s.queue.length).2 = [] ∧
      Event.reply [6] ∈ (receiveOutside cfg s s.queue.length).2 ∧
      (receiveOutside cfg s s.queue.length).1.rxState = .idle := by
  simp only [receiveOutside]
  by_cases hfour : s.queue.length = 4
  · rw [if_pos hfour]
    have htake : s.queue.take 4 = s.queue := by rw [← hfour, List.take_length]
    simp only [removeUnits, htake]
    rw [if_neg fun hd => hdone ⟨hfour, hd⟩, hfour]
    have hdrop : s.queue.drop 4 = [] := List.drop_eq_nil_of_le (by omega)
    simp only [receiveBlockStart, hdrop, fetchTransferStart_nil (by decide : 4 ≠ sizeofHeader)]
    exact ⟨rfl, List.mem_cons_self, rfl⟩
  · rw [if_neg hfour]
    exact receiveBlockStart_malformed h

theorem step_malformed {s : State} {a : Arrival} (hq : s.queue = [])
    (h : MalformedStart cfg sha256 (afterTimeout a.now s) a.bytes) :
    handlerCalls (step cfg sha256 s a.input).2 = [] ∧
      Event.reply [6] ∈ (step cfg sha256 s a.input).2 ∧
      (step cfg sha256 s a.input).1.rxState = .idle := by
  simp only [Arrival.input, step, hq, List.nil_append, updateOutHandler]
  have htimeout : afterTimeout a.now { s with queue := a.chunk.bytes } = afterTimeout a.now s := rfl
  rw [htimeout]
  cases hst : afterTimeout a.now s with
  | idle =>
    rw [hst] at h
    obtain ⟨h₁, h₂⟩ := receiveIdle_malformed
      (s := { s with
        queue := a.chunk.bytes
        rxState := .idle
        prevActivityTimestamp :=
          s.prevActivityTimestamp + (a.now - s.prevActivityTimestamp) }) h.1 h.2
    dsimp only at h₁ h₂ ⊢
    rw [h₁]
    exact ⟨rfl, List.mem_cons_self, h₂⟩
  | outsideBlock =>
    rw [hst] at h
    exact receiveOutside_malformed (s := { s with
      queue := a.chunk.bytes
      rxState := .outsideBlock
      prevActivityTimestamp :=
        s.prevActivityTimestamp + (a.now - s.prevActivityTimestamp) }) h.1 h.2
  | insideBlock =>
    rw [hst] at h
    exact absurd h id

/-! ## The receiver -/

/-- **Blocks are reassembled.** After any run: outside a block, a block start
followed in time by its body in chunks, all but the last longer than a frame
header, makes one call of the updater, with the frame without its size field, and
leaves the receiver outside a block; and a malformed start, when idle or outside a
block, is answered with `UPDATE_GEN_ERROR`, calls no updater, and leaves the
receiver idle. -/
theorem block_reassembled (cfg : Config) (sha256 : List UInt8 → List UInt8) (before : List Input)
    (s : State) (hs : s = (run cfg sha256 resetState before).1) :
    (∀ (header : Arrival) (init : List Arrival) (last : Arrival), s.rxState = .outsideBlock →
      Timely s.prevActivityTimestamp (header :: (init ++ [last])) →
      IsBlockStart cfg header.bytes →
      (∀ a ∈ init, sizeofHeader < a.bytes.length) → 0 < last.bytes.length →
      sizeofHeader + (init.map fun a => a.bytes.length).sum + last.bytes.length =
        (be32toh header.bytes 0).toNat →
      handlerCalls (run cfg sha256 s ((header :: (init ++ [last])).map Arrival.input)).2 =
          [header.bytes.drop 4 ++ init.flatMap Arrival.bytes ++ last.bytes] ∧
        (run cfg sha256 s ((header :: (init ++ [last])).map Arrival.input)).1.rxState =
          .outsideBlock) ∧
    ∀ a : Arrival, MalformedStart cfg sha256 (afterTimeout a.now s) a.bytes →
      handlerCalls (step cfg sha256 s a.input).2 = [] ∧
        Event.reply [6] ∈ (step cfg sha256 s a.input).2 ∧
        (step cfg sha256 s a.input).1.rxState = .idle := by
  have hq : s.queue = [] := by
    rw [hs]
    exact run_queue rfl before
  refine ⟨?_, fun a h => step_malformed hq h⟩
  intro header init last hrx ht hstart hlong hlast hsum
  obtain ⟨hcalls, hasm, hnow⟩ := step_block_start sha256 hrx hq ht.1 hstart
  have htrest := ht.2
  rw [← hnow] at htrest
  obtain ⟨hrest, hout⟩ := run_inside init last hasm htrest hlong
    hlast (by omega)
  simp only [List.map_cons, run, handlerCalls_append, hcalls, List.nil_append]
  exact ⟨hrest, hout⟩

/-- A frame with a body of 14 bytes: its header, 13 bytes and one. -/
def exampleHeader : Arrival :=
  ⟨exampleEnv, 2, ⟨[0, 0, 0, 26, 0, 0, 0, 0, 0, 1, 0, 0], by decide⟩⟩

def exampleInit : Arrival := ⟨exampleEnv, 3, ⟨List.replicate 13 1, by decide⟩⟩

def exampleLast : Arrival := ⟨exampleEnv, 4, ⟨[2], by decide⟩⟩

theorem length_exampleStart : [0, 0, 0, 12, 0, 0, 0, 0, 0, 0, 0, (0 : UInt8)].length ≤ maxPacketSize := by decide

def exampleStart : Input :=
  .chunk exampleEnv 1 ⟨[0, 0, 0, 12, 0, 0, 0, 0, 0, 0, 0, 0], length_exampleStart⟩

theorem block_reassembled_example :
    handlerCalls (run exampleConfig (fun _ => [])
        (run exampleConfig (fun _ => []) resetState [exampleStart]).1
        ([exampleHeader, exampleInit, exampleLast].map Arrival.input)).2 =
      [[0, 0, 0, 0, 0, 1, 0, 0, 1, 1, 1, 1, 1, 1, 1, 1, 1, 1, 1, 1, 1, 2]] := by
  have h := (block_reassembled exampleConfig (fun _ => []) [exampleStart] _ rfl).1 exampleHeader
    [exampleInit] exampleLast (by decide +kernel) (by decide +kernel) (by decide +kernel) (by decide)
    (by decide) (by decide +kernel)
  exact h.1

/-- The same frame in one chunk: its length is the declared size, which the start
check would accept, and the receiver calls no updater and goes idle. -/
theorem single_chunk_frame_rejected :
    let frame : Arrival := ⟨exampleEnv, 2,
      ⟨[0, 0, 0, 26, 0, 0, 0, 0, 0, 1, 0, 0] ++ List.replicate 13 1 ++ [2], by decide⟩⟩
    let s := (run exampleConfig (fun _ => []) resetState [exampleStart]).1
    s.rxState = .outsideBlock ∧ (be32toh frame.bytes 0).toNat = frame.bytes.length ∧
      sizeofCommand < frame.bytes.length - 4 ∧ frame.bytes.length - 4 ≤ exampleConfig.bufferSize ∧
      handlerCalls (step exampleConfig (fun _ => []) s frame.input).2 = [] ∧
      (step exampleConfig (fun _ => []) s frame.input).1.rxState = .idle := by
  decide +kernel

end ChromeEc.UsbUpdate
