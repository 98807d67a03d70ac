import ChromeEc.UsbUpdate.Model

/- The receive buffer of the USB updater.

  `EventSafe` says that a write stays in `block_buffer` and that a subtraction
  from `block_size` does not go below zero. The receiver does not compare the
  length of a chunk inside a block with what is left of the block, so this is not
  so for every host.

  What is proved: a run is safe throughout exactly when no chunk inside a block is
  longer than the rest of the block, and no block start declares less than the
  size field itself (`receive_buffer_safe_iff`). A host that sends more overruns
  the buffer (`long_chunks_overrun`). -/
namespace ChromeEc.UsbUpdate
open Lib UpdateFw

variable {cfg : Config} {sha256 : List UInt8 → List UInt8}

/-! ## The queue -/

theorem drainQueue_fst (queue frame : List UInt8) (i : Nat) :
    (drainQueue queue frame i).1 = queue.drop i := by
  fun_induction drainQueue queue frame i with
  | case1 queue frame => rfl
  | case2 queue frame i hi r ih =>
    rw [ih]
    show (queue.drop (min i sizeofHeader)).drop (i - sizeofHeader) = _
    rw [List.drop_drop]
    congr 1
    omega

theorem drainQueue_snd {queue frame : List UInt8} (hq : queue.length = sizeofHeader)
    (hf : frame.length = sizeofHeader) : (drainQueue queue frame sizeofHeader).2 = queue := by
  have htake : queue.take (min sizeofHeader sizeofHeader) = queue := by
    rw [Nat.min_self, ← hq, List.take_length]
  have hz : ∀ q f, drainQueue q f (sizeofHeader - sizeofHeader) = (q, f) := by
    intro q f
    rw [drainQueue, if_pos (Nat.sub_self _)]
  rw [drainQueue, if_neg (by decide)]
  show (drainQueue _ (queue.take (min sizeofHeader sizeofHeader) ++
    frame.drop (queue.take (min sizeofHeader sizeofHeader)).length) _).2 = _
  rw [hz, htake, List.drop_eq_nil_of_le (by omega), List.append_nil]

/-- A frame of the right size is fetched as it is, any other chunk is drained. -/
theorem fetchTransferStart_eq (queue : List UInt8) :
    fetchTransferStart queue queue.length =
      ([], if queue.length = sizeofHeader then some queue else none) := by
  have hfst := drainQueue_fst queue (List.replicate sizeofHeader 0) queue.length
  rw [List.drop_length] at hfst
  simp only [fetchTransferStart, hfst]
  by_cases hlen : queue.length = sizeofHeader
  · rw [if_neg (not_not.mpr hlen), if_pos hlen, hlen,
      drainQueue_snd hlen List.length_replicate]
  · rw [if_pos hlen, if_neg hlen]

theorem fetchTransferStart_nil {count : Nat} (h : count ≠ sizeofHeader) :
    fetchTransferStart [] count = ([], none) := by
  have hfst := drainQueue_fst [] (List.replicate sizeofHeader 0) count
  rw [List.drop_nil] at hfst
  simp only [fetchTransferStart, hfst]
  rw [if_pos h]

/-! ## What is safe -/

/-- Writes stay in the buffer, subtractions do not wrap. -/
def EventSafe (cfg : Config) : Event → Prop
  | .write offset len => offset + len ≤ cfg.bufferSize
  | .subtract size amount => amount ≤ size
  | .handler _ | .flash _ | .reply _ | .vendor _ => True

instance (cfg : Config) : (e : Event) → Decidable (EventSafe cfg e)
  | .write offset len => inferInstanceAs (Decidable (offset + len ≤ cfg.bufferSize))
  | .subtract size amount => inferInstanceAs (Decidable (amount ≤ size))
  | .handler _ | .flash _ | .reply _ | .vendor _ => inferInstanceAs (Decidable True)

/-- What a chunk must respect in the state it finds: inside a block it is no longer
than the rest of the block, and a block start declares its own size field. -/
def StepFits (s : State) : Input → Prop
  | .reset => True
  | .chunk _ now c =>
    match afterTimeout now s with
    | .idle => True
    | .outsideBlock => c.bytes.length = sizeofHeader → 4 ≤ (be32toh c.bytes 0).toNat
    | .insideBlock => c.bytes.length ≤ s.blockSize.toNat

def RunFits (cfg : Config) (sha256 : List UInt8 → List UInt8) : State → List Input → Prop
  | _, [] => True
  | s, input :: inputs => StepFits s input ∧ RunFits cfg sha256 (step cfg sha256 s input).1 inputs

/-- What holds between calls: the queue is drained, and a block in the making has
room for what is left of it. -/
structure Inv (cfg : Config) (s : State) : Prop where
  queue : s.queue = []
  inside : s.rxState = .insideBlock → 0 < s.blockSize.toNat ∧ 8 ≤ s.blockIndex.toNat ∧
    s.blockIndex.toNat + s.blockSize.toNat ≤ cfg.bufferSize

theorem inv_resetState (cfg : Config) : Inv cfg resetState where
  queue := rfl
  inside h := by cases h

theorem bufferSize_lt (cfg : Config) : cfg.bufferSize < 2 ^ 31 + 8 := by
  have := cfg.pduSize_lt
  simp only [Config.bufferSize, sizeofCommand]
  omega

/-! ## One call -/

section
variable {env : Env} {s : State}

theorem sendErrorReset_safe (cfg : Config) (resp : Code) (hq : s.queue = []) :
    (∀ e ∈ (sendErrorReset s resp).2, EventSafe cfg e) ∧ Inv cfg (sendErrorReset s resp).1 := by
  refine ⟨?_, hq, ?_⟩
  · intro e he
    rw [List.mem_singleton.mp he]
    trivial
  · intro h
    cases h

theorem receiveIdle_safe (hs : s.rxState = .idle) :
    (∀ e ∈ (receiveIdle cfg sha256 env s s.queue.length).2, EventSafe cfg e) ∧
      Inv cfg (receiveIdle cfg sha256 env s s.queue.length).1 := by
  simp only [receiveIdle]
  split
  · rename_i queue event hv
    simp only [tryVendorCommand] at hv
    split at hv
    · cases hv
    split at hv
    · cases hv
    split at hv
    · cases hv
    split at hv
    · cases hv
      refine ⟨?_, List.drop_length, ?_⟩
      · intro e he
        rw [List.mem_singleton.mp he]
        trivial
      · intro h
        rw [hs] at h
        cases h
    · cases hv
  · rw [fetchTransferStart_eq]
    by_cases hlen : s.queue.length = sizeofHeader
    · rw [if_pos hlen]
      dsimp only
      split
      · exact sendErrorReset_safe cfg _ rfl
      · refine ⟨?_, ?_⟩
        · intro e he
          simp only [List.mem_cons, List.not_mem_nil, or_false] at he
          obtain rfl | rfl | rfl := he <;> trivial
        · split
          · exact ⟨rfl, fun h => by cases h⟩
          · refine ⟨rfl, ?_⟩
            intro h
            rw [hs] at h
            cases h
    · rw [if_neg hlen]
      exact sendErrorReset_safe cfg _ rfl

theorem toNat_sub_four {x : U32} (h : 4 ≤ x.toNat) : (x - 4).toNat = x.toNat - 4 :=
  BitVec.toNat_sub_of_le (x := x) (y := 4) h

theorem toNat_sub_eight {x : U32} (h : 8 ≤ x.toNat) : (x - 8).toNat = x.toNat - 8 :=
  BitVec.toNat_sub_of_le (x := x) (y := 8) h

/-- A block start is safe if it declares its size field, and no other is. -/
theorem receiveBlockStart_safe (hq : s.queue.length = sizeofHeader) :
    ((∀ e ∈ (receiveBlockStart cfg s s.queue.length).2, EventSafe cfg e) ↔
      4 ≤ (be32toh s.queue 0).toNat) ∧ Inv cfg (receiveBlockStart cfg s s.queue.length).1 := by
  have hfour : EventSafe cfg (.subtract (be32toh s.queue 0) 4) ↔ 4 ≤ (be32toh s.queue 0).toNat :=
    Iff.rfl
  simp only [receiveBlockStart, fetchTransferStart_eq, if_pos hq]
  split
  · refine ⟨?_, rfl, fun h => by cases h⟩
    rw [List.forall_mem_cons, hfour]
    constructor
    · intro h
      exact h.1
    · intro h
      exact ⟨h, (sendErrorReset_safe cfg (s := { s with queue := [] }) _ rfl).1⟩
  · rename_i hsize
    rw [not_or] at hsize
    have hc : sizeofCommand = 8 := rfl
    have hsub := toNat_sub_eight (x := be32toh s.queue 0 - 4) (by omega)
    refine ⟨?_, rfl, ?_⟩
    · rw [List.forall_mem_cons, List.forall_mem_cons, List.forall_mem_cons, hfour]
      constructor
      · intro h
        exact h.1
      · intro h
        refine ⟨h, ?_, ?_, fun e he => absurd he List.not_mem_nil⟩
        · show 0 + 8 ≤ cfg.bufferSize
          omega
        · show (8 : U32) ≤ be32toh s.queue 0 - 4
          rw [BitVec.le_def]
          show 8 ≤ _
          omega
    · intro _
      show 0 < (be32toh s.queue 0 - 4 - 8).toNat ∧ 8 ≤ 8 ∧
        8 + (be32toh s.queue 0 - 4 - 8).toNat ≤ cfg.bufferSize
      omega

theorem receiveOutside_safe :
    ((∀ e ∈ (receiveOutside cfg s s.queue.length).2, EventSafe cfg e) ↔
      (s.queue.length = sizeofHeader → 4 ≤ (be32toh s.queue 0).toNat)) ∧
      Inv cfg (receiveOutside cfg s s.queue.length).1 := by
  have herr : ∀ s' : State, s'.queue = [] → ∀ count, count ≠ sizeofHeader →
      receiveBlockStart cfg s' count = sendErrorReset s' .genError := by
    intro s' hq count hcount
    simp only [receiveBlockStart, hq, fetchTransferStart_nil hcount]
    rw [← hq]
  simp only [receiveOutside]
  by_cases hfour : s.queue.length = 4
  · rw [if_pos hfour]
    have hne : s.queue.length ≠ sizeofHeader := by rw [hfour]; decide
    have hdrop : s.queue.drop 4 = [] := List.drop_eq_nil_of_le (by omega)
    simp only [removeUnits, hdrop]
    split
    · refine ⟨⟨fun _ h => absurd h hne, fun _ e he => ?_⟩, rfl, fun h => by cases h⟩
      rw [List.mem_singleton.mp he]
      trivial
    · rw [herr _ rfl _ hne]
      have h := sendErrorReset_safe cfg (s := { s with queue := [] }) .genError rfl
      exact ⟨⟨fun _ h' => absurd h' hne, fun _ => h.1⟩, h.2⟩
  · rw [if_neg hfour]
    by_cases hlen : s.queue.length = sizeofHeader
    · obtain ⟨h₁, h₂⟩ := receiveBlockStart_safe hlen
      exact ⟨h₁.trans ⟨fun h _ => h, fun h => h hlen⟩, h₂⟩
    · have hstart : receiveBlockStart cfg s s.queue.length =
          sendErrorReset { s with queue := [] } .genError := by
        simp only [receiveBlockStart, fetchTransferStart_eq, if_neg hlen]
      rw [hstart]
      have h := sendErrorReset_safe cfg (s := { s with queue := [] }) .genError rfl
      exact ⟨⟨fun _ h' => absurd h' hlen, fun _ => h.1⟩, h.2⟩

/-- A block with a body is no start request, so the answer to it is one byte. -/
theorem length_response {sec : Section} {body : List UInt8} (h : sizeofCommand < body.length) :
    (responseBytes (fwUpdateCommandHandler cfg.toConfig sha256 sec env body).1).length = 1 := by
  simp only [fwUpdateCommandHandler]
  rw [if_neg (by omega), if_neg (by omega)]
  rfl

theorem toNat_ofNat_count {n : Nat} (h : n ≤ maxPacketSize) : (BitVec.ofNat 32 n).toNat = n := by
  rw [BitVec.toNat_ofNat]
  have hm : maxPacketSize = 64 := rfl
  omega

theorem receiveInside_unsafe (hle : s.queue.length ≤ maxPacketSize)
    (h : ∀ e ∈ (receiveInside cfg sha256 env s s.queue.length).2, EventSafe cfg e) :
    s.queue.length ≤ s.blockSize.toNat := by
  have hmem : Event.subtract s.blockSize (BitVec.ofNat 32 s.queue.length) ∈
      (receiveInside cfg sha256 env s s.queue.length).2 := by
    simp only [receiveInside]
    split
    · split <;> simp
    · simp
  have hsafe : (BitVec.ofNat 32 s.queue.length).toNat ≤ s.blockSize.toNat := h _ hmem
  rwa [toNat_ofNat_count hle] at hsafe

theorem receiveInside_queue :
    (receiveInside cfg sha256 env s s.queue.length).1.queue = [] := by
  simp only [receiveInside, removeUnits, List.drop_length]
  split
  · split <;> rfl
  · rfl

theorem receiveInside_safe (sha256 : List UInt8 → List UInt8) (env : Env) (hle : s.queue.length ≤ maxPacketSize)
    (hin : 0 < s.blockSize.toNat ∧ 8 ≤ s.blockIndex.toNat ∧
      s.blockIndex.toNat + s.blockSize.toNat ≤ cfg.bufferSize)
    (hfit : s.queue.length ≤ s.blockSize.toNat) :
    (∀ e ∈ (receiveInside cfg sha256 env s s.queue.length).2, EventSafe cfg e) ∧
      Inv cfg (receiveInside cfg sha256 env s s.queue.length).1 := by
  obtain ⟨hpos, h8, hroom⟩ := hin
  have hbuf := bufferSize_lt cfg
  have hcount := toNat_ofNat_count hle
  have hidx : (s.blockIndex + BitVec.ofNat 32 s.queue.length).toNat =
      s.blockIndex.toNat + s.queue.length := by
    rw [BitVec.toNat_add, hcount]
    omega
  have hsz : (s.blockSize - BitVec.ofNat 32 s.queue.length).toNat =
      s.blockSize.toNat - s.queue.length := by
    rw [BitVec.toNat_sub_of_le (by rw [BitVec.le_def, hcount]; exact hfit), hcount]
  have hwrite : EventSafe cfg (.write s.blockIndex.toNat s.queue.length) := by
    show s.blockIndex.toNat + s.queue.length ≤ cfg.bufferSize
    omega
  have hsub : EventSafe cfg (.subtract s.blockSize (BitVec.ofNat 32 s.queue.length)) := by
    show (BitVec.ofNat 32 s.queue.length).toNat ≤ s.blockSize.toNat
    omega
  refine ⟨?_, receiveInside_queue, ?_⟩
  · simp only [receiveInside, removeUnits, List.take_length, List.drop_length]
    split
    · split
      · intro e he
        simp only [sendErrorReset, List.cons_append, List.nil_append, List.mem_cons,
          List.not_mem_nil, or_false] at he
        obtain rfl | rfl | rfl := he
        · exact hwrite
        · exact hsub
        · trivial
      · intro e he
        simp only [List.mem_cons, List.not_mem_nil, or_false] at he
        obtain rfl | rfl := he
        · exact hwrite
        · exact hsub
    · -- The block is complete, and its body is not empty.
      rename_i hzero
      rw [not_not] at hzero
      have hall : s.blockSize.toNat = s.queue.length := by
        have := congrArg BitVec.toNat hzero
        rw [hsz] at this
        change s.blockSize.toNat - s.queue.length = 0 at this
        omega
      intro e he
      simp only [blockReceived, List.cons_append, List.nil_append, List.mem_cons,
        List.not_mem_nil, or_false] at he
      obtain rfl | rfl | rfl | rfl | rfl | rfl := he
      · exact hwrite
      · exact hsub
      · trivial
      · trivial
      · show 0 + _ ≤ cfg.bufferSize
        rw [length_response]
        · omega
        · rw [length_window, hidx]
          show 8 < _
          omega
      · trivial
  · intro hstate
    simp only [receiveInside, removeUnits, List.take_length, List.drop_length] at hstate ⊢
    split
    · rename_i hne
      rw [if_pos hne] at hstate
      split
      · rename_i hshort
        rw [if_pos hshort] at hstate
        cases hstate
      · have : s.blockSize.toNat - s.queue.length ≠ 0 := by
          intro hz
          apply hne
          apply BitVec.eq_of_toNat_eq
          rw [hsz, hz]
          rfl
        dsimp only
        omega
    · rename_i hzero
      rw [if_neg hzero] at hstate
      cases hstate

end

/-! ## Runs -/

/-- One call is safe exactly when the chunk fits, and keeps the invariant then. -/
theorem step_safe_iff (sha256 : List UInt8 → List UInt8) {s : State} (hinv : Inv cfg s) (input : Input) :
    ((∀ e ∈ (step cfg sha256 s input).2, EventSafe cfg e) ↔ StepFits s input) ∧
      (StepFits s input → Inv cfg (step cfg sha256 s input).1) := by
  cases input with
  | reset =>
    refine ⟨⟨fun _ => trivial, fun _ e he => absurd he List.not_mem_nil⟩, fun _ => ?_⟩
    exact inv_resetState cfg
  | chunk env now c =>
    have hle := c.length_le
    simp only [step, hinv.queue, List.nil_append, StepFits, updateOutHandler]
    have htimeout : afterTimeout now { s with queue := c.bytes } = afterTimeout now s := rfl
    rw [htimeout]
    cases hst : afterTimeout now s with
    | idle =>
      obtain ⟨h₁, h₂⟩ := receiveIdle_safe
        (s := { s with
          queue := c.bytes
          rxState := .idle
          prevActivityTimestamp :=
            s.prevActivityTimestamp + (now - s.prevActivityTimestamp) }) rfl
      exact ⟨⟨fun _ => trivial, fun _ => h₁⟩, fun _ => h₂⟩
    | outsideBlock =>
      obtain ⟨h₁, h₂⟩ := receiveOutside_safe
        (s := { s with
          queue := c.bytes
          rxState := .outsideBlock
          prevActivityTimestamp :=
            s.prevActivityTimestamp + (now - s.prevActivityTimestamp) })
      exact ⟨h₁, fun _ => h₂⟩
    | insideBlock =>
      have hrx : s.rxState = .insideBlock := by
        simp only [afterTimeout] at hst
        split at hst
        · cases hst
        · exact hst
      have hsafe := fun hfit => receiveInside_safe sha256 env
        (s := { s with
          queue := c.bytes
          rxState := .insideBlock
          prevActivityTimestamp :=
            s.prevActivityTimestamp + (now - s.prevActivityTimestamp) }) hle (hinv.inside hrx) hfit
      refine ⟨⟨fun h => ?_, fun hfit => (hsafe hfit).1⟩, fun hfit => (hsafe hfit).2⟩
      exact receiveInside_unsafe (s := { s with
        queue := c.bytes
        rxState := .insideBlock
        prevActivityTimestamp :=
          s.prevActivityTimestamp + (now - s.prevActivityTimestamp) }) hle h

theorem run_safe_iff {s : State} (hinv : Inv cfg s) (inputs : List Input) :
    (∀ e ∈ (run cfg sha256 s inputs).2, EventSafe cfg e) ↔ RunFits cfg sha256 s inputs := by
  induction inputs generalizing s with
  | nil => exact ⟨fun _ => trivial, fun _ e he => absurd he List.not_mem_nil⟩
  | cons input inputs ih =>
    obtain ⟨hstep, hnext⟩ := step_safe_iff sha256 hinv input
    simp only [run, RunFits, List.forall_mem_append, hstep]
    constructor
    · intro ⟨hfit, hrest⟩
      exact ⟨hfit, (ih (hnext hfit)).mp hrest⟩
    · intro ⟨hfit, hrest⟩
      exact ⟨hfit, (ih (hnext hfit)).mpr hrest⟩

/-- **When the receive buffer is safe.** In every run from reset, all writes stay in
`block_buffer` and `block_size` never wraps, exactly when every chunk fits the
state it finds. -/
theorem receive_buffer_safe_iff (cfg : Config) (sha256 : List UInt8 → List UInt8)
    (inputs : List Input) :
    (∀ e ∈ (run cfg sha256 resetState inputs).2, EventSafe cfg e) ↔
      RunFits cfg sha256 resetState inputs :=
  run_safe_iff (inv_resetState cfg) inputs

theorem exampleRo_fits : (0 : U32).toNat + (0x10000 : U32).toNat < 2 ^ 32 := by decide

theorem exampleRw_fits : (0x10000 : U32).toNat + (0x10000 : U32).toNat < 2 ^ 32 := by decide

/-- A board with the default block size of 1024 bytes. -/
def exampleConfig : Config where
  roMemOff := 0
  roSize := 0x10000
  rwMemOff := 0x10000
  rwSize := 0x10000
  pduSize := 1024
  sha256Enabled := false
  touchpad := none
  roFits := exampleRo_fits
  rwFits := exampleRw_fits
  pduSize_lt := by decide

def exampleEnv : Env := ⟨.ro, 0, none, 0, 0, false, true, true, true, true⟩

/-- A start request, the start of a block with a body of two bytes, and then 17
full chunks. -/
def exampleOverrun : List Input :=
  .chunk exampleEnv 1 ⟨[0, 0, 0, 12, 0, 0, 0, 0, 0, 0, 0, 0], by decide⟩ ::
    .chunk exampleEnv 2 ⟨[0, 0, 0, 14, 0, 0, 0, 0, 0, 1, 0, 0], by decide⟩ ::
    List.replicate 17 (.chunk exampleEnv 3 ⟨List.replicate 64 0, by decide⟩)

/-- With the first full chunk the size left wraps, and the last one is written past
the end of the buffer of 1032 bytes. -/
theorem long_chunks_overrun :
    Event.subtract 2 64 ∈ (run exampleConfig (fun _ => []) resetState exampleOverrun).2 ∧
      Event.write 1032 64 ∈ (run exampleConfig (fun _ => []) resetState exampleOverrun).2 ∧
      ¬∀ e ∈ (run exampleConfig (fun _ => []) resetState exampleOverrun).2,
        EventSafe exampleConfig e := by
  refine ⟨by decide +kernel, by decide +kernel, by decide +kernel⟩

end ChromeEc.UsbUpdate
