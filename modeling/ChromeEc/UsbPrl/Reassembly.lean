import ChromeEc.UsbPrl.Progress

/- The message that chunked Rx puts together from chunks.

  `rch_processing_extended_message` believes the extended header: it takes from the
  chunk as many bytes as `Data Size` lets it expect, up to 26, and never asks how many
  bytes were received. A chunk with fewer of them passes blank bytes up, and a chunk
  with a `Data Size` below what was received already makes the count of missing bytes
  wrap, so that the message gets 26 bytes too many. `ChunkSound` says of a chunk that
  it is neither.

  What is proved: no copy leaves the extended message buffer, whatever the port
  partner sends (`Reachable.bounded`). In every run whose chunks are all sound, a
  message that is passed up has the `Data Size` of its last chunk and consists of bytes
  that were received in its chunks (`reassembly_sound`). -/
namespace ChromeEc.UsbPrl
open Lib

def RchState.receives : RchState → Bool
  | .processingExtendedMessage => true
  | .requestingChunk => true
  | .waitingChunk => true
  | _ => false

theorem Aside.receives {s s' : St} (h : Aside s s') (hst : s'.rch.state.receives = true) :
    s.rch.state.receives = true := by
  obtain heq | heq := h.rch
  · rw [heq] at hst
    exact hst
  · rw [heq] at hst
    cases hst

/-! ## Copies -/

/-- The bytes copied have a place in the extended message buffer. -/
def Event.InBounds : Event → Prop
  | .chunk off n => off + n ≤ EXTENDED_BUFFER_SIZE
  | .copyChunkToExt n => n ≤ EXTENDED_BUFFER_SIZE
  | _ => True

structure Bounded (s : St) : Prop where
  received : s.rch.state.receives = true → s.pdmsg.numBytesReceived ≤ EXTENDED_BUFFER_SIZE
  copies : ∀ ev ∈ s.events, ev.InBounds

theorem Event.Inert.inBounds {ev : Event} (h : ev.Inert) : ev.InBounds := by
  cases ev <;> trivial

theorem Quiet.copies {s s' : St} (h : Quiet s s') (hs : ∀ ev ∈ s.events, ev.InBounds) :
    ∀ ev ∈ s'.events, ev.InBounds := by
  obtain ⟨evs, heq, hin⟩ := h
  intro ev hev
  rw [heq] at hev
  obtain hev | hev := List.mem_append.mp hev
  · exact hs ev hev
  · exact (hin ev hev).inBounds

theorem copies_snoc {log : List Event} {ev : Event} (h : ∀ ev ∈ log, ev.InBounds)
    (hev : ev.InBounds) : ∀ ev' ∈ log ++ [ev], ev'.InBounds := by
  intro ev' hev'
  obtain hmem | hmem := List.mem_append.mp hev'
  · exact h ev' hmem
  · rw [List.mem_singleton.mp hmem]
    exact hev

theorem bounded_rxProperty : RxProperty Bounded where
  aside := by
    intro s s' h hs
    refine ⟨?_, h.events.copies hs.copies⟩
    intro hst
    rw [h.received]
    exact hs.received (h.receives hst)
  take := fun m _ _ hs => ⟨hs.received, copies_snoc hs.copies trivial⟩

theorem append_fits {s : St} (hs : Bounded s) (h : s.rch.state = .processingExtendedMessage)
    (hroom : add32 s.pdmsg.numBytesReceived (byteNum s.pdmsg) ≤ EXTENDED_BUFFER_SIZE) :
    add32 s.pdmsg.numBytesReceived (byteNum s.pdmsg) =
        s.pdmsg.numBytesReceived + byteNum s.pdmsg ∧
      s.pdmsg.numBytesReceived + byteNum s.pdmsg ≤ EXTENDED_BUFFER_SIZE := by
  have hrec := hs.received (by rw [h]; rfl)
  have hnum : byteNum s.pdmsg ≤ PD_MAX_EXTENDED_MSG_CHUNK_LEN := Nat.min_le_right _ _
  have heq : add32 s.pdmsg.numBytesReceived (byteNum s.pdmsg) =
      s.pdmsg.numBytesReceived + byteNum s.pdmsg := by
    simp only [EXTENDED_BUFFER_SIZE, PD_MAX_EXTENDED_MSG_CHUNK_LEN] at hrec hnum
    exact Nat.mod_eq_of_lt (by omega)
  rw [heq] at hroom
  exact ⟨heq, hroom⟩

theorem cnt_in_bounds (h : PdHeader) : h.cnt * 4 ≤ EXTENDED_BUFFER_SIZE := by
  have := h.cnt_le
  simp only [EXTENDED_BUFFER_SIZE]
  omega

theorem rchRun_bounded (e : Env) {s : St} (hs : Inv s) (hb : Bounded s) : Bounded (rchRun e s) := by
  have hruns := rchRun_runs e hs.notPassUp
  generalize rchRun e s = s' at hruns ⊢
  cases hruns with
  | idle h hf => exact hb
  | ignored h hf hext => exact ⟨hb.received, hb.copies⟩
  | first =>
    exact ⟨fun _ => Nat.zero_le _, copies_snoc hb.copies trivial⟩
  | whole =>
    refine ⟨nofun, copies_snoc (copies_snoc hb.copies ?_) trivial⟩
    exact cnt_in_bounds s.rxEmsg.header
  | fail err t ht h hst hf =>
    obtain ⟨u, hcalm, -, hust, -, -, -, -, hev⟩ :=
      rchFail_spec e err (ht.clean hs.clean) (h ▸ hst)
    refine ⟨?_, hcalm.events.copies ?_⟩
    · intro hrec
      have := hcalm.aside.receives hrec
      rw [hust] at this
      cases this
    · have hcopies := ht.events.copies hb.copies
      obtain hev | hev := hev
      · rw [hev]
        exact hcopies
      · rw [hev]
        exact copies_snoc hcopies (cnt_in_bounds _)
  | reset => exact ⟨nofun, hb.copies⟩
  | last timers h hnum hroom hlast =>
    obtain ⟨-, hfit⟩ := append_fits hb h hroom
    exact ⟨nofun, copies_snoc (copies_snoc hb.copies hfit) trivial⟩
  | more timers h hnum hroom hmore =>
    obtain ⟨-, hfit⟩ := append_fits hb h hroom
    exact ⟨fun _ => hroom, copies_snoc hb.copies hfit⟩
  | asked timers t ht h hrch =>
    have hbt := bounded_rxProperty.aside ht.aside hb
    refine ⟨fun _ => hbt.received ?_, hbt.copies⟩
    rw [hrch, h]
    rfl
  | next timers h =>
    exact ⟨fun _ => hb.received (by rw [h]; rfl), hb.copies⟩

theorem Reachable.bounded {s : St} (h : Reachable s) : Bounded s := by
  induction h with
  | boot => exact ⟨nofun, nofun⟩
  | @step s i hs ih =>
    apply bounded_rxProperty.step i hs.inv ih
    intro e t _ ht
    exact rchRun_bounded (e .rch) (rchSees_inv hs.inv ht) (bounded_rxProperty.rchSees hs.inv ih ht)

/-! ## The message so far -/

/-- The bytes that were received in the chunks, of each as many as were taken. -/
def partBytes (parts : List (RxMessage × Nat)) : List UInt8 :=
  parts.flatMap fun p => (p.1.data.drop 2).take p.2

/-- A chunk of which `n` bytes can be taken. -/
structure Chunk (m : RxMessage) (n : Nat) : Prop where
  ext : m.header.ext = true
  chunked : pdExtHeaderChunked m.extHeader = true
  data : 2 + n ≤ m.data.length

instance (m : RxMessage) (n : Nat) : Decidable (Chunk m n) :=
  decidable_of_iff
    (m.header.ext = true ∧ pdExtHeaderChunked m.extHeader = true ∧ 2 + n ≤ m.data.length)
    ⟨fun h => ⟨h.1, h.2.1, h.2.2⟩, fun h => ⟨h.ext, h.chunked, h.data⟩⟩

structure Chunks (parts : List (RxMessage × Nat)) : Prop where
  numbered : parts.map (fun p => pdExtHeaderChunkNum p.1.extHeader) = List.range parts.length
  chunk : ∀ p ∈ parts, Chunk p.1 p.2

theorem Chunks.nil : Chunks [] := ⟨rfl, nofun⟩

theorem Chunks.snoc {parts : List (RxMessage × Nat)} (h : Chunks parts) {m : RxMessage} {n : Nat}
    (hnum : pdExtHeaderChunkNum m.extHeader = parts.length) (hm : Chunk m n) :
    Chunks (parts ++ [(m, n)]) where
  numbered := by
    rw [List.map_append, h.numbered, List.length_append, List.map_singleton, hnum,
      List.length_singleton, List.range_succ]
  chunk := by
    intro p hp
    obtain hp | hp := List.mem_append.mp hp
    · exact h.chunk p hp
    · rw [List.mem_singleton.mp hp]
      exact hm

/-- The message so far consists of chunks, and what was received in them is in the
extended message buffer. -/
structure Assembled (s : St) : Prop where
  chunks : Chunks (asm s.events).parts
  expected : s.pdmsg.chunkNumberExpected = (asm s.events).parts.length
  bytes : window s.rxEmsg.buf 0 s.pdmsg.numBytesReceived = partBytes (asm s.events).parts

theorem Assembled.of_eq {s s' : St} (h : Assembled s)
    (hparts : (asm s'.events).parts = (asm s.events).parts) (hbuf : s'.rxEmsg.buf = s.rxEmsg.buf)
    (hexp : s'.pdmsg.chunkNumberExpected = s.pdmsg.chunkNumberExpected)
    (hrec : s'.pdmsg.numBytesReceived = s.pdmsg.numBytesReceived) : Assembled s' where
  chunks := by
    rw [hparts]
    exact h.chunks
  expected := by
    rw [hparts, hexp]
    exact h.expected
  bytes := by
    rw [hparts, hbuf, hrec]
    exact h.bytes

def Assembling (s : St) : Prop := s.rch.state.receives = true → Assembled s

theorem assembling_rxProperty : RxProperty Assembling where
  aside := by
    intro s s' h hs hst
    refine (hs (h.receives hst)).of_eq ?_ h.buf h.expected h.received
    rw [h.events.asm]
  take := by
    intro m rest s hs hst
    refine (hs hst).of_eq ?_ rfl rfl rfl
    show (asm (s.events ++ [.dequeue m])).parts = _
    rw [asm_snoc]
    rfl

/-- A chunk is sound if it is one, if the `Data Size` that it states is no less than
what has been received, and if it holds the bytes that it is expected to hold: what
is missing of the message, or 26. Nothing is asked of a chunk that is not
appended. -/
def ChunkSound (t : St) : Prop :=
  t.rch.state = .processingExtendedMessage →
    pdExtHeaderChunkNum t.pdmsg.exhdr = t.pdmsg.chunkNumberExpected →
    add32 t.pdmsg.numBytesReceived (byteNum t.pdmsg) ≤ EXTENDED_BUFFER_SIZE →
    t.pdmsg.numBytesReceived ≤ pdExtHeaderDataSize t.pdmsg.exhdr ∧
    ∀ m ∈ (asm t.events).cur,
      Chunk m (min (pdExtHeaderDataSize t.pdmsg.exhdr - t.pdmsg.numBytesReceived)
        PD_MAX_EXTENDED_MSG_CHUNK_LEN)

instance (t : St) : Decidable (ChunkSound t) :=
  inferInstanceAs (Decidable (_ → _ → _ → _ ∧ ∀ m ∈ (asm t.events).cur, Chunk m _))

theorem Held.exhdr {s : St} {m : RxMessage}
    (h : ∀ i < CHK_BUF_SIZE_BYTES, s.pdmsg.rxChkBuf i = m.payload i) :
    s.pdmsg.exhdr = m.extHeader := by
  rw [PdMessage.exhdr, RxMessage.extHeader, h 0 (by decide), h 1 (by decide)]

structure Appends (t : St) : Prop where
  state : t.rch.state = .processingExtendedMessage
  number : pdExtHeaderChunkNum t.pdmsg.exhdr = t.pdmsg.chunkNumberExpected
  room : add32 t.pdmsg.numBytesReceived (byteNum t.pdmsg) ≤ EXTENDED_BUFFER_SIZE

theorem rchAppend_parts {t : St} {m : RxMessage} (hcur : (asm t.events).cur = some m) :
    (asm (rchAppend t).events).parts = (asm t.events).parts ++ [(m, byteNum t.pdmsg)] := by
  show (asm (t.events ++ [.chunk _ _])).parts = _
  rw [asm_snoc, Asm.next, hcur]
  rfl

theorem rchAppend_bytes {t : St} (hb : Bounded t) (h : Appends t) {m : RxMessage}
    (hheld : ∀ i < CHK_BUF_SIZE_BYTES, t.pdmsg.rxChkBuf i = m.payload i)
    (hdata : 2 + byteNum t.pdmsg ≤ m.data.length) :
    window (rchAppend t).rxEmsg.buf 0 (rchAppend t).pdmsg.numBytesReceived =
      window t.rxEmsg.buf 0 t.pdmsg.numBytesReceived ++
        (m.data.drop 2).take (byteNum t.pdmsg) := by
  have hle := m.data_le
  have hchunk : window (fun i => t.pdmsg.rxChkBuf (2 + i)) 0 (byteNum t.pdmsg) =
      (m.data.drop 2).take (byteNum t.pdmsg) := by
    calc window (fun i => t.pdmsg.rxChkBuf (2 + i)) 0 (byteNum t.pdmsg)
        = window (fun i => m.data.getD i 0) 2 (byteNum t.pdmsg) := by
          apply window_congr
          intro i hi
          show t.pdmsg.rxChkBuf (2 + (0 + i)) = m.payload (2 + i)
          rw [Nat.zero_add, hheld _ (by omega)]
      _ = (m.data.drop 2).take (byteNum t.pdmsg) := window_getD m.data 0 hdata
  show window (blit t.rxEmsg.buf t.pdmsg.numBytesReceived (fun i => t.pdmsg.rxChkBuf (2 + i))
    (byteNum t.pdmsg)) 0 (add32 t.pdmsg.numBytesReceived (byteNum t.pdmsg)) = _
  rw [(append_fits hb h.state h.room).1, window_blit_end, hchunk]

theorem rchAppend_assembled {t : St} (hs : Inv t) (hb : Bounded t) (ha : Assembled t)
    (h : Appends t) (hsound : ChunkSound t) :
    Assembled (rchAppend t) ∧ ∃ m, (asm t.events).cur = some m ∧ t.rxEmsg.header = m.header ∧
      t.pdmsg.exhdr = m.extHeader ∧ t.pdmsg.numBytesReceived ≤ pdExtHeaderDataSize m.extHeader := by
  obtain ⟨m, hcur, hheader, hheld⟩ := hs.held (.inl h.state)
  have hex := Held.exhdr hheld
  obtain ⟨hle, hchunk⟩ := hsound h.state h.number h.room
  have hm := hchunk m hcur
  rw [← byteNum_eq hle] at hm
  have hparts := rchAppend_parts hcur
  have hnum := h.number
  rw [hex, ha.expected] at hnum
  refine ⟨⟨?_, ?_, ?_⟩, m, hcur, hheader, hex, hex ▸ hle⟩
  · rw [hparts]
    exact ha.chunks.snoc hnum hm
  · rw [hparts, List.length_append]
    show add32 t.pdmsg.chunkNumberExpected 1 = _
    have hlt : pdExtHeaderChunkNum t.pdmsg.exhdr < 16 := by
      rw [pdExtHeaderChunkNum, BitVec.toNat_and]
      exact Nat.lt_succ_of_le Nat.and_le_right
    rw [← ha.expected, ← h.number]
    exact Nat.mod_eq_of_lt (by omega)
  · rw [hparts, rchAppend_bytes hb h hheld hm.data, ha.bytes, partBytes, partBytes,
      List.flatMap_append]
    simp

theorem rchRun_assembling (e : Env) {t : St} (hs : Inv t) (hb : Bounded t) (ha : Assembling t)
    (hsound : ChunkSound t) : Assembling (rchRun e t) := by
  have hruns := rchRun_runs e hs.notPassUp
  generalize rchRun e t = t' at hruns ⊢
  cases hruns with
  | idle => exact ha
  | ignored => exact fun hst => (ha hst).of_eq rfl rfl rfl rfl
  | first =>
    intro _
    have hparts : (asm (t.events ++ [.firstChunk])).parts = [] := by
      rw [asm_snoc]
      rfl
    refine ⟨?_, ?_, ?_⟩
    · show Chunks (asm (t.events ++ [.firstChunk])).parts
      rw [hparts]
      exact .nil
    · show 0 = (asm (t.events ++ [.firstChunk])).parts.length
      rw [hparts]
      rfl
    · show [] = partBytes (asm (t.events ++ [.firstChunk])).parts
      rw [hparts]
      rfl
  | whole => exact nofun
  | fail err u hu h hst hf =>
    intro hrec
    obtain ⟨v, hcalm, -, hvst, -⟩ := rchFail_spec e err (hu.clean hs.clean) (h ▸ hst)
    have := hcalm.aside.receives hrec
    rw [hvst] at this
    cases this
  | reset => exact nofun
  | last => exact nofun
  | more timers h hnum hroom hmore =>
    intro _
    obtain ⟨happ, -⟩ := rchAppend_assembled hs hb (ha (by rw [h]; rfl)) ⟨h, hnum, hroom⟩ hsound
    exact happ.of_eq rfl rfl rfl rfl
  | asked timers u hu h hrch =>
    intro _
    exact (assembling_rxProperty.aside hu.aside ha (by rw [hrch, h]; rfl)).of_eq rfl rfl rfl rfl
  | next timers h =>
    intro _
    exact (ha (by rw [h]; rfl)).of_eq rfl rfl rfl rfl

/-! ## Runs -/

/-- The runs in which every chunk that is appended is sound. -/
inductive SoundRun : St → Prop
  | boot : SoundRun boot
  | step {s : St} (i : Input) : SoundRun s →
      (∀ e t, i = .run e true → rchSees e s = some t → ChunkSound t) → SoundRun (step s i)

theorem SoundRun.reachable {s : St} (h : SoundRun s) : Reachable s := by
  induction h with
  | boot => exact .boot
  | step i _ _ ih => exact .step i ih

theorem SoundRun.assembling {s : St} (h : SoundRun s) : Assembling s := by
  induction h with
  | boot => exact nofun
  | @step s i hs hsound ih =>
    have hinv := hs.reachable.inv
    have hbounded := hs.reachable.bounded
    apply assembling_rxProperty.step i hinv ih
    intro e t hi ht
    exact rchRun_assembling (e .rch) (rchSees_inv hinv ht)
      (bounded_rxProperty.rchSees hinv hbounded ht)
      (assembling_rxProperty.rchSees hinv ih ht) (hsound e t hi ht)

/-- Chunked Rx appends a chunk and passes the message up. -/
def PassesUp (e : Env) (t : St) (h : PdHeader) (bytes : List UInt8) : Prop :=
  ∃ off n, (rchRun e t).events = t.events ++ [.chunk off n, .pe (.messageReceived h bytes)]

def NoChunk (s s' : St) : Prop :=
  ∃ evs, s'.events = s.events ++ evs ∧ ∀ off n, Event.chunk off n ∉ evs

theorem Quiet.noChunk {s s' : St} (h : Quiet s s') : NoChunk s s' := by
  obtain ⟨evs, heq, hin⟩ := h
  exact ⟨evs, heq, fun off n hmem => hin _ hmem⟩

theorem NoChunk.trans {s₁ s₂ s₃ : St} (h : NoChunk s₁ s₂) (h' : NoChunk s₂ s₃) : NoChunk s₁ s₃ := by
  obtain ⟨evs, heq, hin⟩ := h
  obtain ⟨evs', heq', hin'⟩ := h'
  refine ⟨evs ++ evs', by rw [heq', heq, List.append_assoc], fun off n hmem => ?_⟩
  obtain hmem | hmem := List.mem_append.mp hmem
  · exact hin off n hmem
  · exact hin' off n hmem

theorem NoChunk.ne {s s' : St} (h : NoChunk s s') {off n : Nat} {rest : List Event} :
    s'.events ≠ s.events ++ .chunk off n :: rest := by
  obtain ⟨evs, heq, hin⟩ := h
  intro heq'
  rw [heq] at heq'
  have := List.append_cancel_left heq'
  exact hin off n (by simp [this])

theorem rchFail_noChunk (e : Env) (err : PeError) {s : St} (hs : HrClean s)
    (hst : s.rch.state ≠ .reportError) : NoChunk s (rchFail e err s) := by
  obtain ⟨u, hcalm, -, -, -, -, -, -, hev⟩ := rchFail_spec e err hs hst
  have hu : NoChunk s u := by
    obtain hev | hev := hev
    · exact ⟨[], by rw [hev, List.append_nil], nofun⟩
    · exact ⟨_, hev, by simp⟩
  exact hu.trans hcalm.events.noChunk

theorem PassesUp.last {e : Env} {t : St} {h : PdHeader} {bytes : List UInt8} (hs : Inv t)
    (hup : PassesUp e t h bytes) :
    Appends t ∧ pdExtHeaderDataSize t.pdmsg.exhdr ≤ (rchAppend t).pdmsg.numBytesReceived ∧
      h = t.rxEmsg.header ∧
      bytes = window (rchAppend t).rxEmsg.buf 0 (rchAppend t).pdmsg.numBytesReceived ∧
      (asm (rchRun e t).events).parts = (asm (rchAppend t).events).parts := by
  obtain ⟨off, n, hev⟩ := hup
  have hruns := rchRun_runs e hs.notPassUp
  generalize rchRun e t = t' at hruns hev ⊢
  cases hruns with
  | idle => exact absurd hev (Quiet.of_eq rfl).noChunk.ne
  | ignored => exact absurd hev (Quiet.of_eq rfl).noChunk.ne
  | first => exact absurd hev (NoChunk.ne ⟨[.firstChunk], rfl, by simp⟩)
  | whole =>
    refine absurd hev (NoChunk.ne ⟨[_, _], List.append_assoc t.events [_] [_], ?_⟩)
    simp
  | fail err u hu hst hne hf =>
    have hfail := rchFail_noChunk e err (hu.clean hs.clean) (hst ▸ hne)
    exact absurd hev (hu.events.noChunk.trans hfail).ne
  | reset => exact absurd hev (Quiet.of_eq rfl).noChunk.ne
  | last timers hst hnum hroom hlast =>
    have hev' : t.events ++ [.chunk _ _] ++ [.pe (.messageReceived t.rxEmsg.header
        (window (rchAppend t).rxEmsg.buf 0 (rchAppend t).pdmsg.numBytesReceived))] = _ := hev
    rw [List.append_assoc] at hev'
    have htail := List.append_cancel_left hev'
    simp only [List.cons_append, List.nil_append, List.cons.injEq, Event.pe.injEq,
      PeCall.messageReceived.injEq] at htail
    obtain ⟨-, ⟨hh, hbytes⟩, -⟩ := htail
    refine ⟨⟨hst, hnum, hroom⟩, hlast, hh.symm, hbytes.symm, ?_⟩
    show (asm ((rchAppend t).events ++ [.pe _])).parts = _
    rw [asm_snoc]
    rfl
  | more timers hst hnum hroom hmore =>
    have hev' : t.events ++ [.chunk _ _] = _ := hev
    have htail := List.append_cancel_left hev'
    simp at htail
  | asked timers u hu => exact absurd hev hu.events.noChunk.ne
  | next => exact absurd hev (Quiet.of_eq rfl).noChunk.ne

/-- **What is passed up.** In every run whose chunks are sound, no copy leaves the
extended message buffer, and a message that is passed up after a chunk was appended
has the `Data Size` of that chunk and consists of the bytes that were received in
the chunks of the message, in the order of their numbers. -/
theorem reassembly_sound {s : St} (hs : SoundRun s) :
    (∀ ev ∈ s.events, ev.InBounds) ∧
    ∀ (e : RunEnv) (t : St), rchSees e s = some t → ChunkSound t →
      ∀ h bytes, PassesUp (e .rch) t h bytes →
        Chunks (asm (rchRun (e .rch) t).events).parts ∧
        bytes = partBytes (asm (rchRun (e .rch) t).events).parts ∧
        ∃ m, (asm t.events).cur = some m ∧ h = m.header ∧
          bytes.length = pdExtHeaderDataSize m.extHeader := by
  refine ⟨hs.reachable.bounded.copies, ?_⟩
  intro e t ht hsound h bytes hup
  have hs₀ := hs.reachable.inv
  have hinv := rchSees_inv hs₀ ht
  have hbounded := bounded_rxProperty.rchSees hs₀ hs.reachable.bounded ht
  have hassembling := assembling_rxProperty.rchSees hs₀ hs.assembling ht
  obtain ⟨happ, hlast, hh, hbytes, hparts⟩ := hup.last hinv
  obtain ⟨hdone, m, hcur, hheader, hex, hle⟩ := rchAppend_assembled hinv hbounded
    (hassembling (by rw [happ.state]; rfl)) happ hsound
  rw [hparts]
  refine ⟨hdone.chunks, hbytes.trans hdone.bytes, m, hcur, hh.trans hheader, ?_⟩
  rw [hbytes, length_window]
  -- The bytes counted reach the size, and are never more.
  have hcount : (rchAppend t).pdmsg.numBytesReceived =
      t.pdmsg.numBytesReceived + byteNum t.pdmsg := (append_fits hbounded happ.state happ.room).1
  rw [hex] at hlast
  have hnum : byteNum t.pdmsg ≤ pdExtHeaderDataSize m.extHeader - t.pdmsg.numBytesReceived := by
    rw [byteNum_eq (hex ▸ hle), hex]
    exact Nat.min_le_left _ _
  omega

/-! ## Two runs -/

/-- The steps of a run, checked one after the other. -/
def SoundSteps (s : St) : List Input → Prop
  | [] => True
  | i :: ins =>
    (match i with
      | .run e true => ∀ t ∈ rchSees e s, ChunkSound t
      | _ => True) ∧ SoundSteps (step s i) ins

instance decidableSoundSteps (s : St) : (ins : List Input) → Decidable (SoundSteps s ins)
  | [] => .isTrue trivial
  | .run e true :: ins =>
    haveI := decidableSoundSteps (step s (.run e true)) ins
    inferInstanceAs (Decidable ((∀ t ∈ rchSees e s, ChunkSound t) ∧ _))
  | .run e false :: ins =>
    haveI := decidableSoundSteps (step s (.run e false)) ins
    inferInstanceAs (Decidable (True ∧ _))
  | .call e c :: ins =>
    haveI := decidableSoundSteps (step s (.call e c)) ins
    inferInstanceAs (Decidable (True ∧ _))
  | .enqueueMessage m :: ins =>
    haveI := decidableSoundSteps (step s (.enqueueMessage m)) ins
    inferInstanceAs (Decidable (True ∧ _))
  | .clearPendingMessages :: ins =>
    haveI := decidableSoundSteps (step s .clearPendingMessages) ins
    inferInstanceAs (Decidable (True ∧ _))

theorem SoundRun.foldl (ins : List Input) {s : St} (hs : SoundRun s) (h : SoundSteps s ins) :
    SoundRun (ins.foldl UsbPrl.step s) := by
  induction ins generalizing s with
  | nil => exact hs
  | cons i ins ih =>
    refine ih (.step i hs ?_) h.2
    rintro e t rfl ht
    exact h.1 t ht

def secondOfTwoChunks : RxMessage where
  header := ⟨.sop, 0xa281⟩
  data := [0x1e, 0x88, 1, 2, 3, 4, 0, 0]
  data_le := by decide

/-- A message of 30 bytes is received in two chunks. -/
def twoChunks : List Input :=
  let run : Input := .run (fun _ => quietEnv) true
  [.call quietEnv .prlSetDefaultPdRevision, run, .enqueueMessage firstOfTwoChunks, run, run,
    .call quietEnv (.pdTransmitComplete .success), run, run, .enqueueMessage secondOfTwoChunks, run]

theorem reassembly_sound_two_chunks :
    SoundRun (twoChunks.foldl step boot) ∧
      ∃ t bytes, rchSees (fun _ => quietEnv) (twoChunks.foldl step boot) = some t ∧ ChunkSound t ∧
        PassesUp quietEnv t secondOfTwoChunks.header bytes ∧
        bytes = List.replicate 26 0x5a ++ [1, 2, 3, 4] ∧
        bytes = partBytes (asm (rchRun quietEnv t).events).parts := by
  have hrun : SoundRun (twoChunks.foldl step boot) := .foldl twoChunks .boot (by decide +kernel)
  have hlast : ∃ t ∈ rchSees (fun _ => quietEnv) (twoChunks.foldl step boot),
      ChunkSound t ∧ (rchRun quietEnv t).events = t.events ++ [.chunk 26 4,
        .pe (.messageReceived secondOfTwoChunks.header (List.replicate 26 0x5a ++ [1, 2, 3, 4]))] := by
    decide +kernel
  obtain ⟨t, ht, hsound, hev⟩ := hlast
  have hall := (reassembly_sound hrun).2 (fun _ => quietEnv) t ht hsound _ _ ⟨26, 4, hev⟩
  exact ⟨hrun, t, _, ht, hsound, ⟨26, 4, hev⟩, rfl, hall.2.1⟩

/-- The only chunk of a message that should have 26 bytes, with two of them. -/
def shortChunk : RxMessage where
  header := ⟨.sop, 0x9081⟩
  data := [0x1a, 0x80, 1, 2]
  data_le := by decide

def oneShortChunk : List Input :=
  let run : Input := .run (fun _ => quietEnv) true
  [.call quietEnv .prlSetDefaultPdRevision, run, .enqueueMessage shortChunk, run]

/-- A message of 26 bytes is passed up of which two were received. -/
theorem short_chunk_passed_up :
    ∃ t bytes, Reachable (oneShortChunk.foldl step boot) ∧
      rchSees (fun _ => quietEnv) (oneShortChunk.foldl step boot) = some t ∧
      PassesUp quietEnv t shortChunk.header bytes ∧ bytes.length = 26 ∧
      (asm (rchRun quietEnv t).events).parts.map (fun p => p.1) = [shortChunk] ∧
      bytes ≠ partBytes (asm (rchRun quietEnv t).events).parts := by
  have hlast : ∃ t ∈ rchSees (fun _ => quietEnv) (oneShortChunk.foldl step boot),
      (rchRun quietEnv t).events = t.events ++ [.chunk 0 26,
        .pe (.messageReceived shortChunk.header ([1, 2] ++ List.replicate 24 0))] ∧
      (asm (rchRun quietEnv t).events).parts.map (fun p => p.1) = [shortChunk] ∧
      [1, 2] ++ List.replicate 24 0 ≠ partBytes (asm (rchRun quietEnv t).events).parts := by
    decide +kernel
  obtain ⟨t, ht, hev, hparts, hne⟩ := hlast
  exact ⟨t, _, reachable_foldl _ .boot, ht, ⟨0, 26, hev⟩, rfl, hparts, hne⟩

end ChromeEc.UsbPrl
