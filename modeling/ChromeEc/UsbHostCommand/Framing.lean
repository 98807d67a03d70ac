import ChromeEc.UsbHostCommand.Model
import ChromeEc.Lib.Steps
import Mathlib.Data.List.Nodup

/- What is passed on and sent back is what was asked and answered.

  An observer collects the bytes of a request from the chunk on that starts one, and
  remembers whether each of these chunks found the queue empty. It also has the response that
  was accepted last, and the bytes that were put in the queue to the host since.

  A packet is the bytes of its request when none of the chunks came behind bytes that were
  left in the queue. The bytes sent are those of the response while `out_index` counts them,
  which it does not when a response before was given up or when the queue had no room, and
  while no other command writes to `out_msg`. -/
namespace ChromeEc.UsbHostCommand
open Lib Steps

variable {s s' : St} {c : Call}

structure Seen where
  got : List Received
  fresh : Bool
  response : List Prepared
  put : List Prepared

def Seen.initial : Seen := ⟨[], true, [], []⟩

/-- A response is accepted from the command that completes. -/
def Accepts (response : List UInt8) (s : St) : Prop := s.state = .processing ∧ response.length ≤ maxResponseSize

instance {response : List UInt8} : Decidable (Accepts response s) :=
  inferInstanceAs (Decidable (_ ∧ _))

def Seen.chunk (a : Seen) (bytes : List UInt8) (now : BitVec 64) (s : St) : Seen :=
  match recovered now s with
  | .readyToRx => { a with got := numbered s.received bytes, fresh := s.rxQueue.isEmpty }
  | .receiving => { a with got := a.got ++ numbered s.received bytes, fresh := a.fresh && s.rxQueue.isEmpty }
  | _ => a

def Seen.complete (a : Seen) (response : List UInt8) (s : St) : Seen :=
  if Accepts response s then { a with response := prepared (s.responses + 1) response, put := [] } else a

def watch (a : Seen) : St × Call → Seen
  | (s, .chunk bytes now) => a.chunk bytes now s
  | (s, .hostRead count) => { a with put := a.put ++ ((call (.hostRead count) s).map fun r => r.1.put).getD [] }
  | (s, .complete response) =>
    let a := a.complete response s
    { a with put := a.put ++ ((call (.complete response) s).map fun r => r.1.put).getD [] }

def IsRequest (bytes : List Received) : Prop :=
  bytes.length = hostRequestExpectedSize fun i => ((bytes[i]?).getD default).value

instance {bytes : List Received} : Decidable (IsRequest bytes) :=
  inferInstanceAs (Decidable (_ = _))

/-- A response is sent to its end. -/
def Ended (s' : St) : St × Call → Prop
  | (_, .chunk _ _) => False
  | (s, .hostRead _) => s.state = .sending ∧ s'.state = .readyToRx
  | (s, .complete response) => Accepts response s ∧ s'.state = .readyToRx

/-- What the step wrote is in `in_msg`, what it passed on is the request, and what is sent is the beginning of the
response, and all of it at the end. -/
def Framed (a : Seen) (x : St × Call) : Prop :=
  ∀ out s', call x.2 x.1 = some (out, s') →
    (∀ w ∈ out.wrote, w.1 + w.2 ≤ maxRequestSize) ∧
      (∀ packet ∈ out.given, packet = (watch a x).got ∧ IsRequest packet) ∧
      (watch a x).put <+: (watch a x).response ∧ (Ended s' x → (watch a x).put = (watch a x).response)

/-- The first chunk of a request is a packet. -/
def FillsFirst (count : Nat) (s : St) : Prop :=
  let header := values (removeUnits 0 count s).inMsg
  HostCommand.structVersion header 0 = HostCommand.EC_HOST_REQUEST_VERSION ∧
    hostRequestExpectedSize header ≤ count ∧ hostRequestExpectedSize header ≤ maxRequestSize

/-- One more chunk is the last one of a packet. -/
def FillsNext (count : Nat) (s : St) : Prop :=
  s.blockIndex.toNat + count = s.expectedSize.toNat ∧ s.blockIndex.toNat + count ≤ maxRequestSize

def Fills (count : Nat) (now : BitVec 64) (s : St) : Prop :=
  match recovered now s with
  | .readyToRx => FillsFirst count s
  | .receiving => FillsNext count s
  | _ => False

/-- The bytes that are next for the host, as far as the queue has room, are the next ones of the response, and the last
ones are its last ones. -/
def Intact (count : Nat) (a : Seen) (s : St) : Prop :=
  let n := min (pieceLen count s) (bufferUnits - s.txQueue.length)
  (0 < n → s.outIndex.toNat = a.put.length ∧ ∀ k < n, s.outMsg (s.outIndex.toNat + k) ∈ a.response) ∧
    (s.outSize ≤ s.outIndex + BitVec.ofNat 32 (pieceLen count s) → a.put.length + n = a.response.length)

def taken (count : Nat) (s : St) : St := { s with txQueue := s.txQueue.drop (min count s.txQueue.length) }

def ready (response : List UInt8) (s : St) : St :=
  { prepare response s with outSize := BitVec.ofNat 32 response.length, state := .sending }

/-- A chunk that is the last one of a packet is the last one of a request whose chunks all found the queue empty, and a
piece of a response is intact. -/
def Unmixed (a : Seen) : St × Call → Prop
  | (s, .chunk bytes now) =>
    Fills bytes.length now (arrive bytes s) → (a.chunk bytes now s).fresh = true ∧ IsRequest (a.chunk bytes now s).got
  | (s, .hostRead count) =>
    s.state = .sending → 0 < min count s.txQueue.length → Intact (min count s.txQueue.length) a (taken count s)
  | (s, .complete response) => Accepts response s → Intact bufferUnits (a.complete response s) (ready response s)

structure Holds (s : St) (a : Seen) : Prop where
  index : s.blockIndex.toNat ≤ maxRequestSize
  numbers : ∀ b ∈ s.rxQueue, b.number ≤ s.received
  receiving : s.state = .receiving →
    s.blockIndex.toNat = a.got.length ∧ (Memory.read s.inMsg 0 s.blockIndex.toNat = a.got ↔ a.fresh = true)
  older : (∀ k, (s.outMsg k).response ≤ s.responses) ∧ ∀ b ∈ a.response, b.response ≤ s.responses
  nodup : a.response.Nodup
  placed : ∀ k, s.outMsg k ∈ a.response → a.response[k]? = some (s.outMsg k)
  size : s.outSize.toNat = a.response.length
  sent : a.put <+: a.response

/-! ## Bytes that are told apart -/

theorem length_numbered {received : Nat} {bytes : List UInt8} : (numbered received bytes).length = bytes.length := by
  simp [numbered]

theorem mem_numbered {received : Nat} {bytes : List UInt8} {b : Received} (h : b ∈ numbered received bytes) :
    received < b.number ∧ b.number ≤ received + bytes.length := by
  obtain ⟨⟨v, i⟩, hi, rfl⟩ := List.mem_map.mp h
  have hlt : i < bytes.length := by
    have hi' := List.mem_zipIdx hi
    omega
  exact ⟨by dsimp only; omega, by dsimp only; omega⟩

theorem length_prepared {number : Nat} {bytes : List UInt8} : (prepared number bytes).length = bytes.length := by
  simp [prepared]

theorem getElem?_prepared {number k : Nat} {bytes : List UInt8} :
    (prepared number bytes)[k]? = bytes[k]?.map fun v => ⟨v, number, k⟩ := by
  simp [prepared, Function.comp_def]

theorem mem_prepared {number : Nat} {bytes : List UInt8} {b : Prepared} (h : b ∈ prepared number bytes) :
    b.response = number ∧ (prepared number bytes)[b.index]? = some b := by
  obtain ⟨i, hi⟩ := List.mem_iff_getElem?.mp h
  have hfrom := hi
  rw [getElem?_prepared, Option.map_eq_some_iff] at hfrom
  obtain ⟨v, -, rfl⟩ := hfrom
  exact ⟨rfl, hi⟩

theorem nodup_prepared {number : Nat} {bytes : List UInt8} : (prepared number bytes).Nodup := by
  have hindex : ((prepared number bytes).map Prepared.index).Nodup := by
    have hrange : (prepared number bytes).map Prepared.index = List.range bytes.length := by
      simp [prepared, List.zipIdx_map_snd, List.range_eq_range', Function.comp_def]
    rw [hrange]
    exact List.nodup_range
  exact List.Nodup.of_map _ hindex

/-- The oldest bytes of the queue are the chunk only if there are no others. -/
theorem take_eq_iff {q : List Received} {received : Nat} {bytes : List UInt8} (hpos : 0 < bytes.length)
    (hnumbers : ∀ b ∈ q, b.number ≤ received) :
    (q ++ numbered received bytes).take bytes.length = numbered received bytes ↔ q = [] := by
  constructor
  · intro h
    cases q with
    | nil => rfl
    | cons b q =>
      have hmem : b ∈ numbered received bytes := by
        rw [← h]
        obtain ⟨n, hn⟩ := Nat.exists_eq_succ_of_ne_zero (Nat.pos_iff_ne_zero.mp hpos)
        rw [hn, List.cons_append, List.take_succ_cons]
        exact List.mem_cons_self
      have hnew := (mem_numbered hmem).1
      have hold := hnumbers b List.mem_cons_self
      omega
  · rintro rfl
    rw [List.nil_append, ← length_numbered, List.take_length]

/-! ## Chunks -/

theorem expectedSize_lt {r : HostCommand.Mem} : hostRequestExpectedSize r < 2 ^ 17 := by
  have hlen := (HostCommand.dataLen r 0).isLt
  unfold hostRequestExpectedSize HostCommand.HEADER_SIZE
  split
  · decide
  · split
    · decide
    · omega

/-- What was in front of the bytes that are removed stays there. -/
theorem read_removeUnits {offset count : Nat} (h : count ≤ s.rxQueue.length) :
    Memory.read (removeUnits offset count s).inMsg 0 (offset + count) =
      Memory.read s.inMsg 0 offset ++ s.rxQueue.take count := by
  have hmin : min count s.rxQueue.length = count := Nat.min_eq_left h
  have hin : (removeUnits offset count s).inMsg =
      Memory.copy s.inMsg offset (min count s.rxQueue.length) fun i => (s.rxQueue[i]?).getD default := rfl
  have hlen : (s.rxQueue.take count).length = count := by rw [List.length_take, hmin]
  rw [Memory.read_add, Nat.zero_add]
  congr 1
  · apply Memory.read_congr
    intro k _ hk
    rw [Nat.zero_add] at hk
    rw [hin]
    exact Memory.copy_of_lt hk
  · have hheld : Memory.Holds (removeUnits offset count s).inMsg offset (s.rxQueue.take count) := by
      intro i hi
      have hi' : i < count := hlen ▸ hi
      rw [hin, hmin, Memory.copy_inside hi']
      simp [List.getElem?_eq_getElem (Nat.lt_of_lt_of_le hi' h)]
    have hread := Memory.read_eq_iff.mpr hheld
    rwa [hlen] at hread

/-- What a chunk does, of which the request of `s'` is `got`. -/
structure Takes (fills : Prop) (got : List Received) (fresh : Bool) (s : St) (out : Outcome) (s' : St) : Prop where
  inside : ∀ w ∈ out.wrote, w.1 + w.2 ≤ maxRequestSize
  given : ∀ packet, out.given = some packet ↔ fills ∧ packet = Memory.read s'.inMsg 0 got.length
  same : fills ∨ s'.state = .receiving → (Memory.read s'.inMsg 0 got.length = got ↔ fresh = true)
  index : s'.blockIndex.toNat ≤ maxRequestSize
  receiving : s'.state = .receiving → s'.blockIndex.toNat = got.length
  queue : ∀ b ∈ s'.rxQueue, b ∈ s.rxQueue
  kept : s'.outMsg = s.outMsg ∧ s'.outSize = s.outSize ∧ s'.responses = s.responses ∧ s'.received = s.received
variable {fills : Prop} {got : List Received} {fresh : Bool} {out : Outcome}

theorem Takes.refused (hinside : ∀ w ∈ out.wrote, w.1 + w.2 ≤ maxRequestSize) (hnone : out.given = none) (hnot : ¬fills)
    (hindex : s'.blockIndex.toNat ≤ maxRequestSize) (hstate : s'.state ≠ .receiving)
    (hqueue : ∀ b ∈ s'.rxQueue, b ∈ s.rxQueue)
    (hkept : s'.outMsg = s.outMsg ∧ s'.outSize = s.outSize ∧ s'.responses = s.responses ∧ s'.received = s.received) :
    Takes fills got fresh s out s' where
  inside := hinside
  given packet := iff_of_false (by simp [hnone]) fun h => hnot h.1
  same h := (h.resolve_left hnot |> hstate).elim
  index := hindex
  receiving h := absurd h hstate
  queue := hqueue
  kept := hkept

theorem Takes.more (hinside : ∀ w ∈ out.wrote, w.1 + w.2 ≤ maxRequestSize) (hnone : out.given = none) (hnot : ¬fills)
    (hsame : Memory.read s'.inMsg 0 got.length = got ↔ fresh = true) (hindex : s'.blockIndex.toNat ≤ maxRequestSize)
    (hgot : s'.blockIndex.toNat = got.length) (hqueue : ∀ b ∈ s'.rxQueue, b ∈ s.rxQueue)
    (hkept : s'.outMsg = s.outMsg ∧ s'.outSize = s.outSize ∧ s'.responses = s.responses ∧ s'.received = s.received) :
    Takes fills got fresh s out s' where
  inside := hinside
  given packet := iff_of_false (by simp [hnone]) fun h => hnot h.1
  same _ := hsame
  index := hindex
  receiving _ := hgot
  queue := hqueue
  kept := hkept

theorem Takes.packet (hinside : ∀ w ∈ out.wrote, w.1 + w.2 ≤ maxRequestSize) (hfills : fills)
    (hgiven : out.given = some (Memory.read s'.inMsg 0 got.length))
    (hsame : Memory.read s'.inMsg 0 got.length = got ↔ fresh = true) (hindex : s'.blockIndex.toNat ≤ maxRequestSize)
    (hstate : s'.state ≠ .receiving) (hqueue : ∀ b ∈ s'.rxQueue, b ∈ s.rxQueue)
    (hkept : s'.outMsg = s.outMsg ∧ s'.outSize = s.outSize ∧ s'.responses = s.responses ∧ s'.received = s.received) :
    Takes fills got fresh s out s' where
  inside := hinside
  given packet := by
    rw [hgiven, Option.some.injEq]
    exact ⟨fun h => ⟨hfills, h.symm⟩, fun h => h.2.symm⟩
  same _ := hsame
  index := hindex
  receiving h := absurd h hstate
  queue := hqueue
  kept := hkept

theorem startRequest_takes {count : Nat} (hstate : s.state = .readyToRx) (hcount : count ≤ bufferUnits)
    (hgot : got.length = count) (hsame : Memory.read (removeUnits 0 count s).inMsg 0 count = got ↔ fresh = true) :
    Takes (FillsFirst count s) got fresh s (startRequest count s).1 (startRequest count s).2 := by
  have hunits : count ≤ 64 := hcount
  have hmax : maxRequestSize = 512 := rfl
  have hindex : (0 + BitVec.ofNat 32 count : U32).toNat = count := by
    simp
    omega
  have hsize : ∀ r, (BitVec.ofNat 32 (hostRequestExpectedSize r)).toNat = hostRequestExpectedSize r := by
    intro r
    have hexpected : hostRequestExpectedSize r < 2 ^ 17 := expectedSize_lt
    rw [BitVec.toNat_ofNat]
    exact Nat.mod_eq_of_lt (by omega)
  have hinside : ∀ w ∈ some (0, count), w.1 + w.2 ≤ maxRequestSize := by
    rintro w ⟨⟩
    dsimp only
    omega
  have hqueue : ∀ b ∈ s.rxQueue.drop count, b ∈ s.rxQueue := fun b => List.mem_of_mem_drop
  have hle : (0 + BitVec.ofNat 32 count : U32).toNat ≤ maxRequestSize := by omega
  unfold startRequest
  dsimp only
  generalize hcleared : removeUnits 0 count { s with blockIndex := 0 } = t
  have hblock : t.blockIndex = 0 := by rw [← hcleared]; rfl
  have hin : t.inMsg = (removeUnits 0 count s).inMsg := by rw [← hcleared]; rfl
  have hrx : t.rxQueue = s.rxQueue.drop count := by rw [← hcleared]; rfl
  have hst : t.state = .readyToRx := by rw [← hcleared]; exact hstate
  have hkept : t.outMsg = s.outMsg ∧ t.outSize = s.outSize ∧ t.responses = s.responses ∧ t.received = s.received := by
    rw [← hcleared]
    exact ⟨rfl, rfl, rfl, rfl⟩
  rw [← hrx] at hqueue
  rw [← hin, ← hgot] at hsame
  unfold FillsFirst
  dsimp only
  rw [← hin]
  simp only [hblock, BitVec.lt_def, hindex, hsize]
  by_cases hversion : (t.inMsg 0).value = HostCommand.EC_HOST_REQUEST_VERSION
  · rw [if_neg (not_not.mpr hversion)]
    by_cases hmore : count < hostRequestExpectedSize (values t.inMsg)
    · rw [if_pos hmore]
      exact .more hinside rfl (fun h => Nat.not_le_of_lt hmore h.2.1) hsame hle (hindex.trans hgot.symm) hqueue hkept
    · rw [if_neg hmore]
      by_cases hlarge : maxRequestSize < hostRequestExpectedSize (values t.inMsg)
      · rw [if_pos hlarge]
        exact .refused hinside rfl (fun h => Nat.not_le_of_lt hlarge h.2.2) hle UsbhcState.noConfusion hqueue hkept
      · rw [if_neg hlarge]
        refine .packet hinside ⟨hversion, Nat.not_lt.mp hmore, Nat.not_lt.mp hlarge⟩ ?_ hsame hle
          UsbhcState.noConfusion hqueue hkept
        exact congrArg (fun n => some (Memory.read t.inMsg 0 n)) (hindex.trans hgot.symm)
  · rw [if_pos hversion]
    have hready : t.state ≠ .receiving := by rw [hst]; decide
    have hzero : t.blockIndex.toNat ≤ maxRequestSize := by rw [hblock]; exact Nat.zero_le _
    exact .refused hinside rfl (fun h => hversion h.1) hzero hready hqueue hkept

theorem continueRequest_takes {count : Nat} (hcount : count ≤ bufferUnits) (hindex : s.blockIndex.toNat ≤ maxRequestSize)
    (hgot : got.length = s.blockIndex.toNat + count)
    (hsame : Memory.read (removeUnits s.blockIndex.toNat count s).inMsg 0 (s.blockIndex.toNat + count) = got ↔
      fresh = true) :
    Takes (FillsNext count s) got fresh s (continueRequest count s).1 (continueRequest count s).2 := by
  have hunits : count ≤ 64 := hcount
  have hmax : maxRequestSize = 512 := rfl
  have hnext : (s.blockIndex + BitVec.ofNat 32 count).toNat = s.blockIndex.toNat + count := by
    rw [BitVec.toNat_add, BitVec.toNat_ofNat]
    omega
  have hqueue : ∀ b ∈ s.rxQueue.drop count, b ∈ s.rxQueue := fun b => List.mem_of_mem_drop
  unfold continueRequest FillsNext
  dsimp only
  generalize hremoved : removeUnits s.blockIndex.toNat count s = t
  have hblock : t.blockIndex = s.blockIndex := by rw [← hremoved]; rfl
  have hexpected : t.expectedSize = s.expectedSize := by rw [← hremoved]; rfl
  have hrx : t.rxQueue = s.rxQueue.drop count := by rw [← hremoved]; rfl
  have hkept : t.outMsg = s.outMsg ∧ t.outSize = s.outSize ∧ t.responses = s.responses ∧ t.received = s.received := by
    rw [← hremoved]
    exact ⟨rfl, rfl, rfl, rfl⟩
  rw [hremoved, ← hgot] at hsame
  rw [← hrx] at hqueue
  simp only [hblock, hexpected, BitVec.lt_def, hnext]
  by_cases hover : maxRequestSize < s.blockIndex.toNat + count
  · rw [if_pos hover]
    have hnot : ¬(s.blockIndex.toNat + count = s.expectedSize.toNat ∧ s.blockIndex.toNat + count ≤ maxRequestSize) :=
      fun h => Nat.not_le_of_lt hover h.2
    exact .refused (fun w hw => by cases hw) rfl hnot hindex UsbhcState.noConfusion (fun b h => h) ⟨rfl, rfl, rfl, rfl⟩
  · rw [if_neg hover]
    have hle : (s.blockIndex + BitVec.ofNat 32 count).toNat ≤ maxRequestSize := by omega
    have hinside : ∀ w ∈ some (s.blockIndex.toNat, count), w.1 + w.2 ≤ maxRequestSize := by
      rintro w ⟨⟩
      exact Nat.not_lt.mp hover
    by_cases hmore : s.blockIndex.toNat + count < s.expectedSize.toNat
    · rw [if_pos hmore]
      exact .more hinside rfl (fun h => Nat.ne_of_lt hmore h.1) hsame hle (hnext.trans hgot.symm) hqueue hkept
    · rw [if_neg hmore]
      by_cases hlarger : s.expectedSize.toNat < s.blockIndex.toNat + count
      · rw [if_pos hlarger]
        exact .refused hinside rfl (fun h => Nat.ne_of_gt hlarger h.1) hle UsbhcState.noConfusion hqueue hkept
      · rw [if_neg hlarger]
        have hfills : s.blockIndex.toNat + count = s.expectedSize.toNat := by omega
        refine .packet hinside ⟨hfills, Nat.not_lt.mp hover⟩ ?_ hsame hle UsbhcState.noConfusion hqueue hkept
        exact congrArg (fun n => some (Memory.read t.inMsg 0 n)) (hnext.trans hgot.symm)

/-- What the observer makes of a chunk is what the chunk does. -/
theorem usbhcWritten_takes {a : Seen} {bytes : List UInt8} {now : BitVec 64} (h : Holds s a) (hpos : 0 < bytes.length)
    (hroom : bytes.length ≤ bufferUnits - s.rxQueue.length) :
    Takes (Fills bytes.length now (arrive bytes s)) (a.chunk bytes now s).got (a.chunk bytes now s).fresh (arrive bytes s)
      (usbhcWritten bytes.length now (arrive bytes s)).1 (usbhcWritten bytes.length now (arrive bytes s)).2 := by
  have hcount : bytes.length ≤ bufferUnits := Nat.le_trans hroom (Nat.sub_le _ _)
  have hqueued : bytes.length ≤ (arrive bytes s).rxQueue.length := by
    simp [arrive, length_numbered]
  have hempty : (arrive bytes s).rxQueue.take bytes.length = numbered s.received bytes ↔ s.rxQueue.isEmpty = true := by
    rw [List.isEmpty_iff]
    exact take_eq_iff hpos h.numbers
  have hstart : recovered now (arrive bytes s) = recovered now s := rfl
  unfold usbhcWritten Fills Seen.chunk
  dsimp only
  rw [hstart]
  cases hstate : recovered now s with
  | readyToRx =>
    have hread := @read_removeUnits (arrive bytes s) 0 bytes.length hqueued
    rw [Nat.zero_add] at hread
    have htakes := startRequest_takes (s := { arrive bytes s with state := .readyToRx, prevActivityTimestamp := now }) rfl
      hcount length_numbered ((Eq.congr_left hread).trans hempty)
    exact ⟨htakes.inside, htakes.given, htakes.same, htakes.index, htakes.receiving, htakes.queue, htakes.kept⟩
  | receiving =>
    have hreceiving : s.state = .receiving := by
      unfold recovered at hstate
      split at hstate
      · cases hstate
      · exact hstate
    obtain ⟨hlen, hbefore⟩ := h.receiving hreceiving
    have hread := @read_removeUnits (arrive bytes s) s.blockIndex.toNat bytes.length hqueued
    have hgot : (a.got ++ numbered s.received bytes).length = s.blockIndex.toNat + bytes.length := by
      rw [List.length_append, length_numbered, hlen]
    have hboth : Memory.read s.inMsg 0 s.blockIndex.toNat ++ (arrive bytes s).rxQueue.take bytes.length =
        a.got ++ numbered s.received bytes ↔ (a.fresh && s.rxQueue.isEmpty) = true := by
      rw [Bool.and_eq_true, ← hempty, ← hbefore]
      constructor
      · exact fun heq => List.append_inj heq (by rw [Memory.length_read, hlen])
      · rintro ⟨hold, hnew⟩
        rw [hold, hnew]
    have htakes := continueRequest_takes (s := { arrive bytes s with state := .receiving, prevActivityTimestamp := now })
      hcount h.index hgot ((Eq.congr_left hread).trans hboth)
    exact ⟨htakes.inside, htakes.given, htakes.same, htakes.index, htakes.receiving, htakes.queue, htakes.kept⟩
  | processing =>
    exact .refused (fun w hw => by cases hw) rfl not_false h.index UsbhcState.noConfusion
      (fun b hb => hb) ⟨rfl, rfl, rfl, rfl⟩
  | sending =>
    exact .refused (fun w hw => by cases hw) rfl not_false h.index UsbhcState.noConfusion
      (fun b hb => hb) ⟨rfl, rfl, rfl, rfl⟩
  | rxBad =>
    have hdrop : ∀ b ∈ (arrive bytes s).rxQueue.drop bytes.length, b ∈ (arrive bytes s).rxQueue :=
      fun b => List.mem_of_mem_drop
    exact .refused (fun w hw => by cases hw) rfl not_false h.index UsbhcState.noConfusion hdrop ⟨rfl, rfl, rfl, rfl⟩

theorem Seen.chunk_sent {a : Seen} {bytes : List UInt8} {now : BitVec 64} :
    (a.chunk bytes now s).response = a.response ∧ (a.chunk bytes now s).put = a.put := by
  unfold Seen.chunk
  split <;> exact ⟨rfl, rfl⟩

theorem Holds.chunk {a : Seen} {bytes : List UInt8} {now : BitVec 64} (h : Holds s a)
    (htakes : Takes fills (a.chunk bytes now s).got (a.chunk bytes now s).fresh (arrive bytes s) out s') :
    Holds s' (a.chunk bytes now s) := by
  obtain ⟨hresponse, hput⟩ := @Seen.chunk_sent s a bytes now
  obtain ⟨hout, hsize, hresponses, hreceived⟩ := htakes.kept
  constructor
  · exact htakes.index
  · intro b hb
    rw [hreceived]
    rcases List.mem_append.mp (htakes.queue b hb) with hold | hnew
    · exact Nat.le_trans (h.numbers b hold) (Nat.le_add_right _ _)
    · exact (mem_numbered hnew).2
  · intro hstate
    have hlen := htakes.receiving hstate
    exact ⟨hlen, by rw [hlen]; exact htakes.same (.inr hstate)⟩
  · rw [hresponse, hout, hresponses]
    exact h.older
  · rw [hresponse]
    exact h.nodup
  · rw [hresponse, hout]
    exact h.placed
  · rw [hresponse, hsize]
    exact h.size
  · rw [hresponse, hput]
    exact h.sent

theorem call_chunk {bytes : List UInt8} {now : BitVec 64} (hcall : call (.chunk bytes now) s = some (out, s')) :
    (0 < bytes.length ∧ bytes.length ≤ bufferUnits - s.rxQueue.length) ∧
      usbhcWritten bytes.length now (arrive bytes s) = (out, s') := by
  dsimp only [call] at hcall
  split at hcall
  · rename_i hroom
    exact ⟨hroom, Option.some.inj hcall⟩
  · cases hcall

theorem chunk_takes {a : Seen} {bytes : List UInt8} {now : BitVec 64} (h : Holds s a)
    (hcall : call (.chunk bytes now) s = some (out, s')) :
    Takes (Fills bytes.length now (arrive bytes s)) (a.chunk bytes now s).got (a.chunk bytes now s).fresh (arrive bytes s)
      out s' := by
  obtain ⟨⟨hpos, hroom⟩, hwritten⟩ := call_chunk hcall
  have htakes := @usbhcWritten_takes s a bytes now h hpos hroom
  rwa [hwritten] at htakes

theorem framed_chunk {a : Seen} {bytes : List UInt8} {now : BitVec 64} (h : Holds s a)
    (hcall : call (.chunk bytes now) s = some (out, s')) :
    Framed a (s, .chunk bytes now) ↔ Unmixed a (s, .chunk bytes now) := by
  have htakes := chunk_takes h hcall
  obtain ⟨hresponse, hput⟩ := @Seen.chunk_sent s a bytes now
  constructor
  · intro hframed hfills
    obtain ⟨-, hpacket, -⟩ := hframed out s' hcall
    obtain ⟨hgot, hrequest⟩ := hpacket _ ((htakes.given _).mpr ⟨hfills, rfl⟩)
    refine ⟨(htakes.same (.inl hfills)).mp hgot, ?_⟩
    rwa [hgot] at hrequest
  · intro hunmixed out' t hcall'
    obtain ⟨rfl, rfl⟩ := Prod.mk.inj (Option.some.inj (hcall.symm.trans hcall'))
    refine ⟨htakes.inside, ?_, ?_, False.elim⟩
    · intro packet hpacket
      obtain ⟨hfills, rfl⟩ := (htakes.given packet).mp hpacket
      obtain ⟨hfresh, hrequest⟩ := hunmixed hfills
      have hgot := (htakes.same (.inl hfills)).mpr hfresh
      refine ⟨hgot, ?_⟩
      rw [hgot]
      exact hrequest
    · dsimp only [watch]
      rw [hresponse, hput]
      exact h.sent

/-! ## Responses -/

theorem usbhcRead_idle {count : Nat} (h : s.state ≠ .sending) : usbhcRead count s = ([], s) := by
  unfold usbhcRead
  exact if_pos h

/-- What is put in the queue, and where the state and the index are after it. -/
theorem usbhcRead_sending {count : Nat} (h : s.state = .sending) : ∃ queue index state,
    usbhcRead count s = (Memory.read s.outMsg s.outIndex.toNat (min (pieceLen count s) (bufferUnits - s.txQueue.length)),
      { s with txQueue := queue, outIndex := index, state := state }) ∧ state ≠ .receiving ∧
      (state = .readyToRx ↔ s.outSize ≤ s.outIndex + BitVec.ofNat 32 (pieceLen count s)) := by
  unfold usbhcRead
  dsimp only
  rw [if_neg (not_not.mpr h)]
  split
  · rename_i hmore
    refine ⟨_, _, s.state, rfl, ?_, ?_⟩
    · rw [h]
      decide
    · rw [h]
      exact iff_of_false UsbhcState.noConfusion (BitVec.not_le.mpr hmore)
  · rename_i hdone
    exact ⟨_, _, .readyToRx, rfl, UsbhcState.noConfusion, iff_of_true rfl (BitVec.not_lt.mp hdone)⟩

theorem Holds.read {a : Seen} {count : Nat} (h : Holds s a)
    (hsent : a.put ++ (usbhcRead count s).1 <+: a.response) :
    Holds (usbhcRead count s).2 { a with put := a.put ++ (usbhcRead count s).1 } := by
  by_cases hstate : s.state = .sending
  · obtain ⟨queue, index, state, hread, hnot, -⟩ := usbhcRead_sending hstate
    rw [hread] at hsent ⊢
    exact ⟨h.index, h.numbers, fun hreceiving => absurd hreceiving hnot, h.older, h.nodup, h.placed, h.size, hsent⟩
  · rw [usbhcRead_idle hstate] at hsent ⊢
    exact ⟨h.index, h.numbers, h.receiving, h.older, h.nodup, h.placed, h.size, hsent⟩

theorem intact_iff {a : Seen} {count : Nat} (h : Holds s a) (hstate : s.state = .sending) :
    (a.put ++ (usbhcRead count s).1 <+: a.response ∧
      ((usbhcRead count s).2.state = .readyToRx → a.put ++ (usbhcRead count s).1 = a.response)) ↔ Intact count a s := by
  obtain ⟨queue, index, state, hread, -, hended⟩ := usbhcRead_sending hstate
  rw [hread]
  unfold Intact
  dsimp only
  rw [Memory.prefix_read_iff h.nodup h.placed h.sent, hended]
  refine and_congr_right fun hpiece => imp_congr_right fun _ => ?_
  have hsent := (Memory.prefix_read_iff h.nodup h.placed h.sent).mpr hpiece
  constructor
  · intro heq
    rw [← heq, List.length_append, Memory.length_read]
  · intro hlen
    refine hsent.eq_of_length ?_
    rw [List.length_append, Memory.length_read, hlen]

theorem Holds.taken {a : Seen} {count : Nat} (h : Holds s a) : Holds (taken count s) a :=
  ⟨h.index, h.numbers, h.receiving, h.older, h.nodup, h.placed, h.size, h.sent⟩

theorem prepare_outMsg {response : List UInt8} (k : Nat) :
    (prepare response s).outMsg k = s.outMsg k ∨
      (prepared (s.responses + 1) response)[k]? = some ((prepare response s).outMsg k) := by
  have hout : (prepare response s).outMsg = Memory.copy s.outMsg 0 (min response.length maxResponseSize) fun i =>
      ((prepared (s.responses + 1) response)[i]?).getD default := rfl
  rw [hout]
  rcases Nat.lt_or_ge k (min response.length maxResponseSize) with hin | hout
  · right
    have hlt : k < (prepared (s.responses + 1) response).length := by
      rw [length_prepared]
      omega
    have hcell := @Memory.copy_inside _ s.outMsg 0 _ _ (fun i =>
      ((prepared (s.responses + 1) response)[i]?).getD default) hin
    rw [Nat.zero_add] at hcell
    rw [hcell, List.getElem?_eq_getElem hlt, Option.getD_some]
  · left
    exact Memory.copy_of_ge (by omega)

theorem Holds.prepare {a : Seen} {response : List UInt8} (h : Holds s a) : Holds (prepare response s) a := by
  refine ⟨h.index, h.numbers, h.receiving,
    ⟨fun k => ?_, fun b hb => Nat.le_succ_of_le (h.older.2 b hb)⟩, h.nodup, fun k hk => ?_, h.size, h.sent⟩
  · rcases @prepare_outMsg s response k with hold | hnew
    · rw [hold]
      exact Nat.le_succ_of_le (h.older.1 k)
    · exact Nat.le_of_eq (mem_prepared (List.mem_of_getElem? hnew)).1
  · rcases @prepare_outMsg s response k with hold | hnew
    · rw [hold] at hk ⊢
      exact h.placed k hk
    · -- no byte of the accepted response is this new
      have hnumber := (mem_prepared (List.mem_of_getElem? hnew)).1
      have holder := h.older.2 _ hk
      omega

theorem Holds.ready {a : Seen} {response : List UInt8} (h : Holds s a) (haccepts : Accepts response s) :
    Holds (ready response s) (a.complete response s) := by
  have hprepared := @Holds.prepare s a response h
  have hcomplete : a.complete response s = { a with response := prepared (s.responses + 1) response, put := [] } :=
    if_pos haccepts
  have hsize : response.length < 2 ^ 32 := Nat.lt_of_le_of_lt haccepts.2 (by decide)
  rw [hcomplete]
  refine ⟨h.index, h.numbers, UsbhcState.noConfusion, ⟨hprepared.older.1, fun b hb => ?_⟩,
    nodup_prepared, fun k hk => ?_, ?_, List.nil_prefix⟩
  · exact Nat.le_of_eq (mem_prepared hb).1
  · rcases @prepare_outMsg s response k with hold | hnew
    · have hnumber := (mem_prepared hk).1
      have holder := h.older.1 k
      have hcell : (UsbHostCommand.ready response s).outMsg k = s.outMsg k := hold
      rw [hcell] at hnumber
      omega
    · exact hnew
  · dsimp only [UsbHostCommand.ready]
    rw [length_prepared, BitVec.toNat_ofNat]
    exact Nat.mod_eq_of_lt hsize

theorem send_accepted {response : List UInt8} (h : Accepts response s) :
    usbhcSendResponsePacket (BitVec.ofNat 32 response.length) (prepare response s) =
      usbhcRead bufferUnits (ready response s) := by
  have hstate : (prepare response s).state = .processing := h.1
  have hsize : ¬maxResponseSize < (BitVec.ofNat 32 response.length).toNat := by
    have hle := h.2
    have hmax : maxResponseSize = 256 := rfl
    rw [BitVec.toNat_ofNat]
    omega
  unfold usbhcSendResponsePacket
  rw [if_neg (not_not.mpr hstate), if_neg hsize]
  rfl

theorem send_refused {response : List UInt8} (h : ¬Accepts response s) (hlt : response.length < 2 ^ 32) :
    usbhcSendResponsePacket (BitVec.ofNat 32 response.length) (prepare response s) = ([], prepare response s) := by
  unfold usbhcSendResponsePacket
  split
  · rfl
  · rename_i hstate
    have hlarge : maxResponseSize < (BitVec.ofNat 32 response.length).toNat := by
      rw [BitVec.toNat_ofNat, Nat.mod_eq_of_lt hlt]
      exact Nat.not_le.mp fun hle => h ⟨not_not.mp hstate, hle⟩
    rw [if_pos hlarge]

theorem call_hostRead {count : Nat} (hcall : call (.hostRead count) s = some (out, s')) :
    min count s.txQueue.length = 0 ∧ out = .nothing ∧ s' = taken count s ∨
      0 < min count s.txQueue.length ∧ out = ⟨none, none, (usbhcRead (min count s.txQueue.length) (taken count s)).1⟩ ∧
        s' = (usbhcRead (min count s.txQueue.length) (taken count s)).2 := by
  dsimp only [call] at hcall
  split at hcall
  · rename_i hzero
    cases hcall
    exact .inl ⟨hzero, rfl, rfl⟩
  · rename_i hsome
    cases hcall
    exact .inr ⟨Nat.pos_of_ne_zero hsome, rfl, rfl⟩

theorem call_complete {response : List UInt8} (hcall : call (.complete response) s = some (out, s')) :
    Accepts response s ∧ out = ⟨none, none, (usbhcRead bufferUnits (ready response s)).1⟩ ∧
        s' = (usbhcRead bufferUnits (ready response s)).2 ∨
      ¬Accepts response s ∧ out = .nothing ∧ s' = prepare response s := by
  dsimp only [call] at hcall
  split at hcall
  · rename_i hruns
    by_cases haccepts : Accepts response s
    · rw [send_accepted haccepts] at hcall
      cases hcall
      exact .inl ⟨haccepts, rfl, rfl⟩
    · rw [send_refused haccepts hruns.2] at hcall
      cases hcall
      exact .inr ⟨haccepts, rfl, rfl⟩
  · cases hcall

theorem watch_hostRead {a : Seen} {count : Nat} (hcall : call (.hostRead count) s = some (out, s')) :
    watch a (s, .hostRead count) = { a with put := a.put ++ out.put } := by
  dsimp only [watch]
  rw [hcall]
  rfl

theorem watch_complete {a : Seen} {response : List UInt8} (hcall : call (.complete response) s = some (out, s')) :
    watch a (s, .complete response) =
      { a.complete response s with put := (a.complete response s).put ++ out.put } := by
  dsimp only [watch]
  rw [hcall]
  rfl

/-- A step that puts bytes in the queue to the host is right if they are. -/
theorem framed_put_iff {a b : Seen} {x : St × Call} {put : List Prepared}
    (hcall : call x.2 x.1 = some (⟨none, none, put⟩, s')) (hwatch : watch a x = { b with put := b.put ++ put }) :
    Framed a x ↔ b.put ++ put <+: b.response ∧ (Ended s' x → b.put ++ put = b.response) := by
  constructor
  · intro h
    obtain ⟨-, -, hsent⟩ := h _ s' hcall
    rwa [hwatch] at hsent
  · intro hsent out t hcall'
    obtain ⟨rfl, rfl⟩ := Prod.mk.inj (Option.some.inj (hcall.symm.trans hcall'))
    refine ⟨fun w hw => (by cases hw), fun packet hpacket => (by cases hpacket), ?_⟩
    rw [hwatch]
    exact hsent

theorem framed_hostRead {a : Seen} {count : Nat} (h : Holds s a) (hcall : call (.hostRead count) s = some (out, s')) :
    Framed a (s, .hostRead count) ↔ Unmixed a (s, .hostRead count) := by
  have hwatch := watch_hostRead (a := a) hcall
  have htaken := @Holds.taken s a count h
  dsimp only [Unmixed]
  rcases call_hostRead hcall with ⟨hzero, rfl, rfl⟩ | ⟨hpos, rfl, rfl⟩
  · rw [framed_put_iff hcall hwatch]
    refine iff_of_true ⟨by simpa [Outcome.nothing] using h.sent, ?_⟩ fun _ hpos => absurd hzero (Nat.ne_of_gt hpos)
    rintro ⟨hsending, hready⟩
    exact absurd (hsending.symm.trans hready) (by decide)
  · rw [framed_put_iff hcall hwatch]
    by_cases hstate : s.state = .sending
    · rw [← intact_iff htaken hstate]
      constructor
      · intro hsent _ _
        exact ⟨hsent.1, fun hready => hsent.2 ⟨hstate, hready⟩⟩
      · intro hintact
        exact ⟨(hintact hstate hpos).1, fun hended => (hintact hstate hpos).2 hended.2⟩
    · rw [usbhcRead_idle (s := taken count s) hstate]
      refine iff_of_true ⟨by simpa using h.sent, fun hended => absurd hended.1 hstate⟩
        fun hsending => absurd hsending hstate

theorem framed_complete {a : Seen} {response : List UInt8} (h : Holds s a)
    (hcall : call (.complete response) s = some (out, s')) :
    Framed a (s, .complete response) ↔ Unmixed a (s, .complete response) := by
  have hwatch := watch_complete (a := a) hcall
  dsimp only [Unmixed]
  rcases call_complete hcall with ⟨haccepts, rfl, rfl⟩ | ⟨hrefused, rfl, rfl⟩
  · rw [framed_put_iff hcall hwatch, ← intact_iff (h.ready haccepts) rfl]
    constructor
    · intro hsent _
      exact ⟨hsent.1, fun hready => hsent.2 ⟨haccepts, hready⟩⟩
    · intro hintact
      exact ⟨(hintact haccepts).1, fun hended => (hintact haccepts).2 hended.2⟩
  · have hsame : a.complete response s = a := if_neg hrefused
    rw [framed_put_iff hcall hwatch, hsame]
    exact iff_of_true ⟨by simpa [Outcome.nothing] using h.sent, fun hended => absurd hended.1 hrefused⟩
      fun haccepts => absurd haccepts hrefused

/-! ## Runs -/

theorem step_eq (hstep : step c s = some s') : ∃ out, call c s = some (out, s') := by
  obtain ⟨r, hcall, rfl⟩ := Option.map_eq_some_iff.mp hstep
  exact ⟨r.1, hcall⟩

theorem framed_step_iff {a : Seen} (h : Holds s a) (hstep : step c s = some s') : Framed a (s, c) ↔ Unmixed a (s, c) := by
  obtain ⟨out, hcall⟩ := step_eq hstep
  cases c with
  | chunk => exact framed_chunk h hcall
  | hostRead => exact framed_hostRead h hcall
  | complete => exact framed_complete h hcall

theorem holds_step {a : Seen} (h : Holds s a) (hunmixed : Unmixed a (s, c)) (hstep : step c s = some s') :
    Holds s' (watch a (s, c)) := by
  obtain ⟨out, hcall⟩ := step_eq hstep
  -- what is sent is right
  have hsent := ((framed_step_iff h hstep).mpr hunmixed out s' hcall).2.2.1
  cases c with
  | chunk bytes now => exact h.chunk (chunk_takes h hcall)
  | hostRead count =>
    rw [watch_hostRead hcall] at hsent ⊢
    rcases call_hostRead hcall with ⟨-, rfl, rfl⟩ | ⟨-, rfl, rfl⟩
    · exact ⟨h.index, h.numbers, h.receiving, h.older, h.nodup, h.placed, h.size, hsent⟩
    · exact h.taken.read hsent
  | complete response =>
    rw [watch_complete hcall] at hsent ⊢
    rcases call_complete hcall with ⟨haccepts, rfl, rfl⟩ | ⟨hrefused, rfl, rfl⟩
    · exact (h.ready haccepts).read hsent
    · have hprepared := @Holds.prepare s a response h
      have hsame : a.complete response s = a := if_neg hrefused
      rw [hsame] at hsent ⊢
      exact ⟨hprepared.index, hprepared.numbers, hprepared.receiving, hprepared.older, hprepared.nodup, hprepared.placed,
        hprepared.size, hsent⟩

theorem holds_initial : Holds .initial .initial :=
  ⟨Nat.zero_le _, List.forall_mem_nil _, UsbhcState.noConfusion, ⟨fun _ => Nat.le_refl _, List.forall_mem_nil _⟩,
    List.nodup_nil, fun _ hk => absurd hk List.not_mem_nil, rfl, List.nil_prefix⟩

/-- Every step of a run passes on requests and sends responses as they are, exactly when no packet ends in a chunk of a
request that came behind bytes of others, or is not one, and each piece of a response is intact. -/
theorem framing_iff {l : List (St × Call)} (h : Run step .initial l s) :
    Always watch Framed .initial l ↔ Always watch Unmixed .initial l :=
  Run.always_iff (R := Holds) holds_initial (fun _ _ _ _ => holds_step) (fun _ _ _ _ => framed_step_iff) h

/-! ## Two runs -/

instance {count : Nat} : Decidable (FillsFirst count s) :=
  inferInstanceAs (Decidable (_ ∧ _ ∧ _))

instance {count : Nat} : Decidable (FillsNext count s) :=
  inferInstanceAs (Decidable (_ ∧ _))

instance {count : Nat} {now : BitVec 64} : Decidable (Fills count now s) :=
  match h : recovered now s with
  | .readyToRx => decidable_of_iff (FillsFirst count s) (by rw [Fills, h])
  | .receiving => decidable_of_iff (FillsNext count s) (by rw [Fills, h])
  | .processing => isFalse (by rw [Fills, h]; exact not_false)
  | .sending => isFalse (by rw [Fills, h]; exact not_false)
  | .rxBad => isFalse (by rw [Fills, h]; exact not_false)

instance {count : Nat} {a : Seen} : Decidable (Intact count a s) :=
  inferInstanceAs (Decidable ((_ → _ ∧ ∀ k < _, _) ∧ (_ → _)))

instance {a : Seen} : ∀ x : St × Call, Decidable (Unmixed a x)
  | (s, .chunk bytes now) => inferInstanceAs (Decidable (Fills bytes.length now (arrive bytes s) → _ ∧ _))
  | (_, .hostRead _) => inferInstanceAs (Decidable (_ → _ → _))
  | (_, .complete _) => inferInstanceAs (Decidable (_ → _))

def bareRequest : List UInt8 := [3, 0, 0, 0, 0, 0, 0, 0]

def answered : List Call :=
  [.chunk [3, 0, 0, 0, 0, 0, 2, 0, 0x11] (BitVec.ofNat 64 second), .chunk [0x22] (BitVec.ofNat 64 second),
    .complete (List.replicate 100 0xaa), .hostRead 64, .hostRead 64]

/-- The host gives up on a long response, and asks again after more than 5 seconds. -/
def interrupted : List Call :=
  [.chunk bareRequest (BitVec.ofNat 64 second), .complete (List.replicate 200 0xaa), .hostRead 64,
    .chunk bareRequest (BitVec.ofNat 64 (7 * second)), .hostRead 64, .complete (List.replicate 20 0xbb)]

theorem framing_iff_answered : ∃ l s, Run step .initial l s ∧ l.map Prod.snd = answered ∧ s.state = .readyToRx ∧
    Always watch Framed .initial l := by
  have hsome : (trace step answered ([], .initial)).any fun r =>
      decide (r.2.state = .readyToRx ∧ Always watch Unmixed .initial r.1) := by decide +kernel
  obtain ⟨l, s, run, hlabels, hready, hunmixed⟩ := exists_run hsome
  exact ⟨l, s, run, hlabels, hready, (framing_iff run).mpr hunmixed⟩

/-- The second response is sent from where the first one was given up: not one of its bytes is in the queue to the host. -/
theorem interrupted_response : ∃ l s, Run step .initial l s ∧ l.map Prod.snd = interrupted ∧ s.state = .readyToRx ∧
    s.txQueue.map Prepared.value = List.replicate 64 0xaa ∧ ¬Always watch Framed .initial l := by
  have hsome : (trace step interrupted ([], .initial)).any fun r =>
      decide (r.2.state = .readyToRx ∧ r.2.txQueue.map Prepared.value = List.replicate 64 0xaa ∧
        ¬Always watch Unmixed .initial r.1) := by decide +kernel
  obtain ⟨l, s, run, hlabels, hready, hqueue, hmixed⟩ := exists_run hsome
  have hiff : Always watch Framed .initial l ↔ Always watch Unmixed .initial l :=
    Run.always_iff (R := Holds) holds_initial (fun _ _ _ _ => holds_step) (fun _ _ _ _ => framed_step_iff) run
  exact ⟨l, s, run, hlabels, hready, hqueue, fun h => hmixed (hiff.mp h)⟩

end ChromeEc.UsbHostCommand
