import ChromeEc.Lib.Mailbox
import ChromeEc.Lib.Ring
import ChromeEc.Lib.Steps
import ChromeEc.Tcpci.Model

/- The cache of received messages without a lock: tcpm_enqueue_message in the interrupt task,
  tcpm_dequeue_message and tcpm_clear_pending_messages in the PD task.

  Each task is somewhere in its function, and either may take the next step. A step reads or
  writes one thing that the tasks share: a counter, or a part of a slot. get_message_raw writes
  the slot as often and in whatever parts it likes before it returns.

  What is proved: the counters and the slots are a mailbox into which the interrupt task puts
  and from which the PD task takes (`cache_follows`), for any number of messages. The interrupt task
  writes only slots that nobody reads, and only publishing changes what is unread. -/
namespace ChromeEc.Tcpci.Cache
open Lib Steps Mailbox

inductive Enqueue where
  | idle
  /-- `head` points to a slot. -/
  | check (head : Nat)
  | blank (head : Nat)
  /-- get_message_raw runs. `m` is what it and the task have written. -/
  | fill (head : Nat) (m : CachedTcpmMessage)
  | publish (m : CachedTcpmMessage)

inductive Dequeue where
  | idle
  /-- `tail` points to a slot. -/
  | pending (tail : Nat)
  | header (tail : Nat)
  | payload (tail : Nat) (header : BitVec 32) (copied : List UInt8)
  /-- The head that is about to become the tail. -/
  | clear (head : BitVec 32)

structure Sharing where
  q : CachedMessages
  interrupt : Enqueue
  pd : Dequeue

def start : Sharing where
  q := { head := 0, tail := 0, buffer := fun _ => Tcpci.blank }
  interrupt := .idle
  pd := .idle

inductive Action where
  | enqueue
  | checkFull
  | blank
  | write (m : CachedTcpmMessage)
  | filled (failed : Bool)
  | publish
  | dequeue
  | checkPending
  | copyHeader
  | copyByte
  | advance
  | readHead
  | storeTail

def setSlot (q : CachedMessages) (slot : Nat) (m : CachedTcpmMessage) : CachedMessages :=
  { q with buffer := Function.update q.buffer slot m }

/-- The steps of tcpm_enqueue_message. -/
def interruptStep (a : Action) (s : Sharing) : Option Sharing :=
  match a, s.interrupt with
  | .enqueue, .idle => some { s with interrupt := .check (CachedMessages.slot s.q.head) }
  -- only this task writes head, so it is the read of tail that counts
  | .checkFull, .check head => some { s with interrupt := if s.q.full then .idle else .blank head }
  | .blank, .blank head => some { s with q := setSlot s.q head Tcpci.blank, interrupt := .fill head Tcpci.blank }
  | .write m, .fill head _ =>
    if m.payload.length = payloadSize then some { s with q := setSlot s.q head m, interrupt := .fill head m } else none
  | .filled failed, .fill _ m => some { s with interrupt := if failed then .idle else .publish m }
  | .publish, .publish _ => some { s with q := s.q.publish, interrupt := .idle }
  | _, _ => none

/-- The steps of tcpm_dequeue_message and tcpm_clear_pending_messages. -/
def pdStep (a : Action) (s : Sharing) : Option Sharing :=
  match a, s.pd with
  | .dequeue, .idle => some { s with pd := .pending (CachedMessages.slot s.q.tail) }
  | .checkPending, .pending tail => some { s with pd := if s.q.head = s.q.tail then .idle else .header tail }
  | .copyHeader, .header tail => some { s with pd := .payload tail (s.q.buffer tail).header [] }
  | .copyByte, .payload tail header copied =>
    ((s.q.buffer tail).payload[copied.length]?).map fun byte => { s with pd := .payload tail header (copied ++ [byte]) }
  | .advance, .payload _ _ copied =>
    if copied.length = payloadSize then some { s with q := { s.q with tail := s.q.tail + 1 }, pd := .idle } else none
  | .readHead, .idle => some { s with pd := .clear s.q.head }
  | .storeTail, .clear head => some { s with q := { s.q with tail := head }, pd := .idle }
  | _, _ => none

def step (a : Action) (s : Sharing) : Option Sharing := (interruptStep a s).orElse fun _ => pdStep a s

def unread (q : CachedMessages) : List CachedTcpmMessage :=
  (List.range (q.head - q.tail).toNat).map fun j => q.buffer (CachedMessages.slot (q.tail + BitVec.ofNat 32 j))

/-- What a step is for the mailbox: a message is what get_message_raw left, and what the caller
    of tcpm_dequeue_message finds in its parameters. -/
def event (x : Sharing × Action) : Option (Event CachedTcpmMessage) :=
  match x.2, x.1.interrupt, x.1.pd with
  | .publish, .publish m, _ => some (.put m)
  | .advance, _, .payload _ header copied => some (.take { header := header, payload := copied })
  | .readHead, _, _ => some .look
  | .storeTail, _, _ => some .drop
  | _, _, _ => none

def events (l : List (Sharing × Action)) : List (Event CachedTcpmMessage) := l.filterMap event

/-- The slot that the next step of the interrupt task writes. -/
def Sharing.writes (s : Sharing) : Option Nat :=
  match s.interrupt with
  | .blank head => some head
  | .fill head _ => some head
  | _ => none

def Sharing.copies (s : Sharing) : Option Nat :=
  match s.pd with
  | .header tail => some tail
  | .payload tail _ _ => some tail
  | _ => none

/-! ## Slots -/

variable {s s' : Sharing} {q : CachedMessages} {a : Action}

theorem slot_eq (c : BitVec 32) : CachedMessages.slot c = c.toNat % 8 := by
  rw [CachedMessages.slot, BitVec.toNat_and]
  exact Nat.and_two_pow_sub_one_eq_mod c.toNat 3

def count (q : CachedMessages) : Nat := (q.head - q.tail).toNat

theorem head_eq : q.head.toNat = (q.tail.toNat + count q) % 2 ^ 32 := by
  rw [count, BitVec.toNat_sub]
  have hhead := q.head.isLt
  have htail := q.tail.isLt
  omega

/-- The slots as if the counters did not wrap. -/
def cell (q : CachedMessages) (k : Nat) : CachedTcpmMessage := q.buffer (k % 8)

theorem unread_eq : unread q = window (cell q) q.tail.toNat (count q) := by
  apply List.map_congr_left
  intro j _
  rw [slot_eq, cell, BitVec.toNat_add, BitVec.toNat_ofNat]
  congr 1
  omega

theorem full_iff : q.full = true ↔ count q = 8 := by
  rw [CachedMessages.full, beq_iff_eq, count]
  constructor
  · intro h
    rw [h]
    rfl
  · intro h
    exact BitVec.eq_of_toNat_eq h

theorem pending_iff : q.head = q.tail ↔ count q = 0 := by
  have hhead := head_eq (q := q)
  constructor
  · intro h
    rw [count, h]
    simp
  · intro h
    apply BitVec.eq_of_toNat_eq
    rw [hhead, h]
    omega

theorem slot_head_ne (hroom : count q < 8) {j : Nat} (hj : j < count q) :
    (q.tail.toNat + j) % 8 ≠ CachedMessages.slot q.head := by
  rw [slot_eq, head_eq]
  omega

theorem unread_setSlot {m : CachedTcpmMessage} (hroom : count q < 8) :
    unread (setSlot q (CachedMessages.slot q.head) m) = unread q := by
  rw [unread_eq, unread_eq]
  apply window_congr
  intro j hj
  exact Function.update_of_ne (slot_head_ne hroom hj) ..

theorem unread_publish (hroom : count q < 8) : unread q.publish = unread q ++ [q.buffer (CachedMessages.slot q.head)] := by
  have hcount : count q.publish = count q + 1 := by
    have hhead := head_eq (q := q)
    rw [count, CachedMessages.publish, BitVec.toNat_sub, BitVec.toNat_add, hhead]
    change (2 ^ 32 - q.tail.toNat + ((q.tail.toNat + count q) % 2 ^ 32 + 1) % 2 ^ 32) % 2 ^ 32 = count q + 1
    omega
  rw [unread_eq, unread_eq, hcount, window_snoc]
  congr 2
  rw [slot_eq, head_eq]
  show q.buffer ((q.tail.toNat + count q) % 8) = q.buffer ((q.tail.toNat + count q) % 2 ^ 32 % 8)
  congr 1
  omega

theorem count_setTail {k : Nat} (hk : k ≤ count q) :
    count { q with tail := q.tail + BitVec.ofNat 32 k } = count q - k := by
  have hhead := head_eq (q := q)
  have hcount : count q < 2 ^ 32 := BitVec.isLt _
  rw [count, BitVec.toNat_sub, BitVec.toNat_add, BitVec.toNat_ofNat, hhead]
  omega

theorem unread_setTail {k : Nat} (hk : k ≤ count q) :
    unread { q with tail := q.tail + BitVec.ofNat 32 k } = (unread q).drop k := by
  rw [unread_eq, unread_eq, count_setTail hk, drop_window]
  apply window_congr
  intro j hj
  show q.buffer (((q.tail + BitVec.ofNat 32 k).toNat + j) % 8) = q.buffer ((q.tail.toNat + k + j) % 8)
  rw [BitVec.toNat_add, BitVec.toNat_ofNat]
  congr 1
  omega

/-! ## The invariant -/

def InterruptAt (q : CachedMessages) : Enqueue → Prop
  | .idle => True
  | .check head => head = CachedMessages.slot q.head
  | .blank head => head = CachedMessages.slot q.head ∧ count q < 8
  | .fill head m => head = CachedMessages.slot q.head ∧ count q < 8 ∧ q.buffer head = m ∧ m.payload.length = payloadSize
  | .publish m => count q < 8 ∧ q.buffer (CachedMessages.slot q.head) = m ∧ m.payload.length = payloadSize

/-- The head that the PD task has read stays within what is unread. -/
def PdAt (q : CachedMessages) (looked : Option Nat) : Dequeue → Prop
  | .idle => looked = none
  | .pending tail => looked = none ∧ tail = CachedMessages.slot q.tail
  | .header tail => looked = none ∧ tail = CachedMessages.slot q.tail ∧ 0 < count q
  | .payload tail header copied =>
    looked = none ∧ tail = CachedMessages.slot q.tail ∧ 0 < count q ∧ header = (q.buffer tail).header ∧
      copied = (q.buffer tail).payload.take copied.length
  | .clear head => ∃ k, looked = some k ∧ k ≤ count q ∧ head = q.tail + BitVec.ofNat 32 k

structure Inv (s : Sharing) (b : Box CachedTcpmMessage) : Prop where
  waiting : b.waiting = unread s.q
  room : count s.q ≤ 8
  sized : ∀ m ∈ unread s.q, m.payload.length = payloadSize
  interrupt : InterruptAt s.q s.interrupt
  pd : PdAt s.q b.looked s.pd

theorem InterruptAt.mono {q' : CachedMessages} {p : Enqueue} (h : InterruptAt q p) (hhead : q'.head = q.head)
    (hbuffer : q'.buffer = q.buffer) (hcount : count q' ≤ count q) : InterruptAt q' p := by
  cases p with
  | idle => exact trivial
  | check head => exact h.trans (congrArg _ hhead.symm)
  | blank head => exact ⟨h.1.trans (congrArg _ hhead.symm), hcount.trans_lt h.2⟩
  | fill head m =>
    obtain ⟨hslot, hroom, hcell, hsize⟩ := h
    exact ⟨hslot.trans (congrArg _ hhead.symm), hcount.trans_lt hroom, hbuffer ▸ hcell, hsize⟩
  | publish m =>
    obtain ⟨hroom, hcell, hsize⟩ := h
    refine ⟨hcount.trans_lt hroom, ?_, hsize⟩
    rw [hhead, hbuffer]
    exact hcell

/-- The interrupt task leaves the slot that is copied alone. -/
theorem PdAt.mono {q' : CachedMessages} {looked : Option Nat} {p : Dequeue}
    (h : PdAt q looked p) (htail : q'.tail = q.tail)
    (hcell : 0 < count q → q'.buffer (CachedMessages.slot q.tail) = q.buffer (CachedMessages.slot q.tail))
    (hcount : count q ≤ count q') : PdAt q' looked p := by
  cases p with
  | idle => exact h
  | pending tail => exact ⟨h.1, h.2.trans (congrArg _ htail.symm)⟩
  | header tail =>
    obtain ⟨hlooked, hslot, hpos⟩ := h
    exact ⟨hlooked, hslot.trans (congrArg _ htail.symm), hpos.trans_le hcount⟩
  | payload tail header copied =>
    obtain ⟨hlooked, rfl, hpos, hheader, hcopied⟩ := h
    refine ⟨hlooked, congrArg _ htail.symm, hpos.trans_le hcount, ?_, ?_⟩
    · rw [hcell hpos]
      exact hheader
    · rw [hcell hpos]
      exact hcopied
  | clear head =>
    obtain ⟨k, hlooked, hk, hhead⟩ := h
    exact ⟨k, hlooked, hk.trans hcount, by rw [htail]; exact hhead⟩

theorem Inv.write {b : Box CachedTcpmMessage} {m : CachedTcpmMessage} (h : Inv s b) (hroom : count s.q < 8)
    (hsize : m.payload.length = payloadSize) :
    Inv { s with q := setSlot s.q (CachedMessages.slot s.q.head) m, interrupt := .fill (CachedMessages.slot s.q.head) m }
      b where
  waiting := h.waiting.trans (unread_setSlot hroom).symm
  room := h.room
  sized := by
    rw [unread_setSlot hroom]
    exact h.sized
  interrupt := ⟨rfl, hroom, Function.update_self .., hsize⟩
  pd := by
    refine h.pd.mono rfl (fun hpos => ?_) (Nat.le_refl _)
    have hne := slot_head_ne hroom hpos
    rw [Nat.add_zero, ← slot_eq] at hne
    exact Function.update_of_ne hne ..

/-- A step that the mailbox sees, or none. -/
def Moves (b : Box CachedTcpmMessage) : Option (Event CachedTcpmMessage) → Box CachedTcpmMessage → Prop
  | none, b' => b' = b
  | some e, b' => Mailbox.Step b e b'

theorem interruptStep_inv {b : Box CachedTcpmMessage} (h : Inv s b) (hstep : interruptStep a s = some s') :
    ∃ b', Moves b (event (s, a)) b' ∧ Inv s' b' ∧ (event (s, a) = none → unread s'.q = unread s.q) := by
  obtain ⟨q, interrupt, pd⟩ := s
  have hat := h.interrupt
  unfold interruptStep at hstep
  split at hstep
  case h_1 heq =>
    obtain rfl : interrupt = .idle := heq
    cases hstep
    exact ⟨b, rfl, ⟨h.waiting, h.room, h.sized, rfl, h.pd⟩, fun _ => rfl⟩
  case h_2 head heq =>
    obtain rfl : interrupt = .check head := heq
    cases hstep
    refine ⟨b, rfl, ⟨h.waiting, h.room, h.sized, ?_, h.pd⟩, fun _ => rfl⟩
    cases hfull : q.full with
    | true => exact trivial
    | false =>
      refine ⟨hat, Nat.lt_of_le_of_ne h.room fun heq => ?_⟩
      exact Bool.noConfusion (hfull.symm.trans (full_iff.mpr heq))
  case h_3 head heq =>
    obtain rfl : interrupt = .blank head := heq
    obtain ⟨rfl, hroom⟩ : head = CachedMessages.slot q.head ∧ count q < 8 := hat
    cases hstep
    exact ⟨b, rfl, h.write hroom rfl, fun _ => unread_setSlot hroom⟩
  case h_4 m head old heq =>
    obtain rfl : interrupt = .fill head old := heq
    obtain ⟨rfl, hroom⟩ : head = CachedMessages.slot q.head ∧ count q < 8 := ⟨hat.1, hat.2.1⟩
    split at hstep
    · rename_i hsize
      cases hstep
      exact ⟨b, rfl, h.write hroom hsize, fun _ => unread_setSlot hroom⟩
    · cases hstep
  case h_5 failed head m heq =>
    obtain rfl : interrupt = .fill head m := heq
    obtain ⟨rfl, hat⟩ : head = CachedMessages.slot q.head ∧ count q < 8 ∧ q.buffer head = m ∧
      m.payload.length = payloadSize := hat
    cases hstep
    refine ⟨b, rfl, ⟨h.waiting, h.room, h.sized, ?_, h.pd⟩, fun _ => rfl⟩
    cases failed with
    | true => exact trivial
    | false => exact hat
  case h_6 m heq =>
    obtain rfl : interrupt = .publish m := heq
    obtain ⟨hroom, hcell, hsize⟩ := hat
    cases hstep
    have hunread : unread q.publish = unread q ++ [m] := hcell ▸ unread_publish hroom
    have hcount : count q.publish = count q + 1 := by
      have hlength := congrArg List.length hunread
      rw [List.length_append, unread_eq, unread_eq, length_window, length_window] at hlength
      exact hlength
    refine ⟨⟨b.waiting ++ [m], b.looked⟩, .put, ⟨?_, hcount.trans_le hroom, ?_, trivial, ?_⟩, fun hnone => by cases hnone⟩
    · rw [h.waiting]
      exact hunread.symm
    · rw [hunread]
      intro m' hm'
      rcases List.mem_append.mp hm' with hm' | hm'
      · exact h.sized m' hm'
      · exact List.mem_singleton.mp hm' ▸ hsize
    · exact h.pd.mono rfl (fun _ => rfl) ((Nat.le_succ _).trans hcount.ge)
  case h_7 => cases hstep

theorem Inv.setTail {b : Box CachedTcpmMessage} {k : Nat} (h : Inv s b) (hk : k ≤ count s.q) :
    Inv { s with q := { s.q with tail := s.q.tail + BitVec.ofNat 32 k }, pd := .idle } ⟨b.waiting.drop k, none⟩ where
  waiting := by
    rw [h.waiting]
    exact (unread_setTail hk).symm
  room := by
    rw [count_setTail hk]
    exact (Nat.sub_le ..).trans h.room
  sized := by
    rw [unread_setTail hk]
    exact fun m hm => h.sized m (List.mem_of_mem_drop hm)
  interrupt := by
    refine h.interrupt.mono rfl rfl ?_
    rw [count_setTail hk]
    exact Nat.sub_le ..
  pd := rfl

theorem head_unread (hpos : 0 < count q) : ∃ rest, unread q = q.buffer (CachedMessages.slot q.tail) :: rest := by
  obtain ⟨n, hn⟩ := Nat.exists_eq_succ_of_ne_zero hpos.ne'
  rw [unread_eq, hn, window_succ, slot_eq]
  exact ⟨_, rfl⟩

theorem pdStep_inv {b : Box CachedTcpmMessage} (h : Inv s b) (hstep : pdStep a s = some s') :
    ∃ b', Moves b (event (s, a)) b' ∧ Inv s' b' := by
  obtain ⟨q, interrupt, pd⟩ := s
  obtain ⟨waiting, looked⟩ := b
  have hat : PdAt q looked pd := h.pd
  unfold pdStep at hstep
  split at hstep
  case h_1 heq =>
    obtain rfl : pd = .idle := heq
    cases hstep
    exact ⟨_, rfl, h.waiting, h.room, h.sized, h.interrupt, hat, rfl⟩
  case h_2 tail heq =>
    obtain rfl : pd = .pending tail := heq
    obtain ⟨hlooked, hslot⟩ : looked = none ∧ tail = CachedMessages.slot q.tail := hat
    cases hstep
    refine ⟨_, rfl, h.waiting, h.room, h.sized, h.interrupt, ?_⟩
    show PdAt q looked (if q.head = q.tail then .idle else .header tail)
    split
    · exact hlooked
    · rename_i hsome
      exact ⟨hlooked, hslot, Nat.pos_of_ne_zero fun hzero => hsome (pending_iff.mpr hzero)⟩
  case h_3 tail heq =>
    obtain rfl : pd = .header tail := heq
    obtain ⟨hlooked, hslot, hpos⟩ : looked = none ∧ tail = CachedMessages.slot q.tail ∧ 0 < count q := hat
    cases hstep
    exact ⟨_, rfl, h.waiting, h.room, h.sized, h.interrupt, hlooked, hslot, hpos, rfl, rfl⟩
  case h_4 tail header copied heq =>
    obtain rfl : pd = .payload tail header copied := heq
    obtain ⟨hlooked, hslot, hpos, hheader, hcopied⟩ := hat
    obtain ⟨byte, hbyte, rfl⟩ := Option.map_eq_some_iff.mp hstep
    refine ⟨_, rfl, h.waiting, h.room, h.sized, h.interrupt, hlooked, hslot, hpos, hheader, ?_⟩
    have hmore : (q.buffer tail).payload[copied.length]? = some byte := hbyte
    rw [List.length_append, List.length_singleton, List.take_add_one, hmore, ← hcopied]
    rfl
  case h_5 tail header copied heq =>
    obtain rfl : pd = .payload tail header copied := heq
    obtain ⟨rfl, rfl, hpos, hheader, hcopied⟩ := hat
    obtain ⟨rest, hrest⟩ := head_unread hpos
    split at hstep
    · rename_i hlength
      cases hstep
      -- all of the first message has been copied
      have hsize : (q.buffer (CachedMessages.slot q.tail)).payload.length = payloadSize :=
        h.sized _ (by rw [show unread q = _ from hrest]; exact List.mem_cons_self)
      rw [hlength, ← hsize, List.take_length] at hcopied
      have hmessage : ({ header := header, payload := copied } : CachedTcpmMessage) =
          q.buffer (CachedMessages.slot q.tail) := by rw [hheader, hcopied]
      have hwaiting : waiting = q.buffer (CachedMessages.slot q.tail) :: rest := h.waiting.trans hrest
      subst hwaiting
      refine ⟨⟨rest, none⟩, ?_, h.setTail (k := 1) hpos⟩
      show Mailbox.Step _ (.take (CachedTcpmMessage.mk header copied)) _
      rw [hmessage]
      exact .take
    · cases hstep
  case h_6 heq =>
    obtain rfl : pd = .idle := heq
    obtain rfl : looked = none := hat
    cases hstep
    refine ⟨⟨waiting, some waiting.length⟩, .look, h.waiting, h.room, h.sized, h.interrupt, count q, ?_, Nat.le_refl _, ?_⟩
    · have hlength := congrArg List.length h.waiting
      rw [unread_eq, length_window] at hlength
      exact congrArg some hlength
    · apply BitVec.eq_of_toNat_eq
      have hhead := head_eq (q := q)
      show q.head.toNat = (q.tail + BitVec.ofNat 32 (count q)).toNat
      rw [BitVec.toNat_add, BitVec.toNat_ofNat]
      omega
  case h_7 head heq =>
    obtain rfl : pd = .clear head := heq
    obtain ⟨k, rfl, hk, rfl⟩ := hat
    cases hstep
    exact ⟨⟨waiting.drop k, none⟩, .drop, h.setTail hk⟩
  case h_8 => cases hstep

theorem step_inv {b : Box CachedTcpmMessage} (h : Inv s b) (hstep : step a s = some s') :
    ∃ b', Moves b (event (s, a)) b' ∧ Inv s' b' := by
  rw [step] at hstep
  cases hinterrupt : interruptStep a s with
  | some t =>
    rw [hinterrupt] at hstep
    obtain ⟨b', hmoves, hinv, -⟩ := interruptStep_inv h hinterrupt
    cases hstep
    exact ⟨b', hmoves, hinv⟩
  | none =>
    rw [hinterrupt] at hstep
    exact pdStep_inv h hstep

theorem inv_start : Inv start .empty where
  waiting := rfl
  room := by decide
  sized := fun m hm => by cases hm
  interrupt := trivial
  pd := rfl

/-- Every run is followed by a mailbox. -/
theorem inv_run {l : List (Sharing × Action)} (h : Run step start l s) :
    ∃ b, Follows .empty (events l) b ∧ Inv s b := by
  induction h with
  | start => exact ⟨.empty, .nil, inv_start⟩
  | @step l s s' a run hnext ih =>
    obtain ⟨b, hfollows, hinv⟩ := ih
    obtain ⟨b', hmoves, hinv'⟩ := step_inv hinv hnext
    refine ⟨b', ?_, hinv'⟩
    rw [events, List.filterMap_append]
    cases hevent : event (s, a) with
    | none =>
      rw [hevent] at hmoves
      obtain rfl : b' = b := hmoves
      simpa [hevent, events] using hfollows
    | some e =>
      rw [hevent] at hmoves
      simpa [hevent, events] using hfollows.snoc hmoves

/-- The cache is a mailbox: what the PD task takes out is what the interrupt task put in, in order,
    and none of it twice. Clearing drops what was there when head was read. The interrupt task
    writes no slot that is unread or that is copied, and it changes what is unread only when it publishes. -/
theorem cache_follows (l : List (Sharing × Action)) (s : Sharing) (h : Run step start l s) :
    (∃ looked, Follows .empty (events l) ⟨unread s.q, looked⟩) ∧
      (takes (events l) ++ unread s.q).Sublist (puts (events l)) ∧
      (.drop ∉ events l → takes (events l) ++ unread s.q = puts (events l)) ∧
      (∀ slot, s.writes = some slot → s.copies ≠ some slot ∧
        ∀ j < (s.q.head - s.q.tail).toNat, CachedMessages.slot (s.q.tail + BitVec.ofNat 32 j) ≠ slot) ∧
      ∀ a s', interruptStep a s = some s' → event (s, a) = none → unread s'.q = unread s.q := by
  obtain ⟨⟨waiting, looked⟩, hfollows, hinv⟩ := inv_run h
  obtain rfl : waiting = unread s.q := hinv.waiting
  refine ⟨⟨looked, hfollows⟩, hfollows.sublist, hfollows.conserved, fun slot hwrites => ?_, fun a s' hstep hnone => ?_⟩
  · obtain ⟨rfl, hroom⟩ : slot = CachedMessages.slot s.q.head ∧ count s.q < 8 := by
      have hat := hinv.interrupt
      rw [Sharing.writes] at hwrites
      split at hwrites
      · rename_i head heq
        rw [heq] at hat
        cases hwrites
        exact hat
      · rename_i head m heq
        rw [heq] at hat
        cases hwrites
        exact ⟨hat.1, hat.2.1⟩
      · cases hwrites
    have hne : ∀ j < count s.q, CachedMessages.slot (s.q.tail + BitVec.ofNat 32 j) ≠ CachedMessages.slot s.q.head := by
      intro j hj heq
      apply slot_head_ne hroom hj
      rw [← heq, slot_eq, BitVec.toNat_add, BitVec.toNat_ofNat]
      omega
    refine ⟨fun hcopies => ?_, hne⟩
    obtain ⟨hslot, hpos⟩ : CachedMessages.slot s.q.head = CachedMessages.slot s.q.tail ∧ 0 < count s.q := by
      have hat := hinv.pd
      rw [Sharing.copies] at hcopies
      split at hcopies
      · rename_i tail heq
        rw [heq] at hat
        rw [← Option.some.inj hcopies]
        exact hat.2
      · rename_i tail header copied heq
        rw [heq] at hat
        rw [← Option.some.inj hcopies]
        exact ⟨hat.2.1, hat.2.2.1⟩
      · cases hcopies
    exact hne 0 hpos (by rw [BitVec.add_zero]; exact hslot.symm)
  · exact (interruptStep_inv hinv hstep).choose_spec.2.2 hnone

/-- A message is taken out while the next one arrives, and the PD task clears the cache as that is published. -/
def overlapping : List Action :=
  [.enqueue, .checkFull, .blank, .write { header := 1, payload := List.replicate 28 7 }, .filled false, .publish,
    .dequeue, .checkPending, .enqueue, .copyHeader, .checkFull, .blank] ++ List.replicate 28 .copyByte ++
    [.write { header := 2, payload := List.replicate 28 9 }, .advance, .readHead, .filled false, .publish, .storeTail]

theorem cache_follows_overlapping : ∃ l s, Run step start l s ∧ l.map Prod.snd = overlapping ∧
    takes (events l) = [⟨1, List.replicate 28 7⟩] ∧ unread s.q = [⟨2, List.replicate 28 9⟩] ∧
    (takes (events l) ++ unread s.q).Sublist (puts (events l)) := by
  have hseen : (trace step overlapping ([], start)).any fun r =>
      decide (takes (events r.1) = [⟨1, List.replicate 28 7⟩] ∧ unread r.2.q = [⟨2, List.replicate 28 9⟩]) := by
    decide +kernel
  obtain ⟨l, s, run, hlabels, htakes, hunread⟩ := exists_run hseen
  exact ⟨l, s, run, hlabels, htakes, hunread, (cache_follows l s run).2.1⟩

end ChromeEc.Tcpci.Cache
