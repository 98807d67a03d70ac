import ChromeEc.Lib.Compact
import ChromeEc.Mkbp.Event

/- The common FIFO of `common/mkbp_fifo.c`.

  An entry is an event type with 18 bytes of data, given as a function of the offset. The
  FIFO has `FIFO_DEPTH` places from `fifoStart` on. Adding and fetching also send events,
  so that the state has the event bits next to the FIFO.

  What is proved: on the list of entries the functions append one, take the first or leave
  out the keyboard entries, and only `mkbp_send_event` changes the event bits. -/
namespace ChromeEc.Mkbp
open Lib

/-- `union ec_response_get_next_data_v3`. -/
abbrev Bytes := Nat → UInt8

/-- `struct ec_response_get_next_event_v3`. -/
structure Entry where
  eventType : EventType
  data : Bytes

abbrev fifoDepth : Nat := 16

/-- How the data of an event are fetched: from the common FIFO, or by a module of its own. -/
inductive Source where
  | fifo
  | other
  deriving DecidableEq

/-- What a board is built with. The columns of the keyboard fit the data of an entry. -/
structure Config where
  keyboardCols : Option (Fin 19)
  keyboardMkbp : Bool
  inputDevices : Bool
  emulatedSysrq : Bool
  others : EventType → Bool

/-- A board with a keyboard of 13 columns, buttons and switches. -/
def clamshell : Config := ⟨some 13, true, true, false, fun _ => false⟩

/-- `mkbp_fifo.c` and `mkbp_event.c` together. The `last` is that of `mkbp_get_next_event`. -/
structure St where
  fifoStart : Nat
  fifoEnd : Nat
  fifoEntries : Nat
  fifoMaxDepth : Nat
  fifo : Nat → Entry
  state : EventState
  last : Nat

def ecErrorUnknown : Nat := 1
def ecErrorOverflow : Nat := 3
def ecErrorBusy : Nat := 6

def noData : Bytes := fun _ => 0

def St.initial : St := ⟨0, 0, 0, fifoDepth, fun _ => ⟨.keyMatrix, noData⟩, .initial, 0⟩

variable (c : Config)

/-- The `DECLARE_EVENT_SOURCE`s of the board. -/
def findMkbpEventSource (t : EventType) : Option Source :=
  if t = .keyMatrix then if c.keyboardMkbp then some .fifo else none
  else if t = .button ∨ t = .switch then if c.inputDevices then some .fifo else none
  else if t = .sysrq then if c.emulatedSysrq then some .fifo else none
  else if c.others t then some .other else none

/-- The event has its data in the common FIFO. -/
def fifoBacked (t : EventType) : Bool := findMkbpEventSource c t == some .fifo

def getDataSize (t : EventType) : Nat :=
  if t = .keyMatrix then
    match c.keyboardCols with
    | some cols => cols
    | none => 0
  else if t = .hostEvent64 then 8
  else if t = .hostEvent ∨ t = .button ∨ t = .switch ∨ t = .sysrq then 4
  else 0

/-- `memcpy(dest, src, n)`. -/
def copyBytes (dest src : Bytes) (n : Nat) : Bytes := blit dest 0 src n

/-! ## `mkbp_fifo.c` -/

def fifoRemove (buffp : Option Bytes) (s : St) : Nat × Option Bytes × St :=
  if s.fifoEntries = 0 then
    -- the last known state
    let last := (s.fifoStart + fifoDepth - 1) % fifoDepth
    (ecErrorUnknown, buffp.map fun out => copyBytes out (s.fifo last).data (getDataSize c (s.fifo last).eventType), s)
  else
    let head := s.fifo s.fifoStart
    (0, buffp.map fun out => copyBytes out head.data (getDataSize c head.eventType),
      { s with fifoStart := (s.fifoStart + 1) % fifoDepth, fifoEntries := s.fifoEntries - 1 })

def mkbpFifoDepthUpdate (newMaxDepth : Nat) (s : St) : St := { s with fifoMaxDepth := newMaxDepth }

/-- The loop body of `mkbp_fifo_clear_keyboard`, with `new_fifo_entries`. -/
def keepEntry (st : St × Nat) (i : Nat) : St × Nat :=
  let cur := (st.1.fifoStart + i) % fifoDepth
  if (st.1.fifo cur).eventType = .keyMatrix then
    st
  else
    ({ st.1 with
        fifo := fun u => if u = st.1.fifoEnd then st.1.fifo cur else st.1.fifo u
        fifoEnd := (st.1.fifoEnd + 1) % fifoDepth },
      st.2 + 1)

def mkbpFifoClearKeyboard (s : St) : St :=
  let r := (List.range s.fifoEntries).foldl keepEntry ({ s with fifoEnd := s.fifoStart }, 0)
  { r.1 with fifoEntries := r.2 }

/-- Only as much of an entry is cleared as `struct ec_response_get_next_event` is long. -/
def clearEntry (x : Entry) : Entry := ⟨.keyMatrix, copyBytes x.data noData 13⟩

def mkbpClearFifo (s : St) : St :=
  { s with
    fifoStart := 0
    fifoEnd := 0
    fifoEntries := 0
    fifo := fun i => if i < fifoDepth then clearEntry (s.fifo i) else s.fifo i }

/-- `mkbp_send_event` with the rest of the state. -/
def sendEvent (e : Env) (t : EventType) (s : St) : Bool × St :=
  let r := mkbpSendEvent e t s.state
  (r.1, { s with state := r.2 })

def mkbpFifoAdd (e : Env) (t : EventType) (buffp : Bytes) (s : St) : Nat × St :=
  if s.fifoMaxDepth ≤ s.fifoEntries then
    (ecErrorOverflow, s)
  else
    let entry : Entry := ⟨t, copyBytes (s.fifo s.fifoEnd).data buffp (getDataSize c t)⟩
    let added := { s with
      fifo := fun u => if u = s.fifoEnd then entry else s.fifo u
      fifoEnd := (s.fifoEnd + 1) % fifoDepth
      fifoEntries := s.fifoEntries + 1 }
    let r := sendEvent e t added
    -- the host is still asleep
    if r.1 = false ∧ r.2.fifoEntries = 1 then
      (0, (fifoRemove c none r.2).2.2)
    else
      (0, r.2)

def mkbpFifoGetNextEvent (e : Env) (out : Bytes) (evt : EventType) (s : St) : Int × Bytes × St :=
  let t := (s.fifo s.fifoStart).eventType
  if s.fifoEntries = 0 then
    (-1, out, s)
  else if t ≠ evt then
    (-ecErrorBusy, out, s)
  else
    let r := fifoRemove c (some out) s
    let s := if r.2.2.fifoEntries ≠ 0 then (sendEvent e (r.2.2.fifo r.2.2.fifoStart).eventType r.2.2).2 else r.2.2
    let size := getDataSize c t
    (if size ≠ 0 then size else -ecErrorUnknown, r.2.1.getD out, s)

/-! ## The list of entries -/

def entries (s : St) : List Entry := window (ringAt fifoDepth s.fifo s.fifoStart) 0 s.fifoEntries

/-- The indices agree with each other, and only events that are fetched from it are in the FIFO. -/
structure Shaped (s : St) : Prop where
  start_lt : s.fifoStart < fifoDepth
  entries_le : s.fifoEntries ≤ fifoDepth
  depth_le : s.fifoMaxDepth ≤ fifoDepth
  end_eq : s.fifoEnd = (s.fifoStart + s.fifoEntries) % fifoDepth
  backed : ∀ x ∈ entries s, fifoBacked c x.eventType = true

structure Ringed (s : St) : Prop where
  start_lt : s.fifoStart < fifoDepth
  entries_le : s.fifoEntries ≤ fifoDepth
  end_eq : s.fifoEnd = (s.fifoStart + s.fifoEntries) % fifoDepth

variable {c} {s : St}

theorem Shaped.ringed (h : Shaped c s) : Ringed s := ⟨h.start_lt, h.entries_le, h.end_eq⟩

theorem entries_eq_nil : entries s = [] ↔ s.fifoEntries = 0 := by
  rw [← List.length_eq_zero_iff, entries, length_window]

theorem ringAt_start (h : s.fifoStart < fifoDepth) (cells : Nat → Entry) :
    ringAt fifoDepth cells s.fifoStart 0 = cells s.fifoStart := by
  rw [ringAt, Nat.add_zero, Nat.mod_eq_of_lt h]

theorem entries_cons (h : s.fifoStart < fifoDepth) (hne : s.fifoEntries ≠ 0) :
    entries s = s.fifo s.fifoStart ::
      entries { s with fifoStart := (s.fifoStart + 1) % fifoDepth, fifoEntries := s.fifoEntries - 1 } := by
  obtain ⟨n, hn⟩ := Nat.exists_eq_succ_of_ne_zero hne
  rw [entries, entries, hn, window_succ, ringAt_start h]
  congr 1
  apply window_congr
  intro i hi
  show _ = ringAt fifoDepth s.fifo ((s.fifoStart + 1) % fifoDepth) (0 + i)
  rw [ringAt_mod (Nat.dvd_refl _), ringAt_add, Nat.zero_add, Nat.zero_add]

/-! ## Adding -/

/-- The entry that is written and counted, before the event is sent. -/
def pushed (c : Config) (t : EventType) (buffp : Bytes) (s : St) : St :=
  { s with
    fifo := fun u => if u = s.fifoEnd then ⟨t, copyBytes (s.fifo s.fifoEnd).data buffp (getDataSize c t)⟩ else s.fifo u
    fifoEnd := (s.fifoEnd + 1) % fifoDepth
    fifoEntries := s.fifoEntries + 1 }

/-- `mkbp_send_event` never asks to take the entry back. -/
theorem fifoAdd_eq (e : Env) (t : EventType) (buffp : Bytes) : mkbpFifoAdd c e t buffp s =
    if s.fifoMaxDepth ≤ s.fifoEntries then (ecErrorOverflow, s)
    else (0, (sendEvent e t (pushed c t buffp s)).2) := by
  unfold mkbpFifoAdd
  split
  · rfl
  · exact if_neg (by simp [sendEvent, mkbpSendEvent])

theorem entries_pushed (h : Ringed s) (hroom : s.fifoEntries < fifoDepth) (t : EventType) (buffp : Bytes) :
    entries (pushed c t buffp s) =
      entries s ++ [⟨t, copyBytes (s.fifo s.fifoEnd).data buffp (getDataSize c t)⟩] := by
  have hput : (pushed c t buffp s).fifo = put fifoDepth s.fifoStart s.fifo s.fifoEntries
      ⟨t, copyBytes (s.fifo s.fifoEnd).data buffp (getDataSize c t)⟩ := by
    unfold pushed put
    rw [h.end_eq]
  rw [entries, hput]
  show window (ringAt fifoDepth _ s.fifoStart) 0 (s.fifoEntries + 1) = _
  rw [window_snoc, ringAt_put _ _ (by omega) hroom, if_pos (Nat.zero_add _), entries]
  congr 1
  apply window_congr
  intro i hi
  rw [ringAt_put _ _ (by omega) hroom, if_neg (by omega)]

theorem Ringed.pushed (h : Ringed s) (hroom : s.fifoEntries < fifoDepth) (t : EventType) (buffp : Bytes) :
    Ringed (pushed c t buffp s) where
  start_lt := h.start_lt
  entries_le := hroom
  end_eq := by
    show (s.fifoEnd + 1) % fifoDepth = (s.fifoStart + (s.fifoEntries + 1)) % fifoDepth
    rw [h.end_eq, Nat.mod_add_mod, Nat.add_assoc]

theorem Shaped.pushed (h : Shaped c s) (hroom : s.fifoEntries < fifoDepth) {t : EventType}
    (ht : fifoBacked c t = true) (buffp : Bytes) : Shaped c (pushed c t buffp s) where
  start_lt := h.start_lt
  entries_le := hroom
  depth_le := h.depth_le
  end_eq := (h.ringed.pushed hroom t buffp).end_eq
  backed := by
    intro x hx
    rw [entries_pushed h.ringed hroom, List.mem_append, List.mem_singleton] at hx
    obtain hx | rfl := hx
    · exact h.backed x hx
    · exact ht

/-! ## Taking -/

def popped (s : St) : St :=
  { s with fifoStart := (s.fifoStart + 1) % fifoDepth, fifoEntries := s.fifoEntries - 1 }

theorem entries_popped (h : Ringed s) (hne : s.fifoEntries ≠ 0) :
    entries s = s.fifo s.fifoStart :: entries (popped s) := entries_cons h.start_lt hne

theorem Shaped.head_backed (h : Shaped c s) (hne : s.fifoEntries ≠ 0) :
    fifoBacked c (s.fifo s.fifoStart).eventType = true := by
  apply h.backed
  rw [entries_popped h.ringed hne]
  exact List.mem_cons_self

theorem Ringed.popped (h : Ringed s) (hne : s.fifoEntries ≠ 0) : Ringed (popped s) where
  start_lt := Nat.mod_lt _ (by decide)
  entries_le := Nat.le_trans (Nat.sub_le _ _) h.entries_le
  end_eq := by
    show s.fifoEnd = ((s.fifoStart + 1) % fifoDepth + (s.fifoEntries - 1)) % fifoDepth
    rw [h.end_eq, Nat.mod_add_mod, Nat.add_assoc, Nat.add_sub_cancel' (Nat.one_le_iff_ne_zero.mpr hne)]

theorem Shaped.popped (h : Shaped c s) (hne : s.fifoEntries ≠ 0) : Shaped c (popped s) where
  start_lt := (h.ringed.popped hne).start_lt
  entries_le := (h.ringed.popped hne).entries_le
  depth_le := h.depth_le
  end_eq := (h.ringed.popped hne).end_eq
  backed := by
    intro x hx
    apply h.backed
    rw [entries_popped h.ringed hne]
    exact List.mem_cons_of_mem _ hx

/-! ## Clearing -/

def notKeyboard (x : Entry) : Bool := x.eventType ≠ .keyMatrix

theorem foldl_keepEntry (hstart : s.fifoStart < fifoDepth) (n : Nat) :
    (List.range n).foldl keepEntry ({ s with fifoEnd := s.fifoStart }, 0) =
      ({ s with
          fifo := (compact fifoDepth s.fifoStart notKeyboard s.fifo n).1
          fifoEnd := (s.fifoStart + (compact fifoDepth s.fifoStart notKeyboard s.fifo n).2) % fifoDepth },
        (compact fifoDepth s.fifoStart notKeyboard s.fifo n).2) := by
  induction n with
  | zero =>
    show (({ s with fifoEnd := s.fifoStart } : St), 0) = ({ s with fifoEnd := (s.fifoStart + 0) % fifoDepth }, 0)
    rw [Nat.add_zero, Nat.mod_eq_of_lt hstart]
  | succ n ih =>
    rw [List.range_succ, List.foldl_append, ih, compact_succ]
    generalize compact fifoDepth s.fifoStart notKeyboard s.fifo n = r
    show keepEntry _ n = _
    unfold keepEntry compactStep notKeyboard ringAt
    by_cases hkey : (r.1 ((s.fifoStart + n) % fifoDepth)).eventType = .keyMatrix
    · simp [hkey]
    · simp only [hkey, ne_eq, not_false_eq_true, decide_true, if_true, if_false]
      -- the end moves on like the count
      rw [Nat.mod_add_mod, Nat.add_assoc]
      rfl

theorem clearKeyboard_eq (hstart : s.fifoStart < fifoDepth) : mkbpFifoClearKeyboard s =
    { s with
      fifo := (compact fifoDepth s.fifoStart notKeyboard s.fifo s.fifoEntries).1
      fifoEnd := (s.fifoStart + (compact fifoDepth s.fifoStart notKeyboard s.fifo s.fifoEntries).2) % fifoDepth
      fifoEntries := (compact fifoDepth s.fifoStart notKeyboard s.fifo s.fifoEntries).2 } := by
  unfold mkbpFifoClearKeyboard
  rw [foldl_keepEntry hstart]

theorem entries_clearKeyboard (h : Ringed s) :
    entries (mkbpFifoClearKeyboard s) = (entries s).filter notKeyboard := by
  rw [clearKeyboard_eq h.start_lt]
  exact (compact_spec notKeyboard s.fifo h.entries_le).2.1

theorem Ringed.clearKeyboard (h : Ringed s) : Ringed (mkbpFifoClearKeyboard s) := by
  have hle := (compact_spec (h := s.fifoStart) notKeyboard s.fifo h.entries_le).1
  rw [clearKeyboard_eq h.start_lt]
  exact ⟨h.start_lt, Nat.le_trans hle h.entries_le, rfl⟩

theorem Shaped.clearKeyboard (h : Shaped c s) : Shaped c (mkbpFifoClearKeyboard s) := by
  have hringed := h.ringed.clearKeyboard
  have hdepth : (mkbpFifoClearKeyboard s).fifoMaxDepth = s.fifoMaxDepth := by rw [clearKeyboard_eq h.start_lt]
  refine ⟨hringed.start_lt, hringed.entries_le, hdepth.trans_le h.depth_le, hringed.end_eq, ?_⟩
  intro x hx
  rw [entries_clearKeyboard h.ringed] at hx
  exact h.backed x (List.mem_of_mem_filter hx)

theorem Ringed.clear : Ringed (mkbpClearFifo s) :=
  ⟨(by decide : 0 < fifoDepth), Nat.zero_le _, rfl⟩

theorem entries_clear : entries (mkbpClearFifo s) = [] := entries_eq_nil.mpr rfl

end ChromeEc.Mkbp
