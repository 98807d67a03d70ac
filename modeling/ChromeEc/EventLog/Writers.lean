import ChromeEc.EventLog.Fifo
import ChromeEc.Lib.Steps

/- The event log with several writers and a reader.

  A writer may be interrupted before each of its steps by another, which then finishes
  first. The reader takes its steps at any time. The entries are numbered in the order of
  the reservations, so that entry `k` is to be at position `pos k`.

  The condition of the `while` loop is evaluated outside of the critical section, as a step
  of its own. The comparison and the assignment of `log_tail` are one step.

  What is proved: the reader returns the published entries that no writer discarded, each
  once, in order and complete, as long as a writer copies its entry to free units only,
  discards published entries only and while there is no room, and `log_head` does not go all
  the way round its type under a dequeue (`reader_sound`). -/
namespace ChromeEc.EventLog
open Lib

variable {w : Nat}

inductive WriterPc where
  | reserving
  | checking
  | discarding
  | copying
  | publishing
  deriving DecidableEq

/-- A call of `log_add_event`. The number is that of its reservation. -/
structure Writer (w : Nat) where
  event : Event
  pc : WriterPc
  currentTail : BitVec w
  number : Nat

/-- A call of `log_dequeue_event`. The number is that of the entry at the head when that was read. -/
inductive Reader (w : Nat) where
  | idle
  | starting (now : BitVec 32)
  | testing (now : BitVec 32) (currentHead : BitVec w) (number : Nat)
  | copying (now : BitVec 32) (currentHead : BitVec w) (number : Nat)
  | removing (now : BitVec 32) (currentHead : BitVec w) (number : Nat) (totalSize : Nat) (r : List LogUnit)

/-- How an entry left the log: by a dequeue, or by the writer of a later entry. -/
inductive Fate where
  | returned (now : BitVec 32)
  | discarded (number : Nat)
  deriving DecidableEq

/-- The log, who is working on it, and what happened: the entries that were returned, those that were
reserved, copied and published, and what became of those that left. -/
structure Sys (w : Nat) where
  log : Log w
  writers : List (Writer w)
  reader : Reader w
  returned : List (List LogUnit)
  entry : Nat → List LogUnit
  added : Nat
  copied : List Nat
  published : Nat
  fates : List Fate

inductive Action where
  | call (e : Event)
  | write
  | dequeue (now : BitVec 32)
  | read

def Sys.start : Sys w := ⟨.initial, [], .idle, [], fun _ => [], 0, [], 0, []⟩

variable (c : Config w)

/-! ## The steps -/

def writeStep (wr : Writer w) (rest : List (Writer w)) (s : Sys w) : Sys w :=
  match wr.pc with
  | .reserving =>
    let r := reserve wr.event s.log
    { s with
      log := r.2
      writers := { wr with pc := .checking, currentTail := r.1, number := s.added } :: rest
      entry := Function.update s.entry s.added wr.event.units
      added := s.added + 1 }
  | .checking =>
    let pc := if outOfSpace c wr.currentTail wr.event s.log then .discarding else .copying
    { s with writers := { wr with pc } :: rest }
  | .discarding =>
    { s with
      log := discardOldest c s.log
      writers := { wr with pc := .checking } :: rest
      fates := s.fates ++ [.discarded wr.number] }
  | .copying =>
    { s with
      log := copyEntry c wr.currentTail wr.event s.log
      writers := { wr with pc := .publishing } :: rest
      copied := wr.number :: s.copied }
  | .publishing =>
    { s with
      log := publish wr.currentTail s.log
      writers := rest
      published := if wr.currentTail = s.log.tail then s.added else s.published }

def readStep (s : Sys w) : Option (Sys w) :=
  match s.reader with
  | .idle => none
  | .starting now => some { s with reader := .testing now s.log.head s.fates.length }
  | .testing now currentHead number =>
    if s.log.tail = currentHead then
      -- the log is empty, and `EVENT_LOG_NO_ENTRY` is returned
      some { s with reader := .idle }
    else
      some { s with reader := .copying now currentHead number }
  | .copying now currentHead number =>
    let totalSize := entrySize (s.log.events (index c currentHead)).size
    some { s with reader := .removing now currentHead number totalSize (readEntry c currentHead s.log) }
  | .removing now currentHead _ totalSize r =>
    if s.log.head ≠ currentHead then
      -- the entry was thrown away
      some { s with reader := .starting now }
    else
      some { s with
        log := { s.log with head := s.log.head + BitVec.ofNat w totalSize }
        reader := .idle
        returned := s.returned ++ [fixTimestamp now r]
        fates := s.fates ++ [.returned now] }

def step (a : Action) (s : Sys w) : Option (Sys w) :=
  match a with
  | .call e => some { s with writers := ⟨e, .reserving, 0, 0⟩ :: s.writers }
  | .write =>
    match s.writers with
    | [] => none
    | wr :: rest => some (writeStep c wr rest s)
  | .dequeue now =>
    match s.reader with
    | .idle => some { s with reader := .starting now }
    | _ => none
  | .read => readStep c s

abbrev Run := Steps.Run (step c) Sys.start

/-! ## What is asked of a run -/

def pos (entry : Nat → List LogUnit) : Nat → Nat
  | 0 => 0
  | k + 1 => pos entry k + (entry k).length

/-- The entries that were returned, as they left the log. -/
def given (entry : Nat → List LogUnit) (fates : List Fate) : List (List LogUnit) :=
  fates.zipIdx.filterMap fun x =>
    match x.1 with
    | .returned now => some (fixTimestamp now (entry x.2))
    | .discarded _ => none

/-- The number of entries that left the log. -/
def Sys.gone (s : Sys w) : Nat := s.fates.length

structure Sound (s : Sys w) : Prop where
  gone_le : s.gone ≤ s.published
  published_le : s.published ≤ s.added
  head : s.log.head = BitVec.ofNat w (pos s.entry s.gone)
  tail : s.log.tail = BitVec.ofNat w (pos s.entry s.published)
  room : pos s.entry s.published ≤ pos s.entry s.gone + c.unitCount
  complete : ∀ k, k < s.published → k ∈ s.copied
  intact : ∀ k, s.gone ≤ k → k < s.published → Holds c s.log.events (pos s.entry k) (s.entry k)
  returned : s.returned = given s.entry s.fates
  /-- The ring cannot hold an entry and the later one for which it was discarded. -/
  overwritten : ∀ k number, s.fates[k]? = some (.discarded number) → number < s.added ∧
    pos s.entry k + c.unitCount < pos s.entry number + (s.entry number).length

/-- The units that the writer copies to are free, and the unit that a split copy is too long is not
reserved. -/
def CopiesToFree (s : Sys w) (wr : Writer w) : Prop :=
  pos s.entry wr.number + written c (pos s.entry wr.number) wr.event ≤ pos s.entry s.gone + c.unitCount ∧
    (Split c (pos s.entry wr.number) wr.event → wr.number + 1 = s.added)

/-- The entry that the writer discards is a published one, and there is still no room with it. -/
def DiscardsPublished (s : Sys w) (wr : Writer w) : Prop :=
  s.log.head ≠ s.log.tail ∧
    pos s.entry s.gone + c.unitCount < pos s.entry wr.number + (s.entry wr.number).length

def SafeWrite (s : Sys w) (wr : Writer w) : Prop :=
  (wr.pc = .discarding → DiscardsPublished c s wr) ∧ (wr.pc = .copying → CopiesToFree c s wr)

/-- An unchanged `log_head` means that no entry has left the log. -/
def SafeRead (s : Sys w) : Reader w → Prop
  | .removing _ currentHead number _ _ => s.log.head = currentHead → s.gone = number
  | _ => True

def Safe (x : Sys w × Action) : Prop :=
  match x.2 with
  | .write => ∀ wr ∈ x.1.writers.head?, SafeWrite c x.1 wr
  | .read => SafeRead x.1 x.1.reader
  | _ => True

/-! ## Positions -/

variable {c} {s : Sys w} {entry : Nat → List LogUnit}

theorem pos_le (entry : Nat → List LogUnit) {j k : Nat} (h : j ≤ k) : pos entry j ≤ pos entry k := by
  induction h with
  | refl => exact Nat.le_refl _
  | step _ ih => exact Nat.le_trans ih (Nat.le_add_right _ _)

theorem pos_update {n : Nat} (us : List LogUnit) {k : Nat} (h : k ≤ n) :
    pos (Function.update entry n us) k = pos entry k := by
  induction k with
  | zero => rfl
  | succ k ih =>
    have hk : k ≠ n := by omega
    rw [pos, pos, ih (by omega), Function.update_of_ne hk]

theorem pos_lt {n : Nat} (h : ∀ k, k < n → IsEntry (entry k)) {j k : Nat} (hjk : j < k) (hk : k ≤ n) :
    pos entry j < pos entry k := by
  have hpos := (h j (by omega)).length_pos
  have hle := pos_le entry (Nat.succ_le_of_lt hjk)
  rw [pos] at hle
  omega

theorem getElem?_snoc {α : Type} {l : List α} {a b : α} {k : Nat} (h : (l ++ [a])[k]? = some b) :
    l[k]? = some b ∨ k = l.length ∧ a = b := by
  rw [List.getElem?_append] at h
  split at h
  · exact .inl h
  · rename_i hk
    obtain ⟨hlt, rfl⟩ := List.getElem?_eq_some_iff.mp h
    rw [List.length_singleton] at hlt
    exact .inr ⟨by omega, by simp⟩

theorem given_append (entry : Nat → List LogUnit) (fates : List Fate) (fate : Fate) :
    given entry (fates ++ [fate]) = given entry fates ++
      match fate with
      | .returned now => [fixTimestamp now (entry fates.length)]
      | .discarded _ => [] := by
  unfold given
  rw [List.zipIdx_append, List.filterMap_append, Nat.zero_add]
  cases fate <;> rfl

theorem given_congr {entry' : Nat → List LogUnit} {fates : List Fate} (h : ∀ k, k < fates.length → entry k = entry' k) :
    given entry fates = given entry' fates := by
  unfold given
  apply List.filterMap_congr
  rintro ⟨fate, k⟩ hk
  have hlt : k < fates.length := by
    have hget := List.mem_zipIdx hk
    omega
  simp only [h k hlt]

/-! ## The invariant -/

/-- A writer that has reserved its units is at the entry of its number. -/
structure Placed (s : Sys w) (wr : Writer w) : Prop where
  published_le : s.published ≤ wr.number
  lt_added : wr.number < s.added
  currentTail : wr.currentTail = BitVec.ofNat w (pos s.entry wr.number)
  entry : s.entry wr.number = wr.event.units
  copied : wr.pc = .publishing → wr.number ∈ s.copied

/-- What the reader has got is the entry at the head, unless that was thrown away. -/
def Reading (s : Sys w) : Prop :=
  match s.reader with
  | .idle => True
  | .starting _ => True
  | .testing _ currentHead number => number ≤ s.gone ∧ currentHead = BitVec.ofNat w (pos s.entry number)
  | .copying _ currentHead number =>
    number ≤ s.gone ∧ currentHead = BitVec.ofNat w (pos s.entry number) ∧ (s.gone = number → number < s.published)
  | .removing _ currentHead number totalSize r =>
    number ≤ s.gone ∧ currentHead = BitVec.ofNat w (pos s.entry number) ∧
      (s.gone = number → number < s.published ∧ r = s.entry number ∧ totalSize = (s.entry number).length)

structure Inv (c : Config w) (s : Sys w) : Prop where
  sound : Sound c s
  tailNext : s.log.tailNext = BitVec.ofNat w (pos s.entry s.added)
  entries : ∀ k, k < s.added → IsEntry (s.entry k)
  copied_lt : ∀ k ∈ s.copied, k < s.added
  held : ∀ k ∈ s.copied, s.gone ≤ k →
    Holds c s.log.events (pos s.entry k) (s.entry k) ∧ pos s.entry (k + 1) ≤ pos s.entry s.gone + c.unitCount
  placed : ∀ wr ∈ s.writers, wr.pc ≠ .reserving → Placed s wr
  nested : s.writers.Pairwise fun a b => a.pc ≠ .reserving → b.pc ≠ .reserving → b.number < a.number
  pending : ∀ k, s.published ≤ k → k < s.added →
    k ∈ s.copied ∨ ∃ wr ∈ s.writers, wr.pc ≠ .reserving ∧ wr.number = k
  reading : Reading s

theorem inv_start : Inv c Sys.start where
  sound :=
    { gone_le := Nat.le_refl 0
      published_le := Nat.le_refl 0
      head := rfl
      tail := rfl
      room := Nat.zero_le _
      complete := fun k hk => absurd hk (Nat.not_lt_zero k)
      intact := fun k _ hk => absurd hk (Nat.not_lt_zero k)
      returned := rfl
      overwritten := by simp [Sys.start] }
  tailNext := rfl
  entries := fun k hk => absurd hk (Nat.not_lt_zero k)
  copied_lt := by simp [Sys.start]
  held := by simp [Sys.start]
  placed := by simp [Sys.start]
  nested := List.Pairwise.nil
  pending := fun k _ hk => absurd hk (Nat.not_lt_zero k)
  reading := trivial

/-- A writer starts, or the running one has only made up its mind. -/
theorem Inv.setWriters (h : Inv c s) {writers : List (Writer w)}
    (hplaced : ∀ wr ∈ writers, wr.pc ≠ .reserving → Placed s wr)
    (hnested : writers.Pairwise fun a b => a.pc ≠ .reserving → b.pc ≠ .reserving → b.number < a.number)
    (hpending : ∀ wr ∈ s.writers, wr.pc ≠ .reserving → ∃ wr' ∈ writers, wr'.pc ≠ .reserving ∧ wr'.number = wr.number) :
    Inv c { s with writers } where
  sound := ⟨h.sound.gone_le, h.sound.published_le, h.sound.head, h.sound.tail, h.sound.room, h.sound.complete,
    h.sound.intact, h.sound.returned, h.sound.overwritten⟩
  tailNext := h.tailNext
  entries := h.entries
  copied_lt := h.copied_lt
  held := h.held
  placed := fun wr hwr hpc =>
    let hp := hplaced wr hwr hpc
    ⟨hp.published_le, hp.lt_added, hp.currentTail, hp.entry, hp.copied⟩
  nested := hnested
  pending := by
    intro k hle hlt
    obtain hcopied | ⟨wr, hwr, hpc, rfl⟩ := h.pending k hle hlt
    · exact .inl hcopied
    · exact .inr (hpending wr hwr hpc)
  reading := h.reading

/-! ## What the steps keep -/

variable {wr : Writer w} {rest : List (Writer w)}

theorem exists_entry (s : Sys w) (us : List LogUnit) : ∃ entry, entry = Function.update s.entry s.added us ∧
    (∀ k, k < s.added → entry k = s.entry k) ∧ (∀ k, k ≤ s.added → pos entry k = pos s.entry k) ∧ entry s.added = us :=
  ⟨_, rfl, fun _ hk => Function.update_of_ne (Nat.ne_of_lt hk) _ _, fun _ hk => pos_update _ hk, Function.update_self ..⟩

/-- The reader does not notice what the others do, unless an entry leaves the log. -/
theorem Reading.mono {s' : Sys w} (h : Reading s) (hreader : s'.reader = s.reader)
    (hentry : ∀ k, k ≤ s.gone → pos s'.entry k = pos s.entry k ∧ (k < s.published → s'.entry k = s.entry k))
    (hgone : s.gone ≤ s'.gone) (hsame : ∀ number, number ≤ s.gone → s'.gone = number → s.gone = number)
    (hpublished : s.published ≤ s'.published) : Reading s' := by
  unfold Reading at h ⊢
  rw [hreader]
  cases hr : s.reader with
  | idle => trivial
  | starting now => trivial
  | testing now currentHead number =>
    rw [hr] at h
    obtain ⟨hle, hhead⟩ := h
    exact ⟨Nat.le_trans hle hgone, by rw [hhead, (hentry number hle).1]⟩
  | copying now currentHead number =>
    rw [hr] at h
    obtain ⟨hle, hhead, hnext⟩ := h
    refine ⟨Nat.le_trans hle hgone, by rw [hhead, (hentry number hle).1], fun heq => ?_⟩
    exact Nat.lt_of_lt_of_le (hnext (hsame _ hle heq)) hpublished
  | removing now currentHead number totalSize r =>
    rw [hr] at h
    obtain ⟨hle, hhead, hnext⟩ := h
    refine ⟨Nat.le_trans hle hgone, by rw [hhead, (hentry number hle).1], fun heq => ?_⟩
    obtain ⟨hlt, hread⟩ := hnext (hsame _ hle heq)
    rw [(hentry number hle).2 hlt]
    exact ⟨Nat.lt_of_lt_of_le hlt hpublished, hread⟩

theorem Sound.extend (h : Sound c s) (hentry : ∀ k, k < s.added → entry k = s.entry k)
    (hpos : ∀ k, k ≤ s.added → pos entry k = pos s.entry k) (tailNext : BitVec w) (writers : List (Writer w)) :
    Sound c { s with log := { s.log with tailNext }, writers, entry, added := s.added + 1 } := by
  have hgone : s.gone ≤ s.added := Nat.le_trans h.gone_le h.published_le
  have hpublished := h.published_le
  refine ⟨h.gone_le, Nat.le_succ_of_le hpublished, ?_, ?_, ?_, h.complete, ?_, ?_, ?_⟩
  · show s.log.head = BitVec.ofNat w (pos entry s.gone)
    rw [hpos _ hgone, h.head]
  · show s.log.tail = BitVec.ofNat w (pos entry s.published)
    rw [hpos _ hpublished, h.tail]
  · show pos entry s.published ≤ pos entry s.gone + c.unitCount
    rw [hpos _ hpublished, hpos _ hgone]
    exact h.room
  · intro k hle hlt
    have hk : k < s.added := Nat.lt_of_lt_of_le hlt hpublished
    show Holds c s.log.events (pos entry k) (entry k)
    rw [hpos _ (Nat.le_of_lt hk), hentry _ hk]
    exact h.intact k hle hlt
  · exact h.returned.trans (given_congr fun k hk => (hentry k (Nat.lt_of_lt_of_le hk hgone)).symm)
  · intro k number hk
    obtain ⟨hnumber, hover⟩ := h.overwritten k number hk
    have hkgone : k < s.gone := (List.getElem?_eq_some_iff.mp hk).1
    refine ⟨Nat.lt_succ_of_lt hnumber, ?_⟩
    show pos entry k + c.unitCount < pos entry number + (entry number).length
    rw [hpos _ (by omega), hpos _ (Nat.le_of_lt hnumber), hentry _ hnumber]
    exact hover

theorem Inv.reserve (h : Inv c s) (hwriters : s.writers = wr :: rest) (hpc : wr.pc = .reserving) :
    Inv c (writeStep c wr rest s) := by
  obtain ⟨entry, hdef, hentry, hpos, hself⟩ := exists_entry s wr.event.units
  have hgone : s.gone ≤ s.added := Nat.le_trans h.sound.gone_le h.sound.published_le
  have hpublished := h.sound.published_le
  have hrest : ∀ v ∈ rest, v ∈ s.writers := fun v hv => hwriters ▸ List.mem_cons_of_mem _ hv
  unfold writeStep
  rw [hpc]
  dsimp only
  rw [← hdef]
  refine
    { sound := h.sound.extend hentry hpos _ _
      tailNext := ?_, entries := ?_, copied_lt := fun k hk => Nat.lt_succ_of_lt (h.copied_lt k hk)
      held := ?_, placed := ?_, nested := ?_, pending := ?_, reading := ?_ }
  · show s.log.tailNext + BitVec.ofNat w (entrySize wr.event.entry.size) =
      BitVec.ofNat w (pos entry s.added + (entry s.added).length)
    rw [hself, wr.event.length_units, hpos _ (Nat.le_refl _), h.tailNext, ← BitVec.ofNat_add]
  · intro k hk
    show IsEntry (entry k)
    obtain hk | rfl := Nat.lt_succ_iff_lt_or_eq.mp hk
    · rw [hentry k hk]
      exact h.entries k hk
    · rw [hself]
      exact wr.event.isEntry
  · intro k hk hle
    have hlt := h.copied_lt k hk
    show Holds c s.log.events (pos entry k) (entry k) ∧ pos entry (k + 1) ≤ pos entry s.gone + c.unitCount
    rw [hpos _ (Nat.le_of_lt hlt), hpos _ hlt, hpos _ hgone, hentry _ hlt]
    exact h.held k hk hle
  · intro v hv hvpc
    obtain rfl | hv := List.mem_cons.mp hv
    · refine ⟨hpublished, Nat.lt_succ_self _, ?_, hself, fun hp => by cases hp⟩
      show s.log.tailNext = BitVec.ofNat w (pos entry s.added)
      rw [hpos _ (Nat.le_refl _), h.tailNext]
    · have hplaced := h.placed v (hrest v hv) hvpc
      have hlt := hplaced.lt_added
      refine ⟨hplaced.published_le, Nat.lt_succ_of_lt hlt, ?_, (hentry _ hlt).trans hplaced.entry, hplaced.copied⟩
      show v.currentTail = BitVec.ofNat w (pos entry v.number)
      rw [hpos _ (Nat.le_of_lt hlt), hplaced.currentTail]
  · have hnested := h.nested
    rw [hwriters] at hnested
    refine List.pairwise_cons.mpr ⟨?_, (List.pairwise_cons.mp hnested).2⟩
    intro v hv _ hvpc
    exact (h.placed v (hrest v hv) hvpc).lt_added
  · intro k hle hlt
    obtain hlt | rfl := Nat.lt_succ_iff_lt_or_eq.mp hlt
    · obtain hcopied | ⟨v, hv, hvpc, rfl⟩ := h.pending k hle hlt
      · exact .inl hcopied
      · refine .inr ⟨v, ?_, hvpc, rfl⟩
        rw [hwriters] at hv
        obtain rfl | hv := List.mem_cons.mp hv
        · exact absurd hpc hvpc
        · exact List.mem_cons_of_mem _ hv
    · exact .inr ⟨_, List.mem_cons_self, by simp, rfl⟩
  · refine h.reading.mono rfl (fun k hk => ⟨hpos k (Nat.le_trans hk hgone), fun hlt => ?_⟩) (Nat.le_refl _)
      (fun _ _ heq => heq) (Nat.le_refl _)
    exact hentry k (Nat.lt_of_lt_of_le hlt hpublished)

theorem Inv.moveOn (h : Inv c s) (hwriters : s.writers = wr :: rest) (hreserved : wr.pc ≠ .reserving) {pc : WriterPc}
    (hpc : pc ≠ .reserving) (hcopied : pc = .publishing → wr.number ∈ s.copied) :
    Inv c { s with writers := { wr with pc } :: rest } := by
  have hnested := h.nested
  rw [hwriters, List.pairwise_cons] at hnested
  refine h.setWriters ?_ ?_ ?_
  · intro v hv hvpc
    obtain rfl | hv := List.mem_cons.mp hv
    · have hplaced := h.placed wr (hwriters ▸ List.mem_cons_self) hreserved
      exact ⟨hplaced.published_le, hplaced.lt_added, hplaced.currentTail, hplaced.entry, hcopied⟩
    · exact h.placed v (hwriters ▸ List.mem_cons_of_mem _ hv) hvpc
  · exact List.pairwise_cons.mpr ⟨fun v hv _ hvpc => hnested.1 v hv hreserved hvpc, hnested.2⟩
  · intro v hv hvpc
    rw [hwriters] at hv
    obtain rfl | hv := List.mem_cons.mp hv
    · exact ⟨_, List.mem_cons_self, hpc, rfl⟩
    · exact ⟨v, List.mem_cons_of_mem _ hv, hvpc, rfl⟩

theorem Inv.setReader (h : Inv c s) {reader : Reader w} (hreading : Reading { s with reader }) :
    Inv c { s with reader } where
  sound := ⟨h.sound.gone_le, h.sound.published_le, h.sound.head, h.sound.tail, h.sound.room, h.sound.complete,
    h.sound.intact, h.sound.returned, h.sound.overwritten⟩
  tailNext := h.tailNext
  entries := h.entries
  copied_lt := h.copied_lt
  held := h.held
  placed := fun v hv hvpc =>
    let hp := h.placed v hv hvpc
    ⟨hp.published_le, hp.lt_added, hp.currentTail, hp.entry, hp.copied⟩
  nested := h.nested
  pending := h.pending
  reading := hreading

theorem Inv.depart (h : Inv c s) (hlt : s.gone < s.published) {fate : Fate}
    (hfate : ∀ number, fate = .discarded number → number < s.added ∧
      pos s.entry s.gone + c.unitCount < pos s.entry number + (s.entry number).length)
    {reader : Reader w} {returned : List (List LogUnit)} (hreturned : returned = given s.entry (s.fates ++ [fate]))
    (hreading : Reading { s with reader, fates := s.fates ++ [fate] }) :
    Inv c { s with
      log := { s.log with head := s.log.head + BitVec.ofNat w (s.entry s.gone).length }
      reader, returned
      fates := s.fates ++ [fate] } := by
  have hgone : (s.fates ++ [fate]).length = s.gone + 1 := List.length_append
  have hle : pos s.entry s.gone ≤ pos s.entry (s.gone + 1) := pos_le _ (Nat.le_succ _)
  refine
    { sound := ⟨?_, h.sound.published_le, ?_, h.sound.tail, ?_, h.sound.complete, ?_, hreturned, ?_⟩
      tailNext := h.tailNext, entries := h.entries, copied_lt := h.copied_lt, held := ?_
      placed := fun v hv hvpc => ?_, nested := h.nested, pending := h.pending, reading := hreading }
  · exact hgone.trans_le hlt
  · show s.log.head + _ = BitVec.ofNat w (pos s.entry (s.fates ++ [fate]).length)
    rw [hgone, pos, h.sound.head, BitVec.ofNat_add]
  · show pos s.entry s.published ≤ pos s.entry (s.fates ++ [fate]).length + c.unitCount
    have hroom := h.sound.room
    rw [hgone]
    omega
  · intro k hk hkp
    refine h.sound.intact k ?_ hkp
    have hk : (s.fates ++ [fate]).length ≤ k := hk
    omega
  · intro k number hk
    obtain hbefore | ⟨rfl, heq⟩ := getElem?_snoc hk
    · exact h.sound.overwritten k number hbefore
    · exact hfate number heq
  · intro k hk hgk
    have hgk : (s.fates ++ [fate]).length ≤ k := hgk
    obtain ⟨hholds, hroom⟩ := h.held k hk (by omega)
    refine ⟨hholds, ?_⟩
    show pos s.entry (k + 1) ≤ pos s.entry (s.fates ++ [fate]).length + c.unitCount
    rw [hgone]
    omega
  · obtain ⟨h₁, h₂, h₃, h₄, h₅⟩ := h.placed v hv hvpc
    exact ⟨h₁, h₂, h₃, h₄, h₅⟩

theorem Inv.head_eq (h : Inv c s) (hlt : s.gone < s.published) :
    entrySize (s.log.events (index c s.log.head)).size = (s.entry s.gone).length := by
  have hentry := h.entries s.gone (Nat.lt_of_lt_of_le hlt h.sound.published_le)
  rw [h.sound.head, index_ofNat]
  exact (h.sound.intact s.gone (Nat.le_refl _) hlt).head hentry

theorem Inv.discard (h : Inv c s) (hwriters : s.writers = wr :: rest) (hpc : wr.pc = .discarding)
    (hsafe : DiscardsPublished c s wr) : Inv c (writeStep c wr rest s) := by
  obtain ⟨hne, hneeded⟩ := hsafe
  have hlt : s.gone < s.published := by
    refine Nat.lt_of_le_of_ne h.sound.gone_le fun heq => hne ?_
    rw [h.sound.head, h.sound.tail, heq]
  have hreserved : wr.pc ≠ .reserving := by simp [hpc]
  have hplaced := h.placed wr (hwriters ▸ List.mem_cons_self) hreserved
  have hreading : Reading { s with reader := s.reader, fates := s.fates ++ [Fate.discarded wr.number] } := by
    have hgone : (s.fates ++ [Fate.discarded wr.number]).length = s.gone + 1 := List.length_append
    refine h.reading.mono rfl (fun _ _ => ⟨rfl, fun _ => rfl⟩)
      (Nat.le_of_lt (Nat.lt_of_lt_of_eq (Nat.lt_succ_self _) hgone.symm)) ?_ (Nat.le_refl _)
    rintro number hle heq
    have heq : (s.fates ++ [Fate.discarded wr.number]).length = number := heq
    omega
  have hfate : ∀ number, Fate.discarded wr.number = .discarded number → number < s.added ∧
      pos s.entry s.gone + c.unitCount < pos s.entry number + (s.entry number).length :=
    fun number heq => Fate.discarded.inj heq ▸ ⟨hplaced.lt_added, hneeded⟩
  have hreturned : s.returned = given s.entry (s.fates ++ [.discarded wr.number]) := by
    rw [given_append, h.sound.returned, List.append_nil]
  have hdepart := h.depart hlt hfate hreturned hreading
  unfold writeStep discardOldest
  rw [hpc, h.head_eq hlt]
  exact hdepart.moveOn hwriters hreserved (by simp) (by simp)

theorem Inv.check (h : Inv c s) (hwriters : s.writers = wr :: rest) (hpc : wr.pc = .checking) :
    Inv c (writeStep c wr rest s) := by
  unfold writeStep
  rw [hpc]
  refine h.moveOn hwriters (by simp [hpc]) ?_ ?_
  · split <;> simp
  · split <;> simp

theorem Inv.held_copy (h : Inv c s) (hplaced : Placed s wr) (hsafe : CopiesToFree c s wr) {k : Nat}
    (hk : k ∈ wr.number :: s.copied) (hgone : s.gone ≤ k) :
    Holds c (copyEntry c wr.currentTail wr.event s.log).events (pos s.entry k) (s.entry k) ∧
      pos s.entry (k + 1) ≤ pos s.entry s.gone + c.unitCount := by
  obtain ⟨hfree, hlast⟩ := hsafe
  have hlen : (s.entry wr.number).length = entrySize wr.event.entry.size := by
    rw [hplaced.entry, wr.event.length_units]
  have hnext : pos s.entry (wr.number + 1) = pos s.entry wr.number + entrySize wr.event.entry.size := by
    rw [pos, hlen]
  have hwritten : entrySize wr.event.entry.size ≤ written c (pos s.entry wr.number) wr.event := Nat.le_add_right _ _
  have hpublished := h.sound.gone_le
  rw [hplaced.currentTail]
  by_cases hown : k = wr.number
  · subst hown
    rw [hplaced.entry]
    exact ⟨holds_copyEntry s.log _ wr.event, by omega⟩
  · obtain ⟨hholds, hroom⟩ := h.held k ((List.mem_cons.mp hk).resolve_left hown) hgone
    refine ⟨hholds.copyEntry wr.event ?_, hroom⟩
    have hklen : pos s.entry (k + 1) = pos s.entry k + (s.entry k).length := rfl
    obtain hbefore | hafter := Nat.lt_or_gt_of_ne hown
    · have hle : pos s.entry (k + 1) ≤ pos s.entry wr.number := pos_le s.entry hbefore
      have hle' := pos_le s.entry hgone
      exact .inl ⟨by omega, by omega⟩
    · -- a later entry is there, so that the copy is not split
      have hlt := h.copied_lt k ((List.mem_cons.mp hk).resolve_left hown)
      have hwhole : written c (pos s.entry wr.number) wr.event = entrySize wr.event.entry.size := by
        unfold written
        rw [if_neg fun hsplit => by have := hlast hsplit; omega]
        rfl
      have hle : pos s.entry (wr.number + 1) ≤ pos s.entry k := pos_le s.entry hafter
      have hle' := pos_le s.entry (Nat.le_trans hpublished hplaced.published_le)
      exact .inr ⟨by omega, by omega⟩

theorem Inv.copy (h : Inv c s) (hwriters : s.writers = wr :: rest) (hpc : wr.pc = .copying)
    (hsafe : CopiesToFree c s wr) : Inv c (writeStep c wr rest s) := by
  have hreserved : wr.pc ≠ .reserving := by simp [hpc]
  have hplaced := h.placed wr (hwriters ▸ List.mem_cons_self) hreserved
  have hcopied : Inv c { s with log := copyEntry c wr.currentTail wr.event s.log, copied := wr.number :: s.copied } :=
    { sound := ⟨h.sound.gone_le, h.sound.published_le, h.sound.head, h.sound.tail, h.sound.room,
        fun k hk => List.mem_cons_of_mem _ (h.sound.complete k hk),
        fun k hgone hk => (h.held_copy hplaced hsafe (List.mem_cons_of_mem _ (h.sound.complete k hk)) hgone).1,
        h.sound.returned, h.sound.overwritten⟩
      tailNext := h.tailNext
      entries := h.entries
      copied_lt := List.forall_mem_cons.mpr ⟨hplaced.lt_added, h.copied_lt⟩
      held := fun k hk hgone => h.held_copy hplaced hsafe hk hgone
      placed := fun v hv hvpc =>
        let hp := h.placed v hv hvpc
        ⟨hp.published_le, hp.lt_added, hp.currentTail, hp.entry, fun hp' => List.mem_cons_of_mem _ (hp.copied hp')⟩
      nested := h.nested
      pending := fun k hle hlt => (h.pending k hle hlt).imp_left (List.mem_cons_of_mem _)
      reading := h.reading.mono rfl (fun _ _ => ⟨rfl, fun _ => rfl⟩) (Nat.le_refl _) (fun _ _ heq => heq)
        (Nat.le_refl _) }
  unfold writeStep
  rw [hpc]
  exact hcopied.moveOn hwriters hreserved (by simp) fun _ => List.mem_cons_self

/-- The writer of the oldest entry that is not published: all later ones have been copied. -/
theorem Inv.all_copied (h : Inv c s) (hwriters : s.writers = wr :: rest) (hpc : wr.pc = .publishing)
    (holdest : wr.number = s.published) : ∀ k, k < s.added → k ∈ s.copied := by
  have hplaced := h.placed wr (hwriters ▸ List.mem_cons_self) (by simp [hpc])
  have hnested := h.nested
  rw [hwriters, List.pairwise_cons] at hnested
  intro k hk
  by_cases hpublished : k < s.published
  · exact h.sound.complete k hpublished
  · obtain hcopied | ⟨v, hv, hvpc, rfl⟩ := h.pending k (Nat.le_of_not_lt hpublished) hk
    · exact hcopied
    · rw [hwriters] at hv
      obtain rfl | hv := List.mem_cons.mp hv
      · exact hplaced.copied hpc
      · -- an interrupted writer has a smaller number
        have hlt := hnested.1 v hv (by simp [hpc]) hvpc
        omega

/-- `log_tail` is where the writer's entry starts only if that is the oldest that is not published. -/
theorem Inv.oldest_of_tail (h : Inv c s) (hwriters : s.writers = wr :: rest) (hpc : wr.pc = .publishing)
    (htail : wr.currentTail = s.log.tail) : wr.number = s.published := by
  have hplaced := h.placed wr (hwriters ▸ List.mem_cons_self) (by simp [hpc])
  have hle := pos_le s.entry hplaced.published_le
  have hgone := pos_le s.entry h.sound.gone_le
  have hroom := (h.held _ (hplaced.copied hpc) (Nat.le_trans h.sound.gone_le hplaced.published_le)).2
  rw [pos] at hroom
  obtain ⟨d, hd⟩ := Nat.exists_eq_add_of_le hle
  rw [hplaced.currentTail, h.sound.tail, hd, ofNat_add_eq_iff c (by omega)] at htail
  refine (Nat.eq_or_lt_of_le hplaced.published_le).elim Eq.symm fun hlt => ?_
  have hpos := pos_lt h.entries hlt (Nat.le_of_lt hplaced.lt_added)
  omega

theorem Inv.publish (h : Inv c s) (hwriters : s.writers = wr :: rest) (hpc : wr.pc = .publishing) :
    Inv c (writeStep c wr rest s) := by
  have hreserved : wr.pc ≠ .reserving := by simp [hpc]
  have hplaced := h.placed wr (hwriters ▸ List.mem_cons_self) hreserved
  have hrest : ∀ v ∈ rest, v ∈ s.writers := fun v hv => hwriters ▸ List.mem_cons_of_mem _ hv
  have hnested := h.nested
  rw [hwriters, List.pairwise_cons] at hnested
  unfold writeStep EventLog.publish
  rw [hpc]
  by_cases htail : wr.currentTail = s.log.tail
  · have holdest := h.oldest_of_tail hwriters hpc htail
    have hall := h.all_copied hwriters hpc holdest
    simp only [if_pos htail]
    refine
      { sound := ⟨Nat.le_trans h.sound.gone_le h.sound.published_le, Nat.le_refl _, h.sound.head, h.tailNext, ?_, hall,
          fun k hgone hk => (h.held k (hall k hk) hgone).1, h.sound.returned, h.sound.overwritten⟩
        tailNext := h.tailNext, entries := h.entries, copied_lt := h.copied_lt, held := h.held
        placed := ?_, nested := hnested.2, pending := fun k hle hlt => absurd hlt (Nat.not_lt_of_le hle)
        reading := h.reading.mono rfl (fun _ _ => ⟨rfl, fun _ => rfl⟩) (Nat.le_refl _) (fun _ _ heq => heq)
          h.sound.published_le }
    · have hlast : s.added = s.added - 1 + 1 := by have := hplaced.lt_added; omega
      have hroom := (h.held (s.added - 1) (hall _ (by omega)) ?_).2
      · rw [← hlast] at hroom
        exact hroom
      · have := hplaced.lt_added
        have := h.sound.gone_le
        omega
    · intro v hv hvpc
      -- there is no other writer with a reservation
      have hlt := hnested.1 v hv hreserved hvpc
      have hle := (h.placed v (hrest v hv) hvpc).published_le
      omega
  · simp only [if_neg htail]
    refine
      { sound := ⟨h.sound.gone_le, h.sound.published_le, h.sound.head, h.sound.tail, h.sound.room, h.sound.complete,
          h.sound.intact, h.sound.returned, h.sound.overwritten⟩
        tailNext := h.tailNext, entries := h.entries, copied_lt := h.copied_lt, held := h.held
        placed := ?_, nested := hnested.2, pending := ?_
        reading := h.reading.mono rfl (fun _ _ => ⟨rfl, fun _ => rfl⟩) (Nat.le_refl _) (fun _ _ heq => heq)
          (Nat.le_refl _) }
    · intro v hv hvpc
      obtain ⟨h₁, h₂, h₃, h₄, h₅⟩ := h.placed v (hrest v hv) hvpc
      exact ⟨h₁, h₂, h₃, h₄, h₅⟩
    · intro k hle hlt
      obtain hcopied | ⟨v, hv, hvpc, rfl⟩ := h.pending k hle hlt
      · exact .inl hcopied
      · rw [hwriters] at hv
        obtain rfl | hv := List.mem_cons.mp hv
        · exact .inl (hplaced.copied hpc)
        · exact .inr ⟨v, hv, hvpc, rfl⟩

theorem Inv.read (h : Inv c s) (hsafe : SafeRead s s.reader) {s' : Sys w} (hread : readStep c s = some s') : Inv c s' := by
  have hreading := h.reading
  unfold readStep at hread
  unfold Reading at hreading
  cases hreader : s.reader with
  | idle =>
    rw [hreader] at hread
    cases hread
  | starting now =>
    simp only [hreader, Option.some.injEq] at hread
    subst hread
    exact h.setReader ⟨Nat.le_refl _, h.sound.head⟩
  | testing now currentHead number =>
    simp only [hreader] at hread hreading
    obtain ⟨hle, hhead⟩ := hreading
    split at hread
    · cases hread
      exact h.setReader trivial
    · rename_i hne
      cases hread
      refine h.setReader ⟨hle, hhead, fun heq => Nat.lt_of_le_of_ne ?_ fun hnumber => hne ?_⟩
      · exact heq ▸ h.sound.gone_le
      · rw [hhead, h.sound.tail, hnumber]
  | copying now currentHead number =>
    simp only [hreader, Option.some.injEq] at hread hreading
    subst hread
    obtain ⟨hle, hhead, hnext⟩ := hreading
    refine h.setReader ⟨hle, hhead, fun heq => ?_⟩
    have hlt := hnext heq
    have hholds := h.sound.intact number (Nat.le_of_eq heq) hlt
    have hentry := h.entries number (Nat.lt_of_lt_of_le hlt h.sound.published_le)
    refine ⟨hlt, ?_, ?_⟩
    · rw [hhead]
      exact readEntry_eq hholds hentry
    · rw [hhead, index_ofNat]
      exact hholds.head hentry
  | removing now currentHead number totalSize r =>
    simp only [hreader] at hread hreading
    rw [hreader] at hsafe
    split at hread
    · cases hread
      exact h.setReader trivial
    · rename_i hsame
      cases hread
      obtain ⟨-, -, hnext⟩ := hreading
      have heq := hsafe (not_not.mp hsame)
      obtain ⟨hlt, rfl, rfl⟩ := hnext heq
      subst heq
      refine @Inv.depart _ _ _ h hlt (.returned now) (by simp) _ _ ?_ trivial
      rw [given_append, h.sound.returned]
      rfl

theorem Inv.step (h : Inv c s) {a : Action} (hsafe : Safe c (s, a)) {s' : Sys w} (hstep : step c a s = some s') :
    Inv c s' := by
  cases a with
  | call e =>
    cases hstep
    refine h.setWriters ?_ ?_ ?_
    · intro v hv hvpc
      obtain rfl | hv := List.mem_cons.mp hv
      · exact absurd rfl hvpc
      · exact h.placed v hv hvpc
    · exact List.pairwise_cons.mpr ⟨fun v _ hvpc => absurd rfl hvpc, h.nested⟩
    · exact fun v hv hvpc => ⟨v, List.mem_cons_of_mem _ hv, hvpc, rfl⟩
  | write =>
    cases hwriters : s.writers with
    | nil =>
      simp only [EventLog.step, hwriters] at hstep
      cases hstep
    | cons wr rest =>
      simp only [EventLog.step, hwriters, Option.some.injEq] at hstep
      subst hstep
      have hsafe : SafeWrite c s wr := hsafe wr (by rw [hwriters]; rfl)
      cases hpc : wr.pc with
      | reserving => exact h.reserve hwriters hpc
      | checking => exact h.check hwriters hpc
      | discarding => exact h.discard hwriters hpc (hsafe.1 hpc)
      | copying => exact h.copy hwriters hpc (hsafe.2 hpc)
      | publishing => exact h.publish hwriters hpc
  | dequeue now =>
    cases hreader : s.reader with
    | idle =>
      simp only [EventLog.step, hreader, Option.some.injEq] at hstep
      subst hstep
      exact h.setReader trivial
    | _ =>
      simp only [EventLog.step, hreader] at hstep
      cases hstep
  | read => exact h.read hsafe hstep

/-- The reader returns each published entry that was not discarded for want of room once, in order, and as it was added. -/
theorem reader_sound {l : List (Sys w × Action)} (run : Run c l s) (hsafe : ∀ x ∈ l, Safe c x) : Sound c s :=
  (run.invariant inv_start (fun _ _ _ h hsafe => h.step hsafe) hsafe).sound

/-! ## Two runs -/

instance (s : Sys w) (wr : Writer w) : Decidable (DiscardsPublished c s wr) := inferInstanceAs (Decidable (_ ∧ _))

instance (s : Sys w) (wr : Writer w) : Decidable (CopiesToFree c s wr) := inferInstanceAs (Decidable (_ ∧ (_ → _)))

instance (s : Sys w) (wr : Writer w) : Decidable (SafeWrite c s wr) := inferInstanceAs (Decidable ((_ → _) ∧ (_ → _)))

instance (s : Sys w) (reader : Reader w) : Decidable (SafeRead s reader) :=
  match reader with
  | .removing .. => inferInstanceAs (Decidable (_ → _))
  | .idle | .starting _ | .testing .. | .copying .. => isTrue trivial

instance (x : Sys w × Action) : Decidable (Safe c x) :=
  match x with
  | (s, .write) => inferInstanceAs (Decidable (∀ wr ∈ s.writers.head?, SafeWrite c s wr))
  | (s, .read) => inferInstanceAs (Decidable (SafeRead s s.reader))
  | (_, .call _) | (_, .dequeue _) => isTrue trivial

def wholeAdd (e : Event) : List Action := [.call e, .write, .write, .write, .write]

def wholeDequeue (now : BitVec 32) : List Action := [.dequeue now, .read, .read, .read, .read]

/-- A writer is interrupted by another after its reservation, and the reader fetches both entries. -/
def nestedAdds : List Action :=
  [.call (sample 31), .write] ++ wholeAdd (sample 8) ++ [.write, .write, .write] ++ wholeDequeue 5 ++ wholeDequeue 6

/-- The same in a full log. The first writer discards two entries when it goes on. -/
def nestedAddsFull : List Action :=
  (List.replicate 16 (wholeAdd (sample 24))).flatten ++ [.call (sample 31), .write] ++ wholeAdd (sample 31) ++
    List.replicate 7 .write ++ wholeDequeue 5

theorem reader_sound_nested : ∃ l s, Run defaultLog l s ∧ s.returned.length = 2 ∧ Sound defaultLog s := by
  have hrun : (Steps.trace (step defaultLog) nestedAdds ([], Sys.start)).any fun q =>
      decide (q.2.returned.length = 2 ∧ ∀ x ∈ q.1, Safe defaultLog x) := by
    decide +kernel
  obtain ⟨l, s, run, -, hlength, hsafe⟩ := Steps.exists_run hrun
  exact ⟨l, s, run, hlength, reader_sound run hsafe⟩

/-- `log_tail_next` is too far ahead for the second writer to see that there is no room, and its copy hits
entries that are still in the log. -/
theorem interrupted_overwrites : ∃ l s, Run defaultLog l s ∧ ¬Sound defaultLog s := by
  have hrun : (Steps.trace (step defaultLog) nestedAddsFull ([], Sys.start)).any fun q =>
      decide (q.2.returned ≠ given q.2.entry q.2.fates) := by
    decide +kernel
  obtain ⟨l, s, run, -, hdone⟩ := Steps.exists_run hrun
  exact ⟨l, s, run, fun hsound => hdone hsound.returned⟩

end ChromeEc.EventLog
