import ChromeEc.EventLog.Layout

/- The event log as a FIFO, with one writer.

  On the list of entries an add drops entries from the front until the new one has room,
  and appends it.

  What is proved: as long as no add splits its payload at the physical end and fills the
  ring to the last unit, the log follows the list: an add leaves the units of the entries
  that stay alone, and a dequeue returns what was added (`fifo_integrity`). -/
namespace ChromeEc.EventLog
open Lib

variable {w : Nat}

inductive Call where
  | add (e : Event)
  | dequeue (now : BitVec 32)

/-- The oldest entries are dropped until `n` units fit in. -/
def makeFit (N n : Nat) : List (List LogUnit) → List (List LogUnit)
  | [] => []
  | us :: es => if N < (us :: es).flatten.length + n then makeFit N n es else us :: es

/-- What a dequeue returns. -/
def oldest (now : BitVec 32) : List (List LogUnit) → List LogUnit
  | [] => [noEntry]
  | us :: _ => fixTimestamp now us

variable (c : Config w)

/-- The units of the first `n` in the log are what they were before. -/
def Untouched (s s' : Log w) (n : Nat) : Prop :=
  ∀ i, i < n → ringAt c.unitCount s'.events s'.head.toNat i = ringAt c.unitCount s.events s'.head.toNat i

/-- The log does what the list does. -/
def Faithful : Log w → List (List LogUnit) → List Call → Prop
  | _, _, [] => True
  | s, es, .add e :: calls =>
    let s' := logAddEvent c e s
    let kept := makeFit c.unitCount e.units.length es
    s'.head = s.head + BitVec.ofNat w (es.flatten.length - kept.flatten.length) ∧
      Untouched c s s' kept.flatten.length ∧ Faithful s' (kept ++ [e.units]) calls
  | s, es, .dequeue now :: calls =>
    (logDequeueEvent c now s).1 = oldest now es ∧ Faithful (logDequeueEvent c now s).2 es.tail calls

/-- An add that splits its payload at the physical end leaves a unit free. The number of units that
were added before it is `added`. -/
def Careful (added : Nat) (es : List (List LogUnit)) : List Call → Prop
  | [] => True
  | .add e :: calls =>
    let kept := makeFit c.unitCount e.units.length es
    (Split c added e → kept.flatten.length + e.units.length < c.unitCount) ∧
      Careful (added + e.units.length) (kept ++ [e.units]) calls
  | .dequeue _ :: calls => Careful added es.tail calls

/-- The entries `es` are in the log from position `p` on. -/
structure Stored (s : Log w) (p : Nat) (es : List (List LogUnit)) : Prop where
  head : s.head = BitVec.ofNat w p
  holds : Holds c s.events p es.flatten
  entries : ∀ us ∈ es, IsEntry us
  fits : es.flatten.length ≤ c.unitCount

variable {c} {s : Log w} {p : Nat} {us : List LogUnit} {es : List (List LogUnit)} {e : Event}

theorem ofNat_sub_ofNat {a b : Nat} (h : b ≤ a) : BitVec.ofNat w a - BitVec.ofNat w b = BitVec.ofNat w (a - b) := by
  rw [BitVec.sub_eq_iff_eq_add, ← BitVec.ofNat_add, Nat.sub_add_cancel h]

theorem toNat_ofNat_of_le (c : Config w) {n : Nat} (h : n ≤ c.unitCount) : (BitVec.ofNat w n).toNat = n := by
  have hlt := c.unitCount_lt
  rw [BitVec.toNat_ofNat, Nat.mod_eq_of_lt (by omega)]

theorem ofNat_add_eq_iff (c : Config w) {n : Nat} (h : n ≤ c.unitCount) (p : Nat) :
    BitVec.ofNat w (p + n) = BitVec.ofNat w p ↔ n = 0 := by
  constructor
  · intro heq
    have hzero : BitVec.ofNat w (p + n) - BitVec.ofNat w p = 0#w := by rw [heq, BitVec.sub_self]
    rw [ofNat_sub_ofNat (Nat.le_add_right _ _), Nat.add_sub_cancel_left] at hzero
    rw [← toNat_ofNat_of_le c h, hzero, BitVec.toNat_zero]
  · rintro rfl
    rfl

theorem Stored.oldest_size (h : Stored c s p (us :: es)) :
    entrySize (s.events (index c s.head)).size = us.length := by
  rw [h.head, index_ofNat]
  have hfront := (holds_append.mp h.holds).1
  exact hfront.head (h.entries us List.mem_cons_self)

theorem Stored.discard (h : Stored c s p (us :: es)) : Stored c (discardOldest c s) (p + us.length) es where
  head := by
    rw [discardOldest, h.oldest_size, h.head, ← BitVec.ofNat_add]
  holds := (holds_append.mp h.holds).2
  entries := fun vs hvs => h.entries vs (List.mem_cons_of_mem _ hvs)
  fits := by
    have hfits := h.fits
    rw [List.flatten_cons, List.length_append] at hfits
    omega

/-- The loop condition is that the entries that are there and the new one are too many. -/
theorem Stored.outOfSpace_iff (h : Stored c s p es) :
    outOfSpace c (BitVec.ofNat w (p + es.flatten.length)) e s = true ↔
      c.unitCount < es.flatten.length + e.units.length := by
  have hN := c.eight_le
  have hsize := entrySize_bounds e.entry.size
  have hfits := h.fits
  unfold outOfSpace
  rw [h.head, ofNat_sub_ofNat (Nat.le_add_right _ _), Nat.add_sub_cancel_left, ofNat_sub_ofNat hfits,
    decide_eq_true_eq, BitVec.lt_def, toNat_ofNat_of_le c (Nat.sub_le _ _), toNat_ofNat_of_le c (by omega), e.length_units]
  omega

theorem IsEntry.length_pos (h : IsEntry us) : 0 < us.length := by
  obtain ⟨x, rest, rfl, -⟩ := h
  exact Nat.succ_pos _

theorem makeRoom_of_space {currentTail : BitVec w} (h : outOfSpace c currentTail e s = false) (fuel : Nat) :
    makeRoom c currentTail e fuel s = s := by
  cases fuel with
  | zero => rfl
  | succ n =>
    rw [makeRoom, h]
    rfl

theorem Stored.makeRoom (h : Stored c s p es) {fuel : Nat}
    (hfuel : es.flatten.length + e.units.length - c.unitCount ≤ fuel) :
    ∃ q, p ≤ q ∧ q + (makeFit c.unitCount e.units.length es).flatten.length = p + es.flatten.length ∧
      Stored c { s with head := BitVec.ofNat w q } q (makeFit c.unitCount e.units.length es) ∧
      makeRoom c (BitVec.ofNat w (p + es.flatten.length)) e fuel s = { s with head := BitVec.ofNat w q } := by
  have hstay : s = { s with head := BitVec.ofNat w p } := by rw [← h.head]
  have hlen : e.units.length ≤ c.unitCount := by
    have hN := c.eight_le
    have hsize := entrySize_bounds e.entry.size
    rw [e.length_units]
    omega
  induction es generalizing s p fuel with
  | nil =>
    have hspace : outOfSpace c (BitVec.ofNat w (p + ([] : List (List LogUnit)).flatten.length)) e s = false := by
      rw [← Bool.not_eq_true, h.outOfSpace_iff]
      show ¬c.unitCount < 0 + e.units.length
      omega
    rw [makeRoom_of_space hspace]
    exact ⟨p, Nat.le_refl p, rfl, hstay ▸ h, hstay⟩
  | cons us es ih =>
    rw [makeFit]
    by_cases hfull : c.unitCount < (us :: es).flatten.length + e.units.length
    · rw [if_pos hfull]
      have hpos := (h.entries us List.mem_cons_self).length_pos
      have hsum : (us :: es).flatten.length = us.length + es.flatten.length := by
        rw [List.flatten_cons, List.length_append]
      obtain ⟨fuel, rfl⟩ : ∃ n, fuel = n + 1 := Nat.exists_eq_add_of_le' (by omega)
      have hfuelRest : es.flatten.length + e.units.length - c.unitCount ≤ fuel := by omega
      obtain ⟨q, hle, hq, hstored, hroom⟩ := ih h.discard hfuelRest (by rw [← h.discard.head])
      refine ⟨q, by omega, by omega, hstored, ?_⟩
      rw [EventLog.makeRoom, h.outOfSpace_iff.mpr hfull, if_pos rfl, hsum, ← Nat.add_assoc]
      exact hroom
    · rw [if_neg hfull]
      have hspace : outOfSpace c (BitVec.ofNat w (p + (us :: es).flatten.length)) e s = false := by
        rw [← Bool.not_eq_true, h.outOfSpace_iff]
        exact hfull
      rw [makeRoom_of_space hspace]
      exact ⟨p, Nat.le_refl p, rfl, hstay ▸ h, hstay⟩

theorem makeFit_fits (N : Nat) {n : Nat} (hn : n ≤ N) (es : List (List LogUnit)) :
    (makeFit N n es).flatten.length + n ≤ N := by
  induction es with
  | nil => simpa [makeFit] using hn
  | cons us es ih =>
    rw [makeFit]
    split
    · exact ih
    · rename_i hfits
      omega

/-! ## The calls -/

/-- Between the calls the log has the entries `es`, and `added` units were added in all. -/
structure Repr (c : Config w) (s : Log w) (added : Nat) (es : List (List LogUnit)) : Prop where
  stored : ∃ p, Stored c s p es ∧ p + es.flatten.length = added
  tail : s.tail = BitVec.ofNat w added
  tailNext : s.tailNext = BitVec.ofNat w added

theorem repr_initial (c : Config w) : Repr c .initial 0 [] :=
  ⟨⟨0, ⟨rfl, rfl, by simp, Nat.zero_le _⟩, rfl⟩, rfl, rfl⟩

variable {added : Nat}

/-- An add that is careful keeps what stays, and appends the entry. -/
theorem Repr.add (h : Repr c s added es)
    (hcareful : Split c added e → (makeFit c.unitCount e.units.length es).flatten.length + e.units.length < c.unitCount) :
    (logAddEvent c e s).head =
        s.head + BitVec.ofNat w (es.flatten.length - (makeFit c.unitCount e.units.length es).flatten.length) ∧
      Untouched c s (logAddEvent c e s) (makeFit c.unitCount e.units.length es).flatten.length ∧
      Repr c (logAddEvent c e s) (added + e.units.length) (makeFit c.unitCount e.units.length es ++ [e.units]) := by
  obtain ⟨⟨p, hstored, rfl⟩, htail, hnext⟩ := h
  have hfits := hstored.fits
  have hlen := e.length_units
  have hsize := entrySize_bounds e.entry.size
  have hN := c.eight_le
  have hkept := makeFit_fits c.unitCount (n := e.units.length) (by omega) es
  -- the reservation, and the room that is made for it
  let reserved : Log w := { s with tailNext := BitVec.ofNat w (p + es.flatten.length + entrySize e.entry.size) }
  have hreserved : Stored c reserved p es := ⟨hstored.head, hstored.holds, hstored.entries, hstored.fits⟩
  obtain ⟨q, hle, hq, hroomy, hroom⟩ := @Stored.makeRoom _ _ _ _ _ e hreserved (entrySize e.entry.size) (by omega)
  generalize hes : makeFit c.unitCount e.units.length es = kept at *
  let roomy : Log w := { reserved with head := BitVec.ofNat w q }
  have hadd : logAddEvent c e s =
      { roomy with
        tail := BitVec.ofNat w (p + es.flatten.length + entrySize e.entry.size)
        events := (copyEntry c (BitVec.ofNat w (p + es.flatten.length)) e roomy).events } := by
    unfold logAddEvent reserve
    rw [hnext, ← BitVec.ofNat_add]
    show publish _ (copyEntry c _ e (makeRoom c _ e _ reserved)) = _
    rw [hroom]
    exact if_pos htail.symm
  -- the entries that stay end where the new one starts
  have hwritten : p + es.flatten.length + written c (p + es.flatten.length) e ≤ q + c.unitCount := by
    unfold written
    split
    · rename_i hsplit
      have hfree := hcareful hsplit
      omega
    · omega
  have hcopied := Holds.copyEntry (s := roomy) hroomy.holds e (.inl ⟨by omega, hwritten⟩)
  have hnew := holds_copyEntry (c := c) roomy (p + es.flatten.length) e
  rw [hadd]
  refine ⟨?_, ?_, ?_⟩
  · show BitVec.ofNat w q = _
    rw [hstored.head, ← BitVec.ofNat_add]
    congr 1
    omega
  · intro i hi
    show ringAt c.unitCount _ (BitVec.ofNat w q).toNat i = ringAt c.unitCount _ (BitVec.ofNat w q).toNat i
    rw [BitVec.toNat_ofNat, ringAt_mod c.unitCount_dvd, ringAt_mod c.unitCount_dvd]
    exact hcopied.same hroomy.holds hi
  · have hflatten : (kept ++ [e.units]).flatten = kept.flatten ++ e.units := by simp
    rw [hlen]
    refine ⟨⟨q, ⟨rfl, ?_, ?_, ?_⟩, ?_⟩, rfl, rfl⟩
    · rw [hflatten, holds_append]
      refine ⟨hcopied, ?_⟩
      rw [hq]
      exact hnew
    · intro us hus
      rw [List.mem_append, List.mem_singleton] at hus
      obtain hus | rfl := hus
      · exact hroomy.entries us hus
      · exact e.isEntry
    · rw [hflatten, List.length_append]
      exact hkept
    · rw [hflatten, List.length_append]
      omega

theorem Repr.dequeue (h : Repr c s added es) (now : BitVec 32) :
    (logDequeueEvent c now s).1 = oldest now es ∧ Repr c (logDequeueEvent c now s).2 added es.tail := by
  obtain ⟨⟨p, hstored, rfl⟩, htail, hnext⟩ := h
  have hempty : s.tail = s.head ↔ es = [] := by
    rw [htail, hstored.head, ofNat_add_eq_iff c hstored.fits]
    constructor
    · intro hlen
      cases es with
      | nil => rfl
      | cons us es =>
        have hpos := (hstored.entries us List.mem_cons_self).length_pos
        rw [List.flatten_cons, List.length_append] at hlen
        omega
    · rintro rfl
      rfl
  cases es with
  | nil =>
    have hnil := hempty.mpr rfl
    unfold logDequeueEvent
    rw [if_pos hnil]
    exact ⟨rfl, ⟨p, hstored, rfl⟩, htail, hnext⟩
  | cons us es =>
    have hne : s.tail ≠ s.head := fun heq => by cases hempty.mp heq
    have hread : readEntry c s.head s = us := by
      rw [hstored.head]
      exact readEntry_eq (holds_append.mp hstored.holds).1 (hstored.entries us List.mem_cons_self)
    unfold logDequeueEvent
    rw [if_neg hne, hread]
    refine ⟨rfl, ⟨p + us.length, hstored.discard, ?_⟩, htail, hnext⟩
    rw [List.flatten_cons, List.length_append, Nat.add_assoc]
    rfl

theorem Repr.faithful (h : Repr c s added es) {calls : List Call} (hcareful : Careful c added es calls) :
    Faithful c s es calls := by
  induction calls generalizing s added es with
  | nil => trivial
  | cons call calls ih =>
    cases call with
    | add e =>
      obtain ⟨hhead, huntouched, hrepr⟩ := h.add hcareful.1
      exact ⟨hhead, huntouched, ih hrepr hcareful.2⟩
    | dequeue now =>
      obtain ⟨hout, hrepr⟩ := h.dequeue now
      exact ⟨hout, ih hrepr hcareful⟩

/-- From the reset on, the log follows the list if no add splits its payload and fills the ring. -/
theorem fifo_integrity {calls : List Call} (h : Careful c 0 [] calls) : Faithful c .initial [] calls :=
  (repr_initial c).faithful h

/-! ## A split copy into the last free unit -/

instance (s s' : Log w) (n : Nat) : Decidable (Untouched c s s' n) := Nat.decidableBallLT n _

instance decidableFaithful : (s : Log w) → (es : List (List LogUnit)) →
    (calls : List Call) → Decidable (Faithful c s es calls)
  | _, _, [] => isTrue trivial
  | s, es, .add e :: calls =>
    have := decidableFaithful (logAddEvent c e s) (makeFit c.unitCount e.units.length es ++ [e.units]) calls
    inferInstanceAs (Decidable (_ ∧ _ ∧ _))
  | s, es, .dequeue now :: calls =>
    have := decidableFaithful (logDequeueEvent c now s).2 es.tail calls
    inferInstanceAs (Decidable (_ ∧ _))

instance decidableCareful : (added : Nat) → (es : List (List LogUnit)) →
    (calls : List Call) → Decidable (Careful c added es calls)
  | _, _, [] => isTrue trivial
  | added, es, .add e :: calls =>
    have := decidableCareful (added + e.units.length) (makeFit c.unitCount e.units.length es ++ [e.units]) calls
    inferInstanceAs (Decidable ((_ → _) ∧ _))
  | added, es, .dequeue _ :: calls => decidableCareful added es.tail calls

def defaultLog : Config 32 := ⟨6, by decide, by decide, by decide⟩

/-- An event with a payload of `size` bytes. -/
def sample (size : BitVec 8) : Event := ⟨⟨0, 1, size, 0⟩, fun _ => ⟨0, 0xaa, 0xaa, 0xaaaa⟩⟩

/-- The ring is filled up to the end, and a payload of 31 bytes goes round it. -/
def wrappingCalls (last : BitVec 8) : List Call :=
  List.replicate 20 (.add (sample 16)) ++ [.add (sample last), .add (sample 31), .dequeue 5]

theorem fifo_integrity_wrapped : Faithful defaultLog .initial [] (wrappingCalls 16) :=
  fifo_integrity (by decide +kernel)

/-- The unit too many is the first one of the oldest entry. -/
theorem overrun : ¬Faithful defaultLog .initial [] (wrappingCalls 8) := by decide +kernel

end ChromeEc.EventLog
