import ChromeEc.PdPhy.RoundTrip

/- Which streams `pd_analyze_rx` takes for a message.

  `dec4b5b` has a fifth bit for what is no data symbol, and the decoder does not look at it: it falls on
  the lowest bit of the next value of the half word, or behind the half word. So an invalid symbol
  may pass for a data symbol (`PassesFor`), and the CRC is that of the values. Where the end of
  the packet is wrong, the position is returned, as if it were a header.

  `Reads` is a stream whose half words pass for those of a message, `Clean` one that has nothing but data symbols
  and the end of the packet. What is accepted is read (`reads_of_accepted`), what is read is
  accepted (`Reads.readMessage`), and what is clean as well is a frame as `prepare_message` writes it
  (`Reads.groups`). So only frames are accepted, unless a message is disguised
  (`acceptsOnlyFrames_iff`). -/
namespace ChromeEc.PdPhy

/-! ## Half words -/

def groupOf (w : BitVec 32) (i : Nat) : BitVec 5 := (w >>> (5 * i)).setWidth 5

def groupsOf (w : BitVec 32) : List (BitVec 5) := [groupOf w 0, groupOf w 1, groupOf w 2, groupOf w 3]

def nibble (v : BitVec 16) (i : Nat) : BitVec 4 := (v >>> (4 * i)).setWidth 4

def dec (x : BitVec 5) : BitVec 16 := dec4b5b.getD x.toNat 0

/-- The fifth bit, on the place where it falls. -/
def spill (x : BitVec 5) : BitVec 4 := if x ∈ groups then 0 else 1

/-- The four groups are read as this half word. -/
structure PassesFor (w : BitVec 32) (v : BitVec 16) : Prop where
  first : (dec (groupOf w 0)).setWidth 4 = nibble v 0
  next : ∀ i < 3, (dec (groupOf w (i + 1))).setWidth 4 ||| spill (groupOf w i) = nibble v (i + 1)

/-- The half word that decode_short makes of 20 bits. -/
def shortOf (w : BitVec 32) : BitVec 16 :=
  decodeGroup w 0 ||| decodeGroup w 5 <<< 4 ||| decodeGroup w 10 <<< 8 ||| decodeGroup w 15 <<< 12

section

variable {w : BitVec 32} {v v' : BitVec 16}

theorem dec_above : ∀ x : BitVec 5, (dec x >>> 4).setWidth 4 = spill x ∧ (dec x >>> 8).setWidth 4 = (0 : BitVec 4) ∧
    (dec x >>> 12).setWidth 4 = (0 : BitVec 4) := by
  decide

theorem eq_of_nibbles (h : ∀ i < 4, nibble v i = nibble v' i) : v = v' := by
  apply BitVec.eq_of_getLsbD_eq
  intro j hj
  have hbit := congrArg (BitVec.getLsbD · (j % 4)) (h (j / 4) (by omega))
  simp only [nibble, BitVec.getLsbD_setWidth, BitVec.getLsbD_ushiftRight] at hbit
  rwa [decide_eq_true (by omega), Bool.true_and, Bool.true_and, Nat.div_add_mod] at hbit

/-- The values of a half word, where each of the four parts may be longer than its place. -/
theorem nibble_or (d₀ d₁ d₂ d₃ : BitVec 16) (v : BitVec 16)
    (hv : v = d₀ ||| d₁ <<< 4 ||| d₂ <<< 8 ||| d₃ <<< 12) :
    nibble v 0 = d₀.setWidth 4 ∧ nibble v 1 = d₁.setWidth 4 ||| (d₀ >>> 4).setWidth 4 ∧
    nibble v 2 = d₂.setWidth 4 ||| (d₁ >>> 4).setWidth 4 ||| (d₀ >>> 8).setWidth 4 ∧
    nibble v 3 = d₃.setWidth 4 ||| (d₂ >>> 4).setWidth 4 ||| (d₁ >>> 8).setWidth 4 ||| (d₀ >>> 12).setWidth 4 := by
  subst hv
  refine ⟨?_, ?_, ?_, ?_⟩ <;>
    · apply BitVec.eq_of_getLsbD_eq
      intro i hi
      interval_cases i <;> simp [nibble, Bool.or_comm, Bool.or_assoc]

theorem decodeGroup_eq (w : BitVec 32) (i : Nat) : decodeGroup w (5 * i) = dec (groupOf w i) := by
  have hmask : ((w >>> (5 * i)) &&& 0x1f).toNat = (groupOf w i).toNat := by
    rw [groupOf, BitVec.toNat_and, BitVec.toNat_setWidth]
    exact Nat.and_two_pow_sub_one_eq_mod _ 5
  rw [decodeGroup, hmask, dec]

theorem shortOf_eq (w : BitVec 32) : shortOf w =
    dec (groupOf w 0) ||| dec (groupOf w 1) <<< 4 ||| dec (groupOf w 2) <<< 8 ||| dec (groupOf w 3) <<< 12 := by
  simp only [← decodeGroup_eq]
  rfl

theorem nibble_shortOf (w : BitVec 32) : nibble (shortOf w) 0 = (dec (groupOf w 0)).setWidth 4 ∧
    ∀ i < 3, nibble (shortOf w) (i + 1) = (dec (groupOf w (i + 1))).setWidth 4 ||| spill (groupOf w i) := by
  obtain ⟨h₀, h₁, h₂, h₃⟩ := nibble_or _ _ _ _ _ (shortOf_eq w)
  simp only [(dec_above _).1, (dec_above _).2.1, (dec_above _).2.2] at h₁ h₂ h₃
  refine ⟨h₀, ?_⟩
  intro i hi
  match i with
  | 0 => exact h₁
  | 1 => exact h₂.trans BitVec.or_zero
  | 2 => exact h₃.trans (BitVec.or_zero.trans BitVec.or_zero)

theorem passesFor_iff : PassesFor w v ↔ shortOf w = v := by
  obtain ⟨hfirst, hnext⟩ := nibble_shortOf w
  constructor
  · rintro ⟨h₀, h⟩
    refine eq_of_nibbles fun i hi => ?_
    cases i with
    | zero => rw [hfirst, h₀]
    | succ i => rw [hnext i (by omega), h i (by omega)]
  · rintro rfl
    exact ⟨hfirst.symm, fun i hi => (hnext i hi).symm⟩

theorem eq_group {x : BitVec 5} (hx : x ∈ groups) {i : Nat} (hvalue : (dec x).setWidth 4 = nibble v i) :
    x = group v (4 * i) := by
  have htable : ∀ x : BitVec 5, x ∈ groups → groups.getD ((dec x).setWidth 4).toNat 0 = x := by decide
  have hmask : ((v >>> (4 * i)) &&& 0xF).toNat = (nibble v i).toNat := by
    rw [nibble, BitVec.toNat_and, BitVec.toNat_setWidth]
    exact Nat.and_two_pow_sub_one_eq_mod _ 4
  rw [group, hmask, ← hvalue, htable x hx]

theorem PassesFor.groups_eq (h : PassesFor w v) (hdata : ∀ x ∈ groupsOf w, x ∈ groups) : groupsOf w = shortGroups v := by
  have hmem : ∀ i < 4, groupOf w i ∈ groups := by
    intro i hi
    refine hdata _ ?_
    interval_cases i <;> simp [groupsOf]
  have hnext : ∀ i < 3, (dec (groupOf w (i + 1))).setWidth 4 = nibble v (i + 1) := by
    intro i hi
    have hvalue := h.next i hi
    rw [spill, if_pos (hmem i (by omega))] at hvalue
    exact BitVec.or_zero.symm.trans hvalue
  rw [groupsOf, shortGroups, eq_group (hmem 0 (by decide)) h.first, eq_group (hmem 1 (by decide)) (hnext 0 (by decide)),
    eq_group (hmem 2 (by decide)) (hnext 1 (by decide)), eq_group (hmem 3 (by decide)) (hnext 2 (by decide))]

theorem shortOf_own (h : groupsOf w = shortGroups v) : shortOf w = v := by
  simp only [groupsOf, shortGroups, List.cons.injEq, and_true] at h
  obtain ⟨h₀, h₁, h₂, h₃⟩ := h
  rw [shortOf_eq, h₀, h₁, h₂, h₃]
  simp only [dec, dec4b5b_group]
  exact nibbles_eq v

end

/-! ## Streams -/

/-- The answers of pd_dequeue_bits: a position behind the preamble, with the bits, or -1. Where it is called with -1, it
may go on. -/
structure Chip.Answers (c : Chip) : Prop where
  preamble : ∀ rx, (c.pdFindPreamble rx).1 ≠ 0
  bits : ∀ rx off n, off = -1 ∨ 0 < off → 4 ≤ n →
    (c.pdDequeueBits rx off n).1 = -1 ∨ ∃ off' w rx', 0 < off' ∧ c.pdDequeueBits rx off n = (off', some w, rx')

section

variable (c : Chip) (b : Build)

/-- What the next call for 20 bits reads, if it reads anything. -/
def portion (inp : In c) : Option (BitVec 32) := (c.pdDequeueBits inp.2 inp.1 20).2.1

def value (inp : In c) : BitVec 32 := (portion c inp).getD c.w

def next (inp : In c) : In c := ((c.pdDequeueBits inp.2 inp.1 20).1, (c.pdDequeueBits inp.2 inp.1 20).2.2)

def after : Nat → In c → In c
  | 0, inp => inp
  | n + 1, inp => after n (next c inp)

/-- The groups of `n` portions. -/
def receivedGroups : Nat → In c → List (BitVec 5)
  | 0, _ => []
  | n + 1, inp => (portion c inp).elim [] groupsOf ++ receivedGroups n (next c inp)

def Passes : List (BitVec 16) → In c → Prop
  | [], _ => True
  | v :: vs, inp => PassesFor (value c inp) v ∧ Passes vs (next c inp)

/-- The portions have been received, and have nothing but data symbols. -/
def DataSymbols : Nat → In c → Prop
  | 0, _ => True
  | n + 1, inp => (∃ w, portion c inp = some w ∧ ∀ x ∈ groupsOf w, x ∈ groups) ∧ DataSymbols n (next c inp)

def eopBits (inp : In c) : Option (BitVec 32) := (c.pdDequeueBits inp.2 inp.1 4).2.1

def eopPosition (inp : In c) : Int := (c.pdDequeueBits inp.2 inp.1 4).1

/-- The stream has a start of a packet that the receiver takes, and no other one before it. -/
inductive Started : In c → Sop → In c → Prop
  | here {inp : In c} {s : Sop} : 0 < inp.1 → portion c inp = some s.pattern → b.takes s = true → 0 < (next c inp).1 →
    Started inp s (next c inp)
  | skip {inp inp' : In c} {s : Sop} {w : BitVec 32} : 0 < inp.1 → portion c inp = some w → sopOf w = none →
    Started (next c inp) s inp' → Started inp s inp'

end

def wordShorts (v : BitVec 32) : List (BitVec 16) := [v.setWidth 16, (v >>> 16).setWidth 16]

def payloadShorts (data : Nat → BitVec 32) : Nat → Nat → List (BitVec 16)
  | 0, _ => []
  | n + 1, i => wordShorts (data i) ++ payloadShorts data n (i + 1)

def messageShorts (header : BitVec 16) (data : Nat → BitVec 32) : List (BitVec 16) :=
  header :: (payloadShorts data (pdHeaderCnt header) 0 ++ wordShorts (messageCrc header (pdHeaderCnt header) data))

/-- How many portions a message has behind its start. -/
def portions (header : BitVec 16) : Nat := 2 * pdHeaderCnt header + 3

/-- The stream is read as this message: it goes on behind the header, behind each word and behind the CRC. -/
structure Reads (c : Chip) (inp : In c) (header : BitVec 16) (data : Nat → BitVec 32) : Prop where
  passes : Passes c (messageShorts header data) inp
  more : ∀ p ≤ pdHeaderCnt header, 0 < (after c (2 * p + 1) inp).1
  crc : 0 < (after c (portions header) inp).1
  eop : 0 < eopPosition c (after c (portions header) inp)

/-- Data symbols, and the end of the packet behind them. -/
structure Clean (c : Chip) (n : Nat) (inp : In c) : Prop where
  symbols : DataSymbols c n inp
  eop : eopBits c (after c n inp) = some (pdEop.setWidth 32)

/-! ## What is read -/

section

variable {c : Chip} {b : Build} {inp : In c}

theorem after_succ (n : Nat) (inp : In c) : after c (n + 1) inp = next c (after c n inp) := by
  induction n generalizing inp with
  | zero => rfl
  | succ n ih => exact ih (next c inp)

theorem after_add (n k : Nat) (inp : In c) : after c (n + k) inp = after c k (after c n inp) := by
  induction k with
  | zero => rfl
  | succ k ih => rw [← Nat.add_assoc, after_succ, ih, after_succ]

theorem decodeShort_eq (inp : In c) : decodeShort c inp = (shortOf (value c inp), next c inp) := rfl

def wordAt (c : Chip) (inp : In c) : BitVec 32 := shortOf (value c (next c inp)) ++ shortOf (value c inp)

theorem decodeWord_eq (inp : In c) : decodeWord c inp = (wordAt c inp, after c 2 inp) := rfl

theorem wordShorts_append (hi lo : BitVec 16) : wordShorts (hi ++ lo) = [lo, hi] := by
  have hlo : (hi ++ lo).setWidth 16 = lo := by
    apply BitVec.eq_of_getLsbD_eq
    intro i hi'
    rw [BitVec.getLsbD_setWidth, BitVec.getLsbD_append, decide_eq_true hi', Bool.true_and, if_pos hi']
  have hhi : ((hi ++ lo) >>> 16).setWidth 16 = hi := by
    apply BitVec.eq_of_getLsbD_eq
    intro i hi'
    rw [BitVec.getLsbD_setWidth, BitVec.getLsbD_ushiftRight, BitVec.getLsbD_append, decide_eq_true hi', Bool.true_and]
    rw [if_neg (by omega), Nat.add_sub_cancel_left]
  rw [wordShorts, hlo, hhi]

theorem passes_append (vs vs' : List (BitVec 16)) (inp : In c) :
    Passes c (vs ++ vs') inp ↔ Passes c vs inp ∧ Passes c vs' (after c vs.length inp) := by
  induction vs generalizing inp with
  | nil => exact ⟨fun h => ⟨trivial, h⟩, And.right⟩
  | cons v vs ih =>
    rw [List.cons_append, Passes, Passes, ih, and_assoc]
    rfl

theorem passes_word (v : BitVec 32) (inp : In c) : Passes c (wordShorts v) inp ↔ wordAt c inp = v := by
  have hpasses : Passes c (wordShorts v) inp ↔
      shortOf (value c inp) = v.setWidth 16 ∧ shortOf (value c (next c inp)) = (v >>> 16).setWidth 16 := by
    simp only [wordShorts, Passes, passesFor_iff, and_true]
  rw [hpasses]
  constructor
  · rintro ⟨hlo, hhi⟩
    rw [wordAt, hlo, hhi, halves_eq]
  · rintro rfl
    have hhalves := wordShorts_append (shortOf (value c (next c inp))) (shortOf (value c inp))
    rw [wordShorts, List.cons.injEq, List.cons.injEq] at hhalves
    exact ⟨hhalves.1.symm, hhalves.2.1.symm⟩

theorem length_payloadShorts (data : Nat → BitVec 32) (n i : Nat) : (payloadShorts data n i).length = 2 * n := by
  induction n generalizing i with
  | zero => rfl
  | succ n ih =>
    rw [payloadShorts, List.length_append, ih]
    exact Nat.add_comm 2 (2 * n)

theorem readPayload_eq {data : Nat → BitVec 32} {n p : Nat} (hpasses : Passes c (payloadShorts data n p) inp)
    (hmore : ∀ q < n, 0 < (after c (2 * q) inp).1) (crc : BitVec 32) (payload : Nat → BitVec 32) :
    readPayload c n p crc payload inp =
      (payloadCrc data n p crc, fun i => if p ≤ i ∧ i < p + n then data i else payload i, after c (2 * n) inp) := by
  induction n generalizing p inp crc payload with
  | zero =>
    rw [stored_zero]
    rfl
  | succ n ih =>
    obtain ⟨hword, hrest⟩ := (passes_append _ _ inp).mp hpasses
    have hrest' : Passes c (payloadShorts data n (p + 1)) (after c 2 inp) := hrest
    have hvalue : wordAt c inp = data p := (passes_word (data p) inp).mp hword
    have hmore' : ∀ q < n, 0 < (after c (2 * q) (after c 2 inp)).1 := by
      intro q hq
      rw [← after_add, show 2 + 2 * q = 2 * (q + 1) by omega]
      exact hmore (q + 1) (by omega)
    -- the word is stored at p, and the loop goes on two portions later
    have hloop := ih hrest' hmore' (crc32Hash32 crc (data p)) fun i => if i = p then data p else payload i
    have hpos : 0 < inp.1 := hmore 0 (Nat.succ_pos n)
    rw [PdPhy.readPayload, if_pos hpos, decodeWord_eq]
    simp only [hvalue]
    rw [hloop, ← after_add, show 2 + 2 * n = 2 * (n + 1) by omega, payloadCrc, stored_succ]

theorem passes_payload {data : Nat → BitVec 32} {n p : Nat} (h : ∀ q < n, data (p + q) = wordAt c (after c (2 * q) inp)) :
    Passes c (payloadShorts data n p) inp := by
  induction n generalizing p inp with
  | zero => trivial
  | succ n ih =>
    have hword : wordAt c inp = data p := (h 0 (Nat.succ_pos n)).symm
    refine (passes_append _ _ inp).mpr ⟨(passes_word (data p) inp).mpr hword, ih ?_⟩
    intro q hq
    have hlater := h (q + 1) (by omega)
    rwa [show p + (q + 1) = p + 1 + q by omega, show 2 * (q + 1) = 2 + 2 * q by omega, after_add] at hlater

/-- A loop that does not run out of bits has bits behind each word. -/
theorem readPayload_more {n p : Nat} {crc : BitVec 32} {payload : Nat → BitVec 32}
    (h : 0 < (readPayload c n p crc payload inp).2.2.1) : ∀ q ≤ n, 0 < (after c (2 * q) inp).1 := by
  induction n generalizing p inp crc payload with
  | zero =>
    intro q hq
    obtain rfl : q = 0 := Nat.le_zero.mp hq
    exact h
  | succ n ih =>
    rw [PdPhy.readPayload] at h
    by_cases hpos : 0 < inp.1
    · rw [if_pos hpos, decodeWord_eq] at h
      intro q hq
      cases q with
      | zero => exact hpos
      | succ q =>
        rw [show 2 * (q + 1) = 2 + 2 * q by omega, after_add]
        exact ih h q (Nat.le_of_succ_le_succ hq)
    · rw [if_neg hpos] at h
      exact absurd h hpos

/-! ### Positions -/

/-- Behind the preamble, or -1. -/
def Position (inp : In c) : Prop := inp.1 = -1 ∨ 0 < inp.1

theorem Chip.Answers.position_next (hc : c.Answers) (h : Position inp) : Position (next c inp) := by
  rcases hc.bits inp.2 inp.1 20 h (by decide) with hend | ⟨off', w, rx', hpos, hbits⟩
  · exact .inl hend
  · refine .inr ?_
    rw [next, hbits]
    exact hpos

theorem Chip.Answers.position_after (hc : c.Answers) (h : Position inp) (n : Nat) : Position (after c n inp) := by
  induction n generalizing inp with
  | zero => exact h
  | succ n ih => exact ih (hc.position_next h)

theorem Position.pos (h : Position inp) (hneg : ¬inp.1 < 0) : 0 < inp.1 := by
  rcases h with hend | hpos
  · omega
  · exact hpos

theorem Chip.Answers.position_readPayload (hc : c.Answers) (h : Position inp) (n p : Nat) (crc : BitVec 32)
    (payload : Nat → BitVec 32) :
    Position (readPayload c n p crc payload inp).2.2 := by
  induction n generalizing p inp crc payload with
  | zero => exact h
  | succ n ih =>
    rw [readPayload]
    split
    · rw [decodeWord_eq]
      exact ih (hc.position_after h 2) _ _ _
    · exact h

/-! ### The trailer -/

theorem readTrailer_eq (hc : c.Answers) {ccrc : BitVec 32} (head : BitVec 32) (hword : wordAt c inp = ccrc)
    (hcrc : 0 < (after c 2 inp).1) (heop : 0 < eopPosition c (after c 2 inp)) :
    readTrailer c ccrc head inp =
      if eopBits c (after c 2 inp) = some (pdEop.setWidth 32) then head.toInt else eopPosition c (after c 2 inp) := by
  obtain ⟨off', w, rx', hpos, hbits⟩ : ∃ off' w rx', 0 < off' ∧
      c.pdDequeueBits (after c 2 inp).2 (after c 2 inp).1 4 = (off', some w, rx') := by
    refine (hc.bits _ _ 4 (.inr hcrc) (by decide)).resolve_left fun hend => ?_
    rw [eopPosition, hend] at heop
    exact absurd heop (by decide)
  have hright : ¬((after c 2 inp).1 < 0 ∨ ccrc ≠ ccrc) := by
    rintro (hneg | hne)
    · omega
    · exact hne rfl
  rw [readTrailer, decodeWord_eq]
  dsimp only
  rw [hword, if_neg hright]
  simp only [dequeueBits, eopBits, eopPosition, hbits, Option.getD_some, Option.some.injEq]
  by_cases hend : w = pdEop.setWidth 32
  · have hgood : ¬(off' < 0 ∨ w ≠ pdEop.setWidth 32) := by
      rintro (hneg | hne)
      · omega
      · exact hne hend
    rw [if_neg hgood, if_pos hend]
  · rw [if_pos (.inr hend), if_neg hend]

theorem readTrailer_nonneg (hc : c.Answers) (h : Position inp) {ccrc head : BitVec 32}
    (hresult : 0 ≤ readTrailer c ccrc head inp) :
    wordAt c inp = ccrc ∧ 0 < (after c 2 inp).1 ∧ 0 < eopPosition c (after c 2 inp) := by
  rw [readTrailer, decodeWord_eq] at hresult
  dsimp only at hresult
  have hafter := hc.position_after h 2
  -- a wrong CRC is an error before the end of the packet is looked for
  by_cases hcrc : wordAt c inp = ccrc
  · by_cases hneg : (after c 2 inp).1 < 0
    · rw [if_pos (.inl hneg), if_neg (not_not.mpr hcrc)] at hresult
      omega
    · have hpos := hafter.pos hneg
      rw [if_neg (fun hbad => hbad.elim hneg (fun hne => hne hcrc))] at hresult
      refine ⟨hcrc, hpos, ?_⟩
      rcases hc.bits (after c 2 inp).2 (after c 2 inp).1 4 hafter (by decide) with hend | ⟨off', w, rx', hpos', hbits⟩
      · rw [dequeueBits] at hresult
        dsimp only at hresult
        rw [hend, if_pos (.inl (by decide))] at hresult
        exact absurd hresult (by decide)
      · rw [eopPosition, hbits]
        exact hpos'
  · rw [if_pos (.inr hcrc), if_pos hcrc] at hresult
    exact absurd hresult (by decide)

/-! ### Messages -/

theorem length_messageShorts (header : BitVec 16) (data : Nat → BitVec 32) :
    (messageShorts header data).length = portions header := by
  rw [messageShorts, List.length_cons, List.length_append, length_payloadShorts]
  rfl

theorem after_portions (header : BitVec 16) (inp : In c) :
    after c (portions header) inp = after c 2 (after c (2 * pdHeaderCnt header) (after c 1 inp)) :=
  after_add (2 * pdHeaderCnt header + 1) 2 inp

theorem passes_message {header : BitVec 16} {data : Nat → BitVec 32} :
    Passes c (messageShorts header data) inp ↔
      PassesFor (value c inp) header ∧ Passes c (payloadShorts data (pdHeaderCnt header) 0) (after c 1 inp) ∧
        wordAt c (after c (2 * pdHeaderCnt header) (after c 1 inp)) = messageCrc header (pdHeaderCnt header) data := by
  rw [messageShorts, Passes, passes_append, length_payloadShorts, passes_word]
  rfl

/-- What is read is accepted, as the message or as a position. -/
theorem Reads.readMessage {header : BitVec 16} {data : Nat → BitVec 32} (h : Reads c inp header data)
    (hc : c.Answers) (s : Sop)
    (payload : Nat → BitVec 32) :
    readMessage c b s.pattern payload inp =
      (if eopBits c (after c (portions header) inp) = some (pdEop.setWidth 32) then (receivedHead b s header).toInt
        else eopPosition c (after c (portions header) inp),
      fun i => if i < pdHeaderCnt header then data i else payload i) := by
  obtain ⟨hheader, hpayload, hcrc⟩ := passes_message.mp h.passes
  have hmore : ∀ q < pdHeaderCnt header, 0 < (after c (2 * q) (after c 1 inp)).1 := fun q hq => h.more q (Nat.le_of_lt hq)
  have hloop := readPayload_eq hpayload hmore (crc32Hash16 crc32Initial header) payload
  have hcrcBits := h.crc
  have heopBits := h.eop
  rw [after_portions] at hcrcBits heopBits ⊢
  have htrailer := readTrailer_eq hc (receivedHead b s header) hcrc hcrcBits heopBits
  have hpos : 0 < (after c (2 * pdHeaderCnt header) (after c 1 inp)).1 := h.more _ (Nat.le_refl _)
  rw [PdPhy.readMessage, decodeShort_eq]
  dsimp only
  rw [passesFor_iff.mp hheader, messageHead_pattern]
  dsimp only
  rw [show next c inp = after c 1 inp from rfl, hloop]
  dsimp only
  rw [if_neg (by omega), ← messageCrc]
  simp only [Nat.zero_le, true_and, Nat.zero_add]
  exact congrArg (·, fun i => if i < pdHeaderCnt header then data i else payload i) htrailer

/-- What is accepted is read as the message that is returned. -/
theorem reads_of_accepted (hc : c.Answers) (hstart : 0 < inp.1) {s : Sop} {payload : Nat → BitVec 32}
    (h : 0 ≤ (readMessage c b s.pattern payload inp).1) :
    Reads c inp (shortOf (value c inp)) (readMessage c b s.pattern payload inp).2 := by
  obtain ⟨header, hheader⟩ : ∃ header, shortOf (value c inp) = header := ⟨_, rfl⟩
  obtain ⟨data, hdata⟩ : ∃ data : Nat → BitVec 32, data = fun i =>
      if i < pdHeaderCnt header then wordAt c (after c (2 * i) (after c 1 inp)) else payload i := ⟨_, rfl⟩
  have hposition : Position (after c 1 inp) := hc.position_after (.inr hstart) 1
  have hpayload : Passes c (payloadShorts data (pdHeaderCnt header) 0) (after c 1 inp) := by
    refine passes_payload fun q hq => ?_
    rw [hdata, Nat.zero_add]
    exact if_pos hq
  -- the array that is returned is `data`
  have hstored : (fun i => if 0 ≤ i ∧ i < 0 + pdHeaderCnt header then data i else payload i) = data := by
    funext i
    simp only [hdata, Nat.zero_le, true_and, Nat.zero_add]
    split <;> rfl
  rw [PdPhy.readMessage, decodeShort_eq] at h ⊢
  dsimp only at h ⊢
  rw [hheader, messageHead_pattern] at h ⊢
  dsimp only at h ⊢
  rw [show next c inp = after c 1 inp from rfl] at h ⊢
  have hpos : 0 < (readPayload c (pdHeaderCnt header) 0 (crc32Hash16 crc32Initial header)
      payload (after c 1 inp)).2.2.1 := by
    refine (hc.position_readPayload hposition _ _ _ _).pos fun hneg => ?_
    rw [if_pos hneg] at h
    exact absurd h (Int.not_le.mpr hneg)
  have hmore := readPayload_more hpos
  have hloop := readPayload_eq hpayload (fun q hq => hmore q (Nat.le_of_lt hq)) (crc32Hash16 crc32Initial header) payload
  rw [hloop, hstored] at h ⊢
  dsimp only at h ⊢
  rw [if_neg (Int.not_lt.mpr (Int.le_of_lt (hmore _ (Nat.le_refl _))))] at h ⊢
  obtain ⟨hcrc, hcrcBits, heopBits⟩ := readTrailer_nonneg hc (.inr (hmore _ (Nat.le_refl _))) h
  refine ⟨passes_message.mpr ⟨passesFor_iff.mpr hheader, hpayload, hcrc⟩, hmore, ?_, ?_⟩
  · rwa [after_portions]
  · rwa [after_portions]

/-! ### The start -/

theorem eq_pattern {w : BitVec 32} {s : Sop} (h : sopOf w = some s) : w = s.pattern := by
  unfold sopOf at h
  split at h
  · next hw => rw [hw, ← Option.some.inj h]
  · split at h
    · next hw => rw [hw, ← Option.some.inj h]
    · split at h
      · next hw => rw [hw, ← Option.some.inj h]
      · cases h

theorem Chip.Answers.dequeue (hc : c.Answers) (hpos : 0 < inp.1) (hmore : ¬(next c inp).1 < 0) :
    0 < (next c inp).1 ∧ ∃ w, portion c inp = some w ∧ ∀ val, dequeueBits c 20 val inp = (w, next c inp) := by
  rcases hc.bits inp.2 inp.1 20 (.inr hpos) (by decide) with hend | ⟨off', w, rx', hpos', hbits⟩
  · refine absurd ?_ hmore
    rw [next, hend]
    decide
  · simp only [portion, next, dequeueBits, hbits]
    exact ⟨hpos', w, rfl, fun _ => rfl⟩

theorem Started.findSop {inp' : In c} {s : Sop} (h : Started c b inp s inp') :
    ∃ fuel, ∀ val, findSop c b fuel val inp = some (.ended s.pattern inp') := by
  induction h with
  | @here inp s hpos hbits htakes _ =>
    refine ⟨1, fun val => ?_⟩
    have hread : dequeueBits c 20 val inp = (s.pattern, next c inp) := by
      show ((portion c inp).getD val, next c inp) = _
      rw [hbits, Option.getD_some]
    rw [PdPhy.findSop, if_pos hpos, hread]
    simp only [sopOf_pattern, htakes, if_true]
  | @skip inp inp' s w hpos hbits hnone _ ih =>
    obtain ⟨fuel, hfuel⟩ := ih
    refine ⟨fuel + 1, fun val => ?_⟩
    have hread : dequeueBits c 20 val inp = (w, next c inp) := by
      show ((portion c inp).getD val, next c inp) = _
      rw [hbits, Option.getD_some]
    rw [PdPhy.findSop, if_pos hpos, hread]
    simp only [hnone, hfuel]

theorem started_of_findSop (hc : c.Answers) {fuel : Nat} {val val' : BitVec 32} {inp' : In c} (hpos : 0 < inp.1)
    (h : findSop c b fuel val inp = some (.ended val' inp')) (hmore : ¬inp'.1 < 0) :
    ∃ s, val' = s.pattern ∧ Started c b inp s inp' := by
  induction fuel generalizing inp val with
  | zero => cases h
  | succ fuel ih =>
    rw [findSop, if_pos hpos] at h
    by_cases hneg : (next c inp).1 < 0
    · -- the bits have run out: whatever is in the variable, the position is negative in the end
      obtain ⟨w, hread⟩ : ∃ w, dequeueBits c 20 val inp = (w, next c inp) := ⟨_, rfl⟩
      rw [hread] at h
      dsimp only at h
      split at h
      · split at h
        · cases h
          exact absurd hneg hmore
        · cases h
      · cases fuel with
        | zero => cases h
        | succ fuel =>
          rw [findSop, if_neg (by omega)] at h
          cases h
          exact absurd hneg hmore
    · obtain ⟨hpos', w, hbits, hread⟩ := hc.dequeue hpos hneg
      rw [hread] at h
      dsimp only at h
      cases hsop : sopOf w with
      | none =>
        rw [hsop] at h
        obtain ⟨s, hs, hstarted⟩ := ih hpos' h
        exact ⟨s, hs, .skip hpos hbits hsop hstarted⟩
      | some s =>
        rw [hsop] at h
        dsimp only at h
        by_cases htakes : b.takes s = true
        · rw [if_pos htakes] at h
          cases h
          have hw := eq_pattern hsop
          rw [hw] at hbits
          exact ⟨s, hw, .here hpos hbits htakes hpos'⟩
        · rw [if_neg htakes] at h
          cases h

theorem Started.pos {inp' : In c} {s : Sop} (h : Started c b inp s inp') : 0 < inp.1 ∧ 0 < inp'.1 := by
  induction h with
  | here hpos _ _ hpos' => exact ⟨hpos, hpos'⟩
  | skip hpos _ _ _ ih => exact ⟨hpos, ih.2⟩

/-! ## Frames -/

/-- What is received passes for these half words, and has data symbols only: it is what would be sent for them. -/
theorem receivedGroups_eq {vs : List (BitVec 16)} (hpasses : Passes c vs inp) (hdata : DataSymbols c vs.length inp) :
    receivedGroups c vs.length inp = vs.flatMap shortGroups := by
  induction vs generalizing inp with
  | nil => rfl
  | cons v vs ih =>
    obtain ⟨hfirst, hrest⟩ := hpasses
    obtain ⟨⟨w, hw, hgroups⟩, hdata'⟩ := hdata
    rw [value, hw, Option.getD_some] at hfirst
    rw [List.length_cons, receivedGroups, ih hrest hdata', hw, List.flatMap_cons,
      Option.elim_some, hfirst.groups_eq hgroups]

theorem flatMap_payloadShorts (data : Nat → BitVec 32) (n i : Nat) :
    (payloadShorts data n i).flatMap shortGroups = payloadGroups data n i := by
  induction n generalizing i with
  | zero => rfl
  | succ n ih =>
    rw [payloadShorts, List.flatMap_append, ih]
    rfl

/-- The groups of a message that is read from data symbols. -/
theorem Reads.groups {header : BitVec 16} {data : Nat → BitVec 32} (h : Reads c inp header data)
    (hdata : DataSymbols c (portions header) inp) (s : Sop) :
    frame s header (pdHeaderCnt header) data = sopGroups s ++ (receivedGroups c (portions header) inp ++ [pdEop]) := by
  rw [← length_messageShorts header data] at hdata ⊢
  rw [receivedGroups_eq h.passes hdata, messageShorts, List.flatMap_cons,
    List.flatMap_append, flatMap_payloadShorts, frame]
  simp only [List.append_assoc]
  rfl

end

/-- A message behind a start: there are data symbols and the end of the packet, and together they are what
`prepare_message` writes for the header and the payload that are returned. -/
structure IsFrame (c : Chip) (b : Build) (rx : c.Rx) (r : Int) (payload : Nat → BitVec 32) (s : Sop) (inp : In c)
    (header : BitVec 16) : Prop where
  started : Started c b (c.pdFindPreamble (c.pdInitDequeue rx)) s inp
  head : r = (receivedHead b s header).toInt
  clean : Clean c (portions header) inp
  written : frame s header (pdHeaderCnt header) payload =
    sopGroups s ++ (receivedGroups c (portions header) inp ++ [pdEop])

def AcceptsOnlyFrames (c : Chip) (b : Build) (rx : c.Rx) (payload : Nat → BitVec 32) : Prop :=
  ∀ fuel r payload', pdAnalyzeRx c b fuel rx payload = some (r, payload') → 0 ≤ r →
    ∃ s inp header, IsFrame c b rx r payload' s inp header

/-- Behind the start is what passes for a message, with a symbol that is no data symbol or without the end of the
packet. -/
def Disguised (c : Chip) (b : Build) (rx : c.Rx) : Prop :=
  ∃ s inp header data, Started c b (c.pdFindPreamble (c.pdInitDequeue rx)) s inp ∧ Reads c inp header data ∧
    ¬Clean c (portions header) inp

section

variable {c : Chip} {b : Build} {rx : c.Rx} {payload : Nat → BitVec 32}

theorem Started.analyze {s : Sop} {inp : In c} (h : Started c b (c.pdFindPreamble (c.pdInitDequeue rx)) s inp)
    (payload : Nat → BitVec 32) :
    ∃ fuel, pdAnalyzeRx c b fuel rx payload = some (readMessage c b s.pattern payload inp) := by
  obtain ⟨fuel, hfuel⟩ := h.findSop
  obtain ⟨hpos, hpos'⟩ := h.pos
  have hnoReset : ¬((c.pdFindPreamble (c.pdInitDequeue rx)).1 = pdRxErrHardReset ∨
      (c.pdFindPreamble (c.pdInitDequeue rx)).1 = pdRxErrCableReset) := by
    rintro (hreset | hreset) <;> exact absurd (hreset ▸ hpos) (by decide)
  refine ⟨fuel, ?_⟩
  rw [pdAnalyzeRx, if_neg hnoReset, if_neg (by omega), hfuel]
  exact if_neg (by omega)

/-- A result that is no error is that of a message behind a start. -/
theorem analyze_cases (hc : c.Answers) {fuel : Nat} {r : Int} {payload' : Nat → BitVec 32}
    (h : pdAnalyzeRx c b fuel rx payload = some (r, payload')) (hr : 0 ≤ r) :
    ∃ s inp, Started c b (c.pdFindPreamble (c.pdInitDequeue rx)) s inp ∧
      readMessage c b s.pattern payload inp = (r, payload') := by
  rw [pdAnalyzeRx] at h
  split at h
  · next hreset =>
    obtain ⟨rfl, -⟩ := Prod.mk.inj (Option.some.inj h)
    rcases hreset with hreset | hreset <;> exact absurd (hreset ▸ hr) (by decide)
  · split at h
    · next hneg =>
      obtain ⟨rfl, -⟩ := Prod.mk.inj (Option.some.inj h)
      omega
    · next hpreamble =>
      have hstart : 0 < (c.pdFindPreamble (c.pdInitDequeue rx)).1 := by
        have hne := hc.preamble (c.pdInitDequeue rx)
        omega
      split at h
      · cases h
      · obtain ⟨rfl, -⟩ := Prod.mk.inj (Option.some.inj h)
        exact absurd hr (by decide)
      · next hsearch =>
        split at h
        · next hneg =>
          obtain ⟨rfl, -⟩ := Prod.mk.inj (Option.some.inj h)
          omega
        · next hmore =>
          obtain ⟨s, rfl, hstarted⟩ := started_of_findSop hc hstart hsearch hmore
          exact ⟨s, _, hstarted, Option.some.inj h⟩

theorem Started.unique {inp inp₁ inp₂ : In c} {s₁ s₂ : Sop} (h₁ : Started c b inp s₁ inp₁)
    (h₂ : Started c b inp s₂ inp₂) :
    inp₁ = inp₂ := by
  induction h₁ with
  | here _ hbits _ _ =>
    cases h₂ with
    | here => rfl
    | skip _ hbits' hnone _ =>
      rw [hbits] at hbits'
      rw [← Option.some.inj hbits', sopOf_pattern] at hnone
      cases hnone
  | skip _ hbits hnone _ ih =>
    cases h₂ with
    | here _ hbits' _ _ =>
      rw [hbits] at hbits'
      rw [Option.some.inj hbits', sopOf_pattern] at hnone
      cases hnone
    | skip _ _ _ hrest => exact ih hrest

theorem Disguised.not_accepts (hc : c.Answers) (h : Disguised c b rx) : ¬AcceptsOnlyFrames c b rx payload := by
  intro haccepts
  obtain ⟨s, inp, header, data, hstarted, hreads, hunclean⟩ := h
  obtain ⟨fuel, hrun⟩ := hstarted.analyze payload
  rw [hreads.readMessage hc s payload] at hrun
  have hnonneg : 0 ≤ if eopBits c (after c (portions header) inp) = some (pdEop.setWidth 32) then
      (receivedHead b s header).toInt else eopPosition c (after c (portions header) inp) := by
    split
    · rw [receivedHead_toInt]
      exact Int.natCast_nonneg _
    · exact Int.le_of_lt hreads.eop
  obtain ⟨s', inp', header', hframe⟩ := haccepts fuel _ _ hrun hnonneg
  obtain rfl := hstarted.unique hframe.started
  -- the header that is returned is the one that was read
  obtain rfl : header' = header := by
    have hwritten := List.append_cancel_left hframe.written
    obtain ⟨⟨w, hw, -⟩, -⟩ := hframe.clean.symbols
    have hshort := (passes_message.mp hreads.passes).1
    rw [value, hw, Option.getD_some, passesFor_iff] at hshort
    rw [portions, receivedGroups, hw, Option.elim_some, List.append_assoc] at hwritten
    rw [← hshort, shortOf_own (List.append_inj_left hwritten rfl).symm]
  exact hunclean hframe.clean

/-- Only frames are accepted, unless a message is disguised. -/
theorem acceptsOnlyFrames_iff (hc : c.Answers) (b : Build) (rx : c.Rx) (payload : Nat → BitVec 32) :
    AcceptsOnlyFrames c b rx payload ↔ ¬Disguised c b rx := by
  refine ⟨fun haccepts hdisguised => hdisguised.not_accepts hc haccepts, ?_⟩
  intro hplain fuel r payload' hrun hr
  obtain ⟨s, inp, hstarted, hmessage⟩ := analyze_cases hc hrun hr
  have hreads := @reads_of_accepted c b inp hc hstarted.pos.2 s payload (by rw [hmessage]; exact hr)
  rw [hmessage] at hreads
  have hclean : Clean c (portions (shortOf (value c inp))) inp := by
    by_contra hunclean
    exact hplain ⟨s, inp, _, _, hstarted, hreads, hunclean⟩
  have hresult := hreads.readMessage (b := b) hc s payload
  rw [hmessage, if_pos hclean.eop] at hresult
  exact ⟨s, inp, _, hstarted, congrArg Prod.fst hresult, hclean, hreads.groups hclean.symbols s⟩

end

/-! ## The chip of the unit tests -/

theorem hostChip_answers : hostChip.Answers := by
  refine ⟨fun _ => show preambleOffset ≠ 0 by decide, ?_⟩
  intro xs off n hoff hn
  simp only [hostChip]
  split
  · exact .inl rfl
  · exact .inr ⟨_, _, _, by omega, rfl⟩

/-- A message without payload, whose last data symbol of the header, which stands for 0, has become 00000. -/
def spoiled : List (BitVec 5) := (frame .sop 0x0161 0 fun _ => 0).set 7 0

def spoiledHeader : In hostChip := next hostChip (preambleOffset, spoiled)

theorem spoiled_started : Started hostChip ⟨false, false⟩ (preambleOffset, spoiled) .sop spoiledHeader :=
  .here (by decide) (by decide +kernel) rfl (by decide +kernel)

theorem spoiled_reads : Reads hostChip spoiledHeader 0x0161 fun _ => 0 := by
  refine ⟨⟨?_, ?_, ?_, trivial⟩, ?_, by decide +kernel, by decide +kernel⟩
  · exact passesFor_iff.mpr (by decide +kernel)
  · exact passesFor_iff.mpr (by decide +kernel)
  · exact passesFor_iff.mpr (by decide +kernel)
  · intro p hp
    obtain rfl : p = 0 := Nat.le_zero.mp hp
    decide +kernel

theorem spoiled_unclean : ¬Clean hostChip (portions 0x0161) spoiledHeader := by
  rintro ⟨⟨⟨w, hw, hdata⟩, -⟩, -⟩
  have hread : portion hostChip spoiledHeader = some (kcodes 0x09 0x0E 0x09 0x00) := by decide +kernel
  obtain rfl := Option.some.inj (hread.symm.trans hw)
  exact absurd hdata (by decide)

/-- It is accepted. -/
theorem spoiled_accepted : ¬AcceptsOnlyFrames hostChip ⟨false, false⟩ spoiled fun _ => 0 :=
  Disguised.not_accepts hostChip_answers
    ⟨.sop, spoiledHeader, 0x0161, fun _ => 0, spoiled_started, spoiled_reads, spoiled_unclean⟩

theorem acceptsOnlyFrames_iff_host :
    AcceptsOnlyFrames hostChip ⟨false, false⟩ spoiled (fun _ => 0) ↔ ¬Disguised hostChip ⟨false, false⟩ spoiled :=
  acceptsOnlyFrames_iff hostChip_answers ⟨false, false⟩ spoiled fun _ => 0

end ChromeEc.PdPhy
