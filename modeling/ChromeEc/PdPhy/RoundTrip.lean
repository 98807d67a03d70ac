import Mathlib.Data.List.GetD
import Mathlib.Tactic.IntervalCases
import ChromeEc.PdPhy.Model

/- What `pd_analyze_rx` makes of a message that `prepare_message` has written.

  `Transports` is what is asked of the chip: the groups of 5 bits that are written between the
  preamble and the last edge can be dequeued one after the other, the lowest bit first, in portions of
  up to 20 bits, all but the last bit of them. A packet has at most `maxGroups` groups.

  `prepareMessage` writes the groups of `frame` (`prepareMessage_eq`). `Left`: what is still to be
  dequeued. Each function of the receiver takes from it what its counterpart has put there. -/
namespace ChromeEc.PdPhy

/-! ## The groups of a packet -/

/-- The codes of the 16 values, in order. -/
def groups : List (BitVec 5) :=
  [0x1E, 0x09, 0x14, 0x15, 0x0A, 0x0B, 0x0E, 0x0F, 0x12, 0x13, 0x16, 0x17, 0x1A, 0x1B, 0x1C, 0x1D]

def group (v : BitVec 16) (shift : Nat) : BitVec 5 := groups.getD ((v >>> shift) &&& 0xF).toNat 0

def shortGroups (v : BitVec 16) : List (BitVec 5) := [group v 0, group v 4, group v 8, group v 12]

def wordGroups (v : BitVec 32) : List (BitVec 5) := shortGroups (v.setWidth 16) ++ shortGroups ((v >>> 16).setWidth 16)

def sopGroups : Sop → List (BitVec 5)
  | .sop => [pdSync1, pdSync1, pdSync1, pdSync2]
  | .sopPrime => [pdSync1, pdSync1, pdSync3, pdSync3]
  | .sopPrimePrime => [pdSync1, pdSync3, pdSync1, pdSync3]

/-- The start of a packet that the build sends. -/
def Build.sop (b : Build) : Sop := if b.vpd then .sopPrime else .sop

def payloadGroups (data : Nat → BitVec 32) : Nat → Nat → List (BitVec 5)
  | 0, _ => []
  | n + 1, i => wordGroups (data i) ++ payloadGroups data n (i + 1)

def payloadCrc (data : Nat → BitVec 32) : Nat → Nat → BitVec 32 → BitVec 32
  | 0, _, crc => crc
  | n + 1, i, crc => payloadCrc data n (i + 1) (crc32Hash32 crc (data i))

def messageCrc (header : BitVec 16) (cnt : Nat) (data : Nat → BitVec 32) : BitVec 32 :=
  crc32Result (payloadCrc data cnt 0 (crc32Hash16 crc32Initial header))

def frame (s : Sop) (header : BitVec 16) (cnt : Nat) (data : Nat → BitVec 32) : List (BitVec 5) :=
  sopGroups s ++ (shortGroups header ++ (payloadGroups data cnt 0 ++ (wordGroups (messageCrc header cnt data) ++ [pdEop])))

/-- A start, a header, seven words, the CRC and the end. -/
def maxGroups : Nat := 73

theorem length_payloadGroups (data : Nat → BitVec 32) (n i : Nat) : (payloadGroups data n i).length = 8 * n := by
  induction n generalizing i with
  | zero => rfl
  | succ n ih =>
    rw [payloadGroups, List.length_append, ih]
    exact Nat.add_comm 8 (8 * n)

theorem length_frame_le {cnt : Nat} (hcnt : cnt ≤ 7) (s : Sop) (header : BitVec 16) (data : Nat → BitVec 32) :
    (frame s header cnt data).length ≤ maxGroups := by
  have hsop : (sopGroups s).length = 4 := by cases s <;> rfl
  simp only [frame, List.length_append, length_payloadGroups, hsop, shortGroups, wordGroups, List.length_cons,
    List.length_nil, maxGroups]
  omega

theorem pdHeaderCnt_le (header : BitVec 16) : pdHeaderCnt header ≤ 7 := by
  have hand : ((header >>> 12) &&& 7).toNat ≤ (7#16).toNat := BitVec.toNat_and _ _ ▸ Nat.and_le_right
  exact hand

/-! ## Sending -/

section

variable {c : Chip} {b : Build}

def writeSyms (c : Chip) (xs : List (BitVec 5)) (out : Out c) : Out c :=
  xs.foldl (fun out x => writeSym c (bmc x) out) out

theorem writeSyms_append (xs ys : List (BitVec 5)) (out : Out c) :
    writeSyms c (xs ++ ys) out = writeSyms c ys (writeSyms c xs out) :=
  List.foldl_append

theorem bmc4b5b_group (v : BitVec 16) (shift : Nat) :
    bmc4b5b.getD ((v >>> shift) &&& 0xF).toNat 0 = bmc (group v shift) := by
  have htable : ∀ n < 16, bmc4b5b.getD n 0 = bmc (groups.getD n 0) := by decide
  have hlt : ((v >>> shift) &&& 0xF).toNat < 16 := by
    rw [BitVec.toNat_and]
    exact Nat.lt_succ_of_le Nat.and_le_right
  exact htable _ hlt

theorem encodeShort_eq (v : BitVec 16) (out : Out c) : encodeShort c v out = writeSyms c (shortGroups v) out := by
  simp only [encodeShort, bmc4b5b_group]
  rfl

theorem setWidth_and_mask (w : BitVec 32) : (w &&& 0xFFFF).setWidth 16 = w.setWidth 16 := by
  have hmask : ∀ i < 16, BitVec.getLsbD (0xFFFF : BitVec 32) i = true := by decide
  apply BitVec.eq_of_getLsbD_eq
  intro i hi
  rw [BitVec.getLsbD_setWidth, BitVec.getLsbD_setWidth, BitVec.getLsbD_and, hmask i hi, Bool.and_true]

theorem encodeWord_eq (v : BitVec 32) (out : Out c) : encodeWord c v out = writeSyms c (wordGroups v) out := by
  rw [encodeWord, setWidth_and_mask, setWidth_and_mask, encodeShort_eq, encodeShort_eq, BitVec.ushiftRight_zero,
    wordGroups, writeSyms_append]

theorem writeSop_eq (out : Out c) : writeSop c b out = writeSyms c (sopGroups b.sop) out := by
  unfold writeSop Build.sop
  split <;> rfl

theorem writePayload_eq (data : Nat → BitVec 32) (n i : Nat) (crc : BitVec 32) (out : Out c) :
    writePayload c data n i crc out = (payloadCrc data n i crc, writeSyms c (payloadGroups data n i) out) := by
  induction n generalizing i crc out with
  | zero => rfl
  | succ n ih => rw [writePayload, ih, encodeWord_eq, payloadGroups, writeSyms_append, payloadCrc]

/-- The groups, between the preamble and the last edge. -/
def sent (c : Chip) (xs : List (BitVec 5)) (tx : c.Tx) : Out c :=
  let out := writeSyms c xs (c.pdWritePreamble tx)
  c.pdWriteLastEdge out.2 out.1

theorem prepareMessage_eq (tx : c.Tx) (header : BitVec 16) (cnt : Nat) (data : Nat → BitVec 32) :
    prepareMessage c b tx header cnt data = sent c (frame b.sop header cnt data) tx := by
  simp only [prepareMessage, sent, frame, writePayload_eq, encodeShort_eq, encodeWord_eq, writeSop_eq, writeSyms_append]
  rfl

end

/-! ## The bits on the line -/

/-- Bit `k` of the groups, each with the lowest bit first. -/
def streamBit (xs : List (BitVec 5)) (k : Nat) : Bool := (xs.getD (k / 5) 0).getLsbD (k % 5)

/-- `n` bits from bit `k` on, the first of them the lowest. -/
def bitsFrom (xs : List (BitVec 5)) (k n : Nat) : BitVec 32 :=
  (BitVec.ofBoolListLE ((List.range n).map fun i => streamBit xs (k + i))).setWidth 32

theorem streamBit_behind (xs ys : List (BitVec 5)) (i : Nat) :
    streamBit (xs ++ ys) (5 * xs.length + i) = streamBit ys i := by
  have hdiv : (5 * xs.length + i) / 5 = xs.length + i / 5 := Nat.mul_add_div (by decide) _ _
  have hmod : (5 * xs.length + i) % 5 = i % 5 := Nat.mul_add_mod _ _ _
  rw [streamBit, hdiv, hmod, List.getD_append_right _ _ _ _ (Nat.le_add_right _ _), Nat.add_sub_cancel_left, streamBit]

theorem streamBit_front {xs : List (BitVec 5)} (ys : List (BitVec 5)) {i : Nat} (hi : i < 5 * xs.length) :
    streamBit (xs ++ ys) i = streamBit xs i := by
  rw [streamBit, List.getD_append _ _ _ _ (Nat.div_lt_of_lt_mul hi), streamBit]

theorem getLsbD_bitsFrom (xs : List (BitVec 5)) (k n : Nat) {i : Nat} (hi : i < 32) :
    (bitsFrom xs k n).getLsbD i = (decide (i < n) && streamBit xs (k + i)) := by
  rw [bitsFrom, BitVec.getLsbD_setWidth, decide_eq_true hi, Bool.true_and, BitVec.getLsbD_ofBoolListLE]
  by_cases hn : i < n
  · simp [hn]
  · simp [hn]

theorem bitsFrom_middle (before ys after : List (BitVec 5)) {n : Nat} (hn : n ≤ 5 * ys.length) :
    bitsFrom (before ++ (ys ++ after)) (5 * before.length) n = bitsFrom ys 0 n := by
  apply BitVec.eq_of_getLsbD_eq
  intro i hi
  rw [getLsbD_bitsFrom _ _ _ hi, getLsbD_bitsFrom _ _ _ hi, streamBit_behind, Nat.zero_add]
  by_cases hin : i < n
  · rw [streamBit_front after (Nat.lt_of_lt_of_le hin hn)]
  · rw [decide_eq_false hin, Bool.false_and, Bool.false_and]

theorem bitsFrom_kcodes (x₀ x₁ x₂ x₃ : BitVec 5) : bitsFrom [x₀, x₁, x₂, x₃] 0 20 = kcodes x₀ x₁ x₂ x₃ := by
  apply BitVec.eq_of_getLsbD_eq
  intro i hi
  rw [getLsbD_bitsFrom _ _ _ hi]
  interval_cases i <;> simp [kcodes, streamBit]

/-! ## Decoding -/

theorem kcodes_group (x₀ x₁ x₂ x₃ : BitVec 5) :
    (kcodes x₀ x₁ x₂ x₃ >>> 0) &&& 0x1f = x₀.setWidth 32 ∧ (kcodes x₀ x₁ x₂ x₃ >>> 5) &&& 0x1f = x₁.setWidth 32 ∧
      (kcodes x₀ x₁ x₂ x₃ >>> 10) &&& 0x1f = x₂.setWidth 32 ∧ (kcodes x₀ x₁ x₂ x₃ >>> 15) &&& 0x1f = x₃.setWidth 32 := by
  refine ⟨?_, ?_, ?_, ?_⟩ <;>
    · apply BitVec.eq_of_getLsbD_eq
      intro i hi
      interval_cases i <;> simp [kcodes]

theorem dec4b5b_group (v : BitVec 16) (shift : Nat) :
    dec4b5b.getD (group v shift).toNat 0 = (v >>> shift) &&& 0xF := by
  have htable : ∀ n < 16, dec4b5b.getD (groups.getD n 0).toNat 0 = BitVec.ofNat 16 n := by decide
  have hlt : ((v >>> shift) &&& 0xF).toNat < 16 := by
    rw [BitVec.toNat_and]
    exact Nat.lt_succ_of_le Nat.and_le_right
  exact (htable _ hlt).trans (BitVec.ofNat_toNat _ _)

theorem nibbles_eq (v : BitVec 16) :
    (v >>> 0 &&& 0xF) ||| (v >>> 4 &&& 0xF) <<< 4 ||| (v >>> 8 &&& 0xF) <<< 8 ||| (v >>> 12 &&& 0xF) <<< 12 = v := by
  apply BitVec.eq_of_getLsbD_eq
  intro i hi
  interval_cases i <;> simp

theorem halves_eq (v : BitVec 32) : (v >>> 16).setWidth 16 ++ v.setWidth 16 = v := by
  apply BitVec.eq_of_getLsbD_eq
  intro i hi
  rw [BitVec.getLsbD_append, BitVec.getLsbD_setWidth, BitVec.getLsbD_setWidth, BitVec.getLsbD_ushiftRight]
  split
  · rename_i hlo
    rw [decide_eq_true hlo, Bool.true_and]
  · rename_i hhi
    have hback : 16 + (i - 16) = i := by omega
    rw [hback, decide_eq_true (by omega), Bool.true_and]

theorem decodeGroup_kcodes (v : BitVec 16) :
    let w := kcodes (group v 0) (group v 4) (group v 8) (group v 12)
    decodeGroup w 0 ||| decodeGroup w 5 <<< 4 ||| decodeGroup w 10 <<< 8 ||| decodeGroup w 15 <<< 12 = v := by
  obtain ⟨h₀, h₁, h₂, h₃⟩ := kcodes_group (group v 0) (group v 4) (group v 8) (group v 12)
  have hwidth : ∀ x : BitVec 5, (x.setWidth 32).toNat = x.toNat := fun x => BitVec.toNat_setWidth_of_le (by decide)
  simp only [decodeGroup, h₀, h₁, h₂, h₃, hwidth, dec4b5b_group]
  exact nibbles_eq v

/-! ## Receiving -/

/-- What is received is the groups, and `At k inp` says that bit `k` of them is next. -/
structure Chip.Carries (c : Chip) (xs : List (BitVec 5)) (rx : c.Rx) (At : Nat → In c → Prop) : Prop where
  /-- pd_find_preamble returns the position behind the preamble. -/
  start : At 0 (c.pdFindPreamble (c.pdInitDequeue rx))
  position : ∀ k inp, At k inp → 0 < inp.1
  bits : ∀ k n inp, At k inp → n ≤ 20 → k + n < 5 * xs.length →
    ∃ inp', c.pdDequeueBits inp.2 inp.1 n = (inp'.1, some (bitsFrom xs k n), inp'.2) ∧ At (k + n) inp'

/-- Any groups that a packet may have are transported. -/
def Chip.Transports (c : Chip) : Prop :=
  ∀ xs tx, xs.length ≤ maxGroups → ∃ At, c.Carries xs (c.line (sent c xs tx).2) At

section

variable {c : Chip} {b : Build} {xs : List (BitVec 5)} {rx : c.Rx} {At : Nat → In c → Prop}

def Left (xs : List (BitVec 5)) (At : Nat → In c → Prop) (rest : List (BitVec 5)) (inp : In c) : Prop :=
  ∃ before, xs = before ++ rest ∧ At (5 * before.length) inp

theorem Left.pos {rest : List (BitVec 5)} {inp : In c} (h : Left xs At rest inp)
    (hc : c.Carries xs rx At) : 0 < inp.1 := by
  obtain ⟨before, -, hat⟩ := h
  exact hc.position _ _ hat

theorem Left.dequeue {ys rest : List (BitVec 5)} {inp : In c} (h : Left xs At (ys ++ rest) inp) (hc : c.Carries xs rx At)
    (hlen : ys.length ≤ 4) (hrest : rest ≠ []) (val : BitVec 32) :
    ∃ inp', dequeueBits c (5 * ys.length) val inp = (bitsFrom ys 0 (5 * ys.length), inp') ∧ Left xs At rest inp' := by
  obtain ⟨before, rfl, hat⟩ := h
  have hpos : 0 < rest.length := List.length_pos_iff.mpr hrest
  have hmore : 5 * before.length + 5 * ys.length < 5 * (before ++ (ys ++ rest)).length := by
    simp only [List.length_append]
    omega
  obtain ⟨inp', hbits, hat'⟩ := hc.bits _ _ _ hat (by omega) hmore
  refine ⟨inp', ?_, before ++ ys, (List.append_assoc _ _ _).symm, ?_⟩
  · simp only [dequeueBits, hbits]
    rw [Option.getD_some, bitsFrom_middle before ys rest (Nat.le_refl _)]
  · rwa [List.length_append, Nat.mul_add]

theorem Left.decodeShort {v : BitVec 16} {rest : List (BitVec 5)} {inp : In c} (h : Left xs At (shortGroups v ++ rest) inp)
    (hc : c.Carries xs rx At) (hrest : rest ≠ []) : ∃ inp', decodeShort c inp = (v, inp') ∧ Left xs At rest inp' := by
  obtain ⟨inp', hbits, hleft⟩ := h.dequeue hc (by exact Nat.le_refl 4) hrest c.w
  refine ⟨inp', ?_, hleft⟩
  have hread : dequeueBits c 20 c.w inp = (kcodes (group v 0) (group v 4) (group v 8) (group v 12), inp') :=
    hbits.trans (congrArg (·, inp') (bitsFrom_kcodes _ _ _ _))
  simp only [PdPhy.decodeShort, hread]
  exact congrArg (·, inp') (decodeGroup_kcodes v)

theorem Left.decodeWord {v : BitVec 32} {rest : List (BitVec 5)} {inp : In c} (h : Left xs At (wordGroups v ++ rest) inp)
    (hc : c.Carries xs rx At) (hrest : rest ≠ []) : ∃ inp', decodeWord c inp = (v, inp') ∧ Left xs At rest inp' := by
  rw [wordGroups, List.append_assoc] at h
  obtain ⟨inp₁, hlo, hleft₁⟩ := h.decodeShort hc (by simp [shortGroups])
  obtain ⟨inp₂, hhi, hleft₂⟩ := hleft₁.decodeShort hc hrest
  refine ⟨inp₂, ?_, hleft₂⟩
  simp only [PdPhy.decodeWord, hlo, hhi]
  exact congrArg (·, inp₂) (halves_eq v)

theorem stored_zero (data payload : Nat → BitVec 32) (p : Nat) :
    (fun i => if p ≤ i ∧ i < p + 0 then data i else payload i) = payload := by
  funext i
  exact if_neg fun hin => Nat.not_lt_of_le hin.1 hin.2

theorem stored_succ (data payload : Nat → BitVec 32) (p n : Nat) :
    (fun i => if p + 1 ≤ i ∧ i < p + 1 + n then data i else if i = p then data p else payload i) =
      fun i => if p ≤ i ∧ i < p + (n + 1) then data i else payload i := by
  funext i
  rcases Nat.lt_trichotomy i p with hlt | rfl | hgt
  · rw [if_neg (by omega), if_neg (Nat.ne_of_lt hlt), if_neg (by omega)]
  · rw [if_neg (by omega), if_pos rfl, if_pos (by omega)]
  · rw [if_neg (Nat.ne_of_gt hgt)]
    exact if_congr (by omega) rfl rfl

/-- The payload is stored word by word, with the CRC that the sender had. -/
theorem Left.readPayload {data : Nat → BitVec 32} {n p : Nat} {rest : List (BitVec 5)} {inp : In c} {crc : BitVec 32}
    {payload : Nat → BitVec 32} (h : Left xs At (payloadGroups data n p ++ rest) inp) (hc : c.Carries xs rx At)
    (hrest : rest ≠ []) :
    ∃ inp', readPayload c n p crc payload inp =
        (payloadCrc data n p crc, fun i => if p ≤ i ∧ i < p + n then data i else payload i, inp') ∧
      Left xs At rest inp' := by
  induction n generalizing p inp crc payload with
  | zero =>
    refine ⟨inp, ?_, h⟩
    rw [stored_zero]
    rfl
  | succ n ih =>
    rw [payloadGroups, List.append_assoc] at h
    have hmore : payloadGroups data n (p + 1) ++ rest ≠ [] := fun hnil => hrest (List.append_eq_nil_iff.mp hnil).2
    obtain ⟨inp₁, hword, hleft⟩ := h.decodeWord hc hmore
    obtain ⟨inp₂, hloop, hleft₂⟩ :=
      @ih (p + 1) inp₁ (crc32Hash32 crc (data p)) (fun i => if i = p then data p else payload i) hleft
    refine ⟨inp₂, ?_, hleft₂⟩
    rw [PdPhy.readPayload, if_pos (h.pos hc)]
    simp only [hword, hloop, stored_succ, payloadCrc]

theorem bitsFrom_sopGroups (s : Sop) : bitsFrom (sopGroups s) 0 20 = s.pattern := by
  cases s <;> exact bitsFrom_kcodes _ _ _ _

theorem sopOf_pattern (s : Sop) : sopOf s.pattern = some s := by
  cases s <;> decide

theorem Left.findSop {s : Sop} {rest : List (BitVec 5)} {inp : In c} (h : Left xs At (sopGroups s ++ rest) inp)
    (hc : c.Carries xs rx At) (hrest : rest ≠ []) (htakes : b.takes s = true) (fuel : Nat) (val : BitVec 32) :
    ∃ inp', findSop c b (fuel + 1) val inp = some (.ended s.pattern inp') ∧ Left xs At rest inp' := by
  have hlen : (sopGroups s).length = 4 := by cases s <;> rfl
  obtain ⟨inp', hbits, hleft⟩ := h.dequeue hc (Nat.le_of_eq hlen) hrest val
  rw [hlen] at hbits
  have hread : dequeueBits c 20 val inp = (s.pattern, inp') := hbits.trans (congrArg (·, inp') (bitsFrom_sopGroups s))
  refine ⟨inp', ?_, hleft⟩
  rw [PdPhy.findSop, if_pos (h.pos hc)]
  simp only [hread, sopOf_pattern, htakes, if_true]

/-- The header as pd_analyze_rx returns it. -/
def receivedHead (b : Build) (s : Sop) (header : BitVec 16) : BitVec 32 :=
  if b.decodeSop then header.setWidth 32 ||| pdHeaderSop s.type else header.setWidth 32

theorem messageHead_pattern (s : Sop) (header : BitVec 16) :
    messageHead b s.pattern header = some (receivedHead b s header) := by
  unfold messageHead receivedHead
  rw [sopOf_pattern]
  split <;> rfl

theorem receivedHead_toInt (b : Build) (s : Sop) (header : BitVec 16) :
    (receivedHead b s header).toInt = (receivedHead b s header).toNat := by
  have hmsb : (receivedHead b s header).msb = false := by
    rw [BitVec.msb_eq_getLsbD_last, receivedHead]
    cases b.decodeSop <;> cases s <;> simp [pdHeaderSop, Sop.type]
  exact BitVec.toInt_eq_toNat_of_msb hmsb

/-- The CRC is the one that was computed, and the four bits of the end are there. -/
theorem Left.readTrailer {crc head : BitVec 32} {inp : In c} (h : Left xs At (wordGroups crc ++ [pdEop]) inp)
    (hc : c.Carries xs rx At) : readTrailer c crc head inp = head.toInt := by
  obtain ⟨inp₁, hword, before, rfl, hat⟩ := h.decodeWord hc (List.cons_ne_nil _ _)
  -- four of the five bits are dequeued, so `Left.dequeue` for whole groups does not apply
  have hmore : 5 * before.length + 4 < 5 * (before ++ [pdEop]).length := by
    rw [List.length_append, List.length_singleton]
    omega
  obtain ⟨inp₂, hbits, hat₂⟩ := hc.bits _ _ _ hat (by decide) hmore
  have heop : bitsFrom (before ++ [pdEop]) (5 * before.length) 4 = pdEop.setWidth 32 :=
    (bitsFrom_middle before [pdEop] [] (by decide)).trans (by decide)
  have hpos₁ : ¬(inp₁.1 < 0 ∨ crc ≠ crc) := by
    rintro (hneg | hne)
    · exact absurd (hc.position _ _ hat) (by omega)
    · exact hne rfl
  have hpos₂ : ¬(inp₂.1 < 0 ∨ pdEop.setWidth 32 ≠ pdEop.setWidth 32) := by
    rintro (hneg | hne)
    · exact absurd (hc.position _ _ hat₂) (by omega)
    · exact hne rfl
  simp only [PdPhy.readTrailer, hword]
  rw [if_neg hpos₁]
  simp only [dequeueBits, hbits, heop, Option.getD_some]
  rw [if_neg hpos₂]

theorem Left.readMessage {s : Sop} {header : BitVec 16} {data payload : Nat → BitVec 32} {inp : In c}
    (h : Left xs At (shortGroups header ++ (payloadGroups data (pdHeaderCnt header) 0 ++
      (wordGroups (messageCrc header (pdHeaderCnt header) data) ++ [pdEop]))) inp)
    (hc : c.Carries xs rx At) :
    readMessage c b s.pattern payload inp =
      ((receivedHead b s header).toInt, fun i => if i < pdHeaderCnt header then data i else payload i) := by
  have hcrc : wordGroups (messageCrc header (pdHeaderCnt header) data) ++ [pdEop] ≠ [] := by simp
  obtain ⟨inp₁, hshort, hleft₁⟩ := h.decodeShort hc (fun hnil => hcrc (List.append_eq_nil_iff.mp hnil).2)
  obtain ⟨inp₂, hloop, hleft₂⟩ :=
    @Left.readPayload c xs rx At _ _ _ _ _ (crc32Hash16 crc32Initial header) payload hleft₁ hc hcrc
  have hpos : ¬inp₂.1 < 0 := fun hneg => absurd (hleft₂.pos hc) (by omega)
  simp only [PdPhy.readMessage, hshort, messageHead_pattern, hloop]
  rw [if_neg hpos, ← messageCrc, hleft₂.readTrailer hc]
  simp only [Nat.zero_le, true_and, Nat.zero_add]

theorem Chip.Carries.analyze {s : Sop} {header : BitVec 16} {data : Nat → BitVec 32}
    (hc : c.Carries (frame s header (pdHeaderCnt header) data) rx At) (htakes : b.takes s = true) (fuel : Nat)
    (payload : Nat → BitVec 32) :
    pdAnalyzeRx c b (fuel + 1) rx payload =
      some ((receivedHead b s header).toInt, fun i => if i < pdHeaderCnt header then data i else payload i) := by
  have hstart : Left _ At (frame s header (pdHeaderCnt header) data) (c.pdFindPreamble (c.pdInitDequeue rx)) :=
    ⟨[], rfl, hc.start⟩
  obtain ⟨inp, hsop, hleft⟩ := hstart.findSop hc (by simp [shortGroups]) htakes fuel 0
  have hpos := hstart.pos hc
  have hpos' := hleft.pos hc
  have hnoReset : ¬((c.pdFindPreamble (c.pdInitDequeue rx)).1 = pdRxErrHardReset ∨
      (c.pdFindPreamble (c.pdInitDequeue rx)).1 = pdRxErrCableReset) := by
    rintro (hreset | hreset) <;> exact absurd (hreset ▸ hpos) (by decide)
  simp only [pdAnalyzeRx, hsop]
  rw [if_neg hnoReset, if_neg (Int.not_lt.mpr (Int.le_of_lt hpos)), if_neg (Int.not_lt.mpr (Int.le_of_lt hpos')),
    hleft.readMessage hc]

end

/-- What was prepared is what is returned, if the start of the packet is one that the receiver takes. -/
theorem pdAnalyzeRx_prepareMessage {c : Chip} {b b' : Build} (hchip : c.Transports) (htakes : b'.takes b.sop = true)
    (tx : c.Tx) (header : BitVec 16) (data payload : Nat → BitVec 32) (fuel : Nat) :
    pdAnalyzeRx c b' (fuel + 1) (c.line (prepareMessage c b tx header (pdHeaderCnt header) data).2) payload =
      some (((receivedHead b' b.sop header).toNat : Int),
        fun i => if i < pdHeaderCnt header then data i else payload i) := by
  obtain ⟨At, hc⟩ := hchip (frame b.sop header (pdHeaderCnt header) data) tx
    (length_frame_le (pdHeaderCnt_le header) _ _ _)
  rw [prepareMessage_eq, hc.analyze htakes, receivedHead_toInt]

/-! ## The chip of the unit tests -/

/-- decode_bmc of `chip/host/usb_pd_phy.c` -/
def decodeBmc (val10 : BitVec 32) : BitVec 5 :=
  BitVec.ofBoolListLE ((List.range 5).map fun i => val10.getLsbD (2 * i) != val10.getLsbD (2 * i + 1))

theorem decodeBmc_bmc : ∀ x : BitVec 5, decodeBmc (bmc x) = x := by
  decide

def preambleOffset : Int := 60

/-- The mock of `chip/host/usb_pd_phy.c`: it keeps the groups, and gives back their bits. -/
def hostChip : Chip where
  Tx := List (BitVec 5)
  Rx := List (BitVec 5)
  pdWritePreamble _ := (0, [])
  pdWriteSym outMsg off val10 := (off + 1, outMsg ++ [decodeBmc val10])
  pdWriteLastEdge outMsg off := (off, outMsg)
  pdInitDequeue xs := xs
  pdFindPreamble xs := (preambleOffset, xs)
  pdDequeueBits xs off len :=
    if 5 * xs.length ≤ off + len - preambleOffset then (-1, none, xs)
    else (off + len, some (bitsFrom xs (off - preambleOffset).toNat len), xs)
  line outMsg := outMsg
  w := 0

theorem writeSyms_hostChip (xs ys : List (BitVec 5)) (off : Int) :
    (writeSyms hostChip xs (off, ys)).2 = ys ++ xs := by
  induction xs generalizing ys off with
  | nil => exact (List.append_nil ys).symm
  | cons x xs ih =>
    have hstep : writeSym hostChip (bmc x) (off, ys) = (off + 1, ys ++ [x]) := by
      simp only [writeSym, hostChip, decodeBmc_bmc]
    rw [writeSyms, List.foldl_cons, hstep]
    exact (ih _ _).trans (List.append_assoc ys [x] xs)

theorem hostChip_transports : hostChip.Transports := by
  intro xs tx _
  have hsent : (sent hostChip xs tx).2 = xs := writeSyms_hostChip xs [] 0
  refine ⟨fun k inp => inp.2 = xs ∧ inp.1 = preambleOffset + k, ⟨hsent, rfl⟩, ?_, ?_⟩
  · rintro k inp ⟨-, hoff⟩
    rw [hoff]
    exact Int.lt_of_lt_of_le (by decide) (Int.le_add_of_nonneg_right (Int.natCast_nonneg k))
  · rintro k n ⟨off, ys⟩ ⟨rfl, rfl⟩ - hmore
    have hplace : preambleOffset + (k : Int) - preambleOffset = k := by omega
    have hmore' : k + n < 5 * ys.length := hmore
    have hroom : ¬5 * (ys.length : Int) ≤ preambleOffset + k + n - preambleOffset := by omega
    refine ⟨(preambleOffset + k + n, ys), ?_, rfl, Int.add_assoc _ _ _⟩
    simp only [hostChip]
    rw [if_neg hroom, hplace, Int.toNat_natCast]

theorem pdAnalyzeRx_prepareMessage_host :
    pdAnalyzeRx hostChip ⟨false, true⟩ 1
        (hostChip.line
          (prepareMessage hostChip ⟨true, false⟩ [] 0x1161 (pdHeaderCnt 0x1161) fun _ => 0x00019096).2)
        (fun _ => 0) =
      some (((receivedHead ⟨false, true⟩ .sopPrime 0x1161).toNat : Int),
        fun i => if i < pdHeaderCnt 0x1161 then 0x00019096 else 0) :=
  pdAnalyzeRx_prepareMessage hostChip_transports (by decide) [] 0x1161 (fun _ => 0x00019096) (fun _ => 0) 0

end ChromeEc.PdPhy
