import ChromeEc.Lib.Records
import ChromeEc.Lib.Steps
import ChromeEc.Lib.Memory
import Mathlib.Data.BitVec
import Mathlib.Data.UInt

/- The jump tags of `common/system.c`.

  A jump tag is a `struct jump_tag` of four bytes and the data, up to a multiple of four. The
  tags are in RAM in front of `struct jump_data`, each new one in front of those before it.
  An address has 32 bits; the memory is a function of the address.

  Correspondence (C ↔ Lean):
    `jdata`, the fields of `*jdata` that are read here ↔ `St.jdata`, `St.jumpTagTotal`, `St.magic`
    `struct jump_tag` at an address ↔ `tagAt`, `dataSizeAt`, `dataVersionAt`, `storeTag`
    `system_usable_ram_end`, once `jdata` is set ↔ `usableRamEnd`
    `system_add_jump_tag` ↔ `systemAddJumpTag`
    `system_get_jump_tag` ↔ `systemGetJumpTag`

  The jump tags are a stack.

  The entries of the stack (`Entry`) are laid out from the end of the usable RAM up to the
  jump data (`Placed`), each with the size that `system_add_jump_tag` gives it. The search goes
  from one to the next by the size that it reads in the entry, which is the same
  (`Stored.size_eq`); that is what its result and its termination rest on. A version is one
  byte, and what is asked for is a number of any size. -/
namespace ChromeEc.JumpTag
open Lib

abbrev Bytes := Nat → UInt8

def roundup4 (x : Nat) : Nat := (x + 3) / 4 * 4

/-- `sizeof(struct jump_tag)`. -/
abbrev tagHeaderSize : Nat := 4

abbrev jumpTagMaxSize : Nat := 255

def jumpDataMagic : BitVec 32 := 0x706d754a

/-- `JUMP_DATA_MIN_ADDRESS`, which is in RAM; on no chip does the RAM begin at the lowest addresses. -/
structure Config where
  jumpDataMinAddress : Nat
  room : tagHeaderSize + roundup4 jumpTagMaxSize ≤ jumpDataMinAddress

/-- The address of `*jdata`, `NULL` as `none`. -/
structure St where
  jdata : Option Nat
  jumpTagTotal : Nat
  magic : BitVec 32
  mem : Bytes

inductive EcError where
  | success
  | unknown
  | inval
  deriving DecidableEq

def sub32 (a b : Nat) : Nat := (a + 2 ^ 32 - b % 2 ^ 32) % 2 ^ 32

def usableRamEnd (jdata : Nat) (s : St) : Nat := sub32 jdata s.jumpTagTotal

/-! ## `struct jump_tag` -/

def tagAt (mem : Bytes) (t : Nat) : BitVec 16 := (mem (t + 1)).toBitVec ++ (mem t).toBitVec

def dataSizeAt (mem : Bytes) (t : Nat) : UInt8 := mem (t + 2)

def dataVersionAt (mem : Bytes) (t : Nat) : UInt8 := mem (t + 3)

/-- The bytes of a `struct jump_tag`. -/
def tagHeader (tag : BitVec 16) (dataSize dataVersion : UInt8) : List UInt8 :=
  [⟨tag.extractLsb' 0 8⟩, ⟨tag.extractLsb' 8 8⟩, dataSize, dataVersion]

def storeTag (mem : Bytes) (t : Nat) (tag : BitVec 16) (dataSize dataVersion : UInt8) : Bytes :=
  Memory.copy mem t tagHeaderSize fun i => (tagHeader tag dataSize dataVersion).getD i 0

/-! ## Adding and getting -/

/-- The size is that of an object and is not negative. -/
def systemAddJumpTag (c : Config) (tag : BitVec 16) (version : Int) (size : Nat) (data : Bytes) (s : St) :
    EcError × St :=
  match s.jdata with
  | none => (.unknown, s)
  | some jdata =>
    if s.magic ≠ jumpDataMagic then
      (.unknown, s)
    else if jumpTagMaxSize < size then
      (.inval, s)
    else
      let newEntrySize := roundup4 size + tagHeaderSize
      if sub32 (usableRamEnd jdata s) newEntrySize < c.jumpDataMinAddress then
        (.inval, s)
      else
        let s := { s with jumpTagTotal := s.jumpTagTotal + newEntrySize }
        let t := usableRamEnd jdata s
        let mem := storeTag s.mem t tag (.ofNat size) (.ofInt version)
        (.success, { s with mem := if size ≠ 0 then Memory.copy mem (t + tagHeaderSize) size data else mem })

/-- What `system_get_jump_tag` returns, and what it stores for the caller. -/
structure Found where
  data : Nat
  version : Int
  size : Int
  deriving DecidableEq

/-- The `while` loop of `system_get_jump_tag`; `none` if it needs more passes than allowed. -/
def searchTags (tag : BitVec 16) (jdata : Nat) (s : St) : Nat → Nat → Option (Option Found)
  | 0, _ => none
  | fuel + 1, used =>
    if used < s.jumpTagTotal then
      let t := (usableRamEnd jdata s + used) % 2 ^ 32
      let used := used + (tagHeaderSize + roundup4 (dataSizeAt s.mem t).toNat)
      if tagAt s.mem t ≠ tag then
        searchTags tag jdata s fuel used
      else
        some (some ⟨t + tagHeaderSize, (dataVersionAt s.mem t).toNat, (dataSizeAt s.mem t).toNat⟩)
    else
      some none

/-- The inner `none` is `NULL`. -/
def systemGetJumpTag (c : Config) (fuel : Nat) (tag : BitVec 16) (s : St) : Option (Option Found) :=
  match s.jdata with
  | none => some none
  | some jdata =>
    if usableRamEnd jdata s < c.jumpDataMinAddress then some none
    else searchTags tag jdata s fuel 0

/-! ## The stack -/

variable {c : Config} {s s' start : St} {jdata t : Nat} {tag : BitVec 16} {mem mem' : Bytes}

structure Entry where
  tag : BitVec 16
  version : UInt8
  data : List UInt8
  deriving DecidableEq

def Entry.size (e : Entry) : Nat := roundup4 e.data.length + tagHeaderSize

theorem Entry.size_pos (e : Entry) : 0 < e.size := Nat.succ_pos _

structure Stored (mem : Bytes) (t : Nat) (e : Entry) : Prop where
  short : e.data.length ≤ jumpTagMaxSize
  header : Memory.Holds mem t (tagHeader e.tag (.ofNat e.data.length) e.version)
  data : Memory.Holds mem (t + tagHeaderSize) e.data

variable {e : Entry} {es : List Entry}

theorem le_roundup4 (n : Nat) : n ≤ roundup4 n := by
  unfold roundup4
  omega

theorem roundup4_mono {n k : Nat} (h : n ≤ k) : roundup4 n ≤ roundup4 k :=
  Nat.mul_le_mul_right 4 (Nat.div_le_div_right (Nat.add_le_add_right h 3))

theorem Stored.size_le (h : Stored mem t e) : e.size ≤ tagHeaderSize + roundup4 jumpTagMaxSize := by
  rw [Entry.size, Nat.add_comm]
  exact Nat.add_le_add_left (roundup4_mono h.short) _

/-! ## Reading an entry -/

theorem extract_append (x : BitVec 16) : x.extractLsb' 8 8 ++ x.extractLsb' 0 8 = x := by
  ext i hi
  rw [BitVec.getElem_append]
  split
  · simp [BitVec.getLsbD_eq_getElem hi]
  · rename_i hlow
    have hback : 8 + (i - 8) = i := by omega
    simp [hback, BitVec.getLsbD_eq_getElem hi]

theorem Stored.tag_eq (h : Stored mem t e) : tagAt mem t = e.tag := by
  have hlow := h.header 0 (by simp [tagHeader])
  have hhigh := h.header 1 (by simp [tagHeader])
  rw [Nat.add_zero] at hlow
  rw [tagAt, hlow, hhigh]
  exact extract_append e.tag

theorem Stored.dataSize_eq (h : Stored mem t e) : (dataSizeAt mem t).toNat = e.data.length := by
  have hshort : e.data.length ≤ 255 := h.short
  have hsize := h.header 2 (by simp [tagHeader])
  rw [dataSizeAt, hsize]
  show (UInt8.ofNat e.data.length).toNat = _
  rw [UInt8.toNat_ofNat', Nat.mod_eq_of_lt (by omega)]

theorem Stored.dataVersion_eq (h : Stored mem t e) : dataVersionAt mem t = e.version :=
  h.header 3 (by simp [tagHeader])

theorem Stored.size_eq (h : Stored mem t e) : tagHeaderSize + roundup4 (dataSizeAt mem t).toNat = e.size := by
  rw [h.dataSize_eq, Entry.size, Nat.add_comm]

theorem Stored.congr (h : Stored mem t e) (hsame : ∀ a, t ≤ a → a < t + e.size → mem' a = mem a) :
    Stored mem' t e := by
  have hdata := le_roundup4 e.data.length
  have hsize : e.size = roundup4 e.data.length + 4 := rfl
  refine ⟨h.short, Memory.Holds.congr h.header ?_, Memory.Holds.congr h.data ?_⟩
  · intro a hlo (hhi : a < t + 4)
    exact hsame a hlo (by omega)
  · intro a (hlo : t + 4 ≤ a) (hhi : a < t + 4 + e.data.length)
    exact hsame a (by omega) (by omega)

/-! ## The stack -/

/-- The entries lie between the end of the usable RAM and the jump data. -/
structure Placed (c : Config) (jdata : Nat) (s : St) (es : List Entry) : Prop where
  room : tagHeaderSize + roundup4 jumpTagMaxSize ≤ jdata
  jdata_lt : jdata < 2 ^ 32
  total_le : s.jumpTagTotal ≤ jdata
  above : es ≠ [] → c.jumpDataMinAddress ≤ jdata - s.jumpTagTotal
  laid : Laid (Stored s.mem) Entry.size jdata (jdata - s.jumpTagTotal) es

/-- The entries of the state; none before the jump data are there. -/
def Holding (c : Config) (s : St) (es : List Entry) : Prop :=
  match s.jdata with
  | none => es = []
  | some jdata => Placed c jdata s es

theorem sub32_of_le {a b : Nat} (hle : b ≤ a) (hlt : a < 2 ^ 32) : sub32 a b = a - b := by
  unfold sub32
  rw [Nat.mod_eq_of_lt (by omega : b < 2 ^ 32)]
  omega

theorem Placed.usableRamEnd_eq (h : Placed c jdata s es) : usableRamEnd jdata s = jdata - s.jumpTagTotal :=
  sub32_of_le h.total_le h.jdata_lt

theorem Placed.below (h : Placed c jdata s es) :
    tagHeaderSize + roundup4 jumpTagMaxSize ≤ jdata - s.jumpTagTotal := by
  by_cases hnil : es = []
  · have hlaid := h.laid
    rw [hnil] at hlaid
    have hempty : jdata - s.jumpTagTotal = jdata := hlaid
    rw [hempty]
    exact h.room
  · exact Nat.le_trans c.room (h.above hnil)

/-! ## Adding -/

/-- A call of `system_add_jump_tag`. -/
structure AddCall where
  tag : BitVec 16
  version : Int
  size : Nat
  data : Bytes

def AddCall.result (c : Config) (call : AddCall) (s : St) : EcError × St :=
  systemAddJumpTag c call.tag call.version call.size call.data s

def AddCall.entry (call : AddCall) : Entry :=
  ⟨call.tag, .ofInt call.version, Memory.read call.data 0 call.size⟩

theorem AddCall.entry_length (call : AddCall) : call.entry.data.length = call.size := Memory.length_read

def addStep (c : Config) (call : AddCall) (s : St) : Option St := some (call.result c s).2

/-- The entries with that of the call, if it succeeded. -/
def pushed (c : Config) (es : List Entry) (x : St × AddCall) : List Entry :=
  if (x.2.result c x.1).1 = .success then x.2.entry :: es else es

/-- The entries that the calls of a run added, the newest first. -/
def added (c : Config) (l : List (St × AddCall)) : List Entry := l.foldl (pushed c) []

/-- A call is refused and changes nothing, or it stores its entry below the others. -/
theorem add_cases (c : Config) (call : AddCall) (s : St) :
    ((call.result c s).1 ≠ .success ∧ (call.result c s).2 = s) ∨
    ∃ jdata, s.jdata = some jdata ∧ call.size ≤ jumpTagMaxSize ∧
      c.jumpDataMinAddress ≤ sub32 (usableRamEnd jdata s) call.entry.size ∧ (call.result c s).1 = .success ∧
      (call.result c s).2.jdata = some jdata ∧
      (call.result c s).2.jumpTagTotal = s.jumpTagTotal + call.entry.size ∧
      (call.result c s).2.mem =
        Memory.copy (storeTag s.mem (sub32 jdata (s.jumpTagTotal + call.entry.size)) call.tag (.ofNat call.size)
            (.ofInt call.version))
          (sub32 jdata (s.jumpTagTotal + call.entry.size) + tagHeaderSize) call.size call.data := by
  have hsize : call.entry.size = roundup4 call.size + tagHeaderSize := by rw [Entry.size, call.entry_length]
  unfold AddCall.result systemAddJumpTag
  split
  · exact .inl ⟨EcError.noConfusion, rfl⟩
  rename_i jdata hjdata
  split
  · exact .inl ⟨EcError.noConfusion, rfl⟩
  split
  · exact .inl ⟨EcError.noConfusion, rfl⟩
  rename_i hshort
  simp only [usableRamEnd, ← hsize]
  by_cases hroom : sub32 (sub32 jdata s.jumpTagTotal) call.entry.size < c.jumpDataMinAddress
  · rw [if_pos hroom]
    exact .inl ⟨EcError.noConfusion, rfl⟩
  rw [if_neg hroom]
  refine .inr ⟨jdata, hjdata, Nat.le_of_not_lt hshort, Nat.le_of_not_lt hroom, rfl, hjdata, rfl, ?_⟩
  · generalize sub32 jdata (s.jumpTagTotal + call.entry.size) = t
    dsimp only
    split
    · rfl
    · rename_i hnone
      rw [not_not.mp hnone, Memory.copy_zero]

theorem storeTag_holds (mem : Bytes) (t : Nat) (tag : BitVec 16) (dataSize dataVersion : UInt8) :
    Memory.Holds (storeTag mem t tag dataSize dataVersion) t (tagHeader tag dataSize dataVersion) := by
  refine Memory.Holds.copy_self (l := tagHeader tag dataSize dataVersion) ?_
  intro i hi
  rw [List.getD_eq_getElem?_getD, List.getElem?_eq_getElem hi]
  rfl

theorem stored_written (mem : Bytes) (t : Nat) (call : AddCall) (hshort : call.size ≤ jumpTagMaxSize) :
    Stored (Memory.copy (storeTag mem t call.tag (.ofNat call.size) (.ofInt call.version)) (t + tagHeaderSize)
      call.size call.data) t call.entry := by
  refine ⟨call.entry_length.trans_le hshort, ?_, ?_⟩
  · rw [call.entry_length]
    refine Memory.Holds.congr (storeTag_holds mem t _ _ _) ?_
    intro a _ ha
    exact Memory.copy_of_lt ha
  · intro i hi
    have hi' : i < call.size := call.entry_length ▸ hi
    rw [Memory.copy_inside hi']
    simp [AddCall.entry, Memory.read]

theorem written_behind (mem : Bytes) {t a : Nat} (call : AddCall) (ha : t + call.entry.size ≤ a) :
    Memory.copy (storeTag mem t call.tag (.ofNat call.size) (.ofInt call.version)) (t + tagHeaderSize) call.size
      call.data a = mem a := by
  have hdata := le_roundup4 call.size
  have hsize : call.entry.size = roundup4 call.size + 4 := by rw [Entry.size, call.entry_length]
  have hbehind : t + 4 + call.size ≤ a := by omega
  have hheader : t + 4 ≤ a := by omega
  rw [Memory.copy_of_ge hbehind, storeTag, Memory.copy_of_ge hheader]

theorem Placed.push {call : AddCall} (h : Placed c jdata s es) (hshort : call.size ≤ jumpTagMaxSize)
    (hmin : c.jumpDataMinAddress ≤ sub32 (usableRamEnd jdata s) call.entry.size)
    (htotal : s'.jumpTagTotal = s.jumpTagTotal + call.entry.size)
    (hmem : s'.mem = Memory.copy (storeTag s.mem (sub32 jdata (s.jumpTagTotal + call.entry.size)) call.tag
        (.ofNat call.size) (.ofInt call.version))
      (sub32 jdata (s.jumpTagTotal + call.entry.size) + tagHeaderSize) call.size call.data) :
    Placed c jdata s' (call.entry :: es) := by
  have hstored := stored_written s.mem (sub32 jdata (s.jumpTagTotal + call.entry.size)) call hshort
  have hbelow := h.below
  have hle := h.total_le
  have hlt := h.jdata_lt
  have hsize := hstored.size_le
  have hstart : sub32 jdata (s.jumpTagTotal + call.entry.size) = jdata - s'.jumpTagTotal := by
    rw [sub32_of_le (by omega) hlt, htotal]
  have hnext : jdata - s'.jumpTagTotal + call.entry.size = jdata - s.jumpTagTotal := by omega
  rw [h.usableRamEnd_eq, sub32_of_le (by omega) (by omega)] at hmin
  rw [hstart] at hstored hmem
  rw [← hmem] at hstored
  refine ⟨h.room, hlt, by omega, fun _ => by omega, hstored, ?_⟩
  rw [hnext]
  apply h.laid.mono
  intro u e hu _ he
  apply he.congr
  intro a ha _
  rw [hmem]
  exact written_behind s.mem call (by omega)

theorem Holding.push {call : AddCall} (h : Holding c s es) :
    Holding c (call.result c s).2 (pushed c es (s, call)) := by
  obtain ⟨hrefused, hsame⟩ | ⟨jdata, hjdata, hshort, hmin, hsuccess, hjdata', htotal, hmem⟩ := add_cases c call s
  · rw [pushed, if_neg hrefused, hsame]
    exact h
  · unfold Holding at h ⊢
    rw [hjdata] at h
    rw [pushed, if_pos hsuccess, hjdata']
    exact h.push hshort hmin htotal hmem

theorem run_holding {l : List (St × AddCall)} (hstart : Holding c start [])
    (h : Steps.Run (addStep c) start l s) : Holding c s (added c l) := by
  have hok : Steps.Always (pushed c) (fun _ _ => True) [] l := Steps.always_iff_forall.mpr fun _ _ => trivial
  refine Steps.Run.observed (R := Holding c) hstart ?_ h hok
  intro s call s' es hs _ hstep
  cases hstep
  exact hs.push

/-! ## Searching -/

/-- From an entry on, the search gives the first one with the tag, after at most one pass for each. -/
theorem searchTags_eq (tag : BitVec 16) (used : Nat) {fuel : Nat} (hle : s.jumpTagTotal ≤ jdata) (hlt : jdata < 2 ^ 32)
    (hused : used ≤ s.jumpTagTotal)
    (hlaid : Laid (Stored s.mem) Entry.size jdata (jdata - s.jumpTagTotal + used) es) (hfuel : es.length < fuel) :
    (es.find? (·.tag = tag) = none → searchTags tag jdata s fuel used = some none) ∧
    ∀ e, es.find? (·.tag = tag) = some e → ∃ t, Stored s.mem t e ∧
      searchTags tag jdata s fuel used = some (some ⟨t + tagHeaderSize, e.version.toNat, e.data.length⟩) := by
  induction es generalizing used fuel with
  | nil =>
    obtain ⟨fuel, rfl⟩ := Nat.exists_eq_succ_of_ne_zero (Nat.ne_of_gt hfuel)
    have hend : jdata - s.jumpTagTotal + used = jdata := hlaid
    refine ⟨fun _ => ?_, fun e he => by cases he⟩
    rw [searchTags, if_neg (by omega)]
  | cons x es ih =>
    obtain ⟨fuel, rfl⟩ := Nat.exists_eq_succ_of_ne_zero (Nat.ne_of_gt (Nat.zero_lt_of_lt hfuel))
    obtain ⟨hstored, hrest⟩ := hlaid
    have htop := hrest.le
    have hpos := x.size_pos
    have haddress : (usableRamEnd jdata s + used) % 2 ^ 32 = jdata - s.jumpTagTotal + used := by
      rw [usableRamEnd, sub32_of_le hle hlt, Nat.mod_eq_of_lt (by omega)]
    rw [searchTags, if_pos (by omega)]
    dsimp only
    rw [haddress, hstored.tag_eq, hstored.size_eq, hstored.dataVersion_eq, hstored.dataSize_eq]
    by_cases htag : x.tag = tag
    · rw [if_neg (not_not.mpr htag), List.find?_cons_of_pos (by simpa using htag)]
      refine ⟨fun hnone => (by cases hnone), ?_⟩
      intro e he
      cases he
      exact ⟨_, hstored, rfl⟩
    · rw [if_pos htag, List.find?_cons_of_neg (by simpa using htag)]
      rw [Nat.add_assoc] at hrest
      exact ih _ (by omega) hrest (Nat.lt_of_succ_lt_succ hfuel)

theorem Holding.get {fuel : Nat} (h : Holding c s es) (hfuel : es.length < fuel) :
    (es.find? (·.tag = tag) = none → systemGetJumpTag c fuel tag s = some none) ∧
    ∀ e, es.find? (·.tag = tag) = some e → ∃ data, Memory.read s.mem data e.data.length = e.data ∧
      systemGetJumpTag c fuel tag s = some (some ⟨data, e.version.toNat, e.data.length⟩) := by
  cases hjdata : s.jdata with
  | none =>
    have hempty : es = [] := by simpa [Holding, hjdata] using h
    have hget : systemGetJumpTag c fuel tag s = some none := by simp [systemGetJumpTag, hjdata]
    rw [hempty, hget]
    exact ⟨fun _ => rfl, fun e he => by cases he⟩
  | some jdata =>
    have hplaced : Placed c jdata s es := by simpa [Holding, hjdata] using h
    have hget : systemGetJumpTag c fuel tag s =
        if usableRamEnd jdata s < c.jumpDataMinAddress then some none else searchTags tag jdata s fuel 0 := by
      simp [systemGetJumpTag, hjdata]
    obtain ⟨hnone, hsome⟩ :=
      searchTags_eq tag 0 hplaced.total_le hplaced.jdata_lt (Nat.zero_le _) hplaced.laid hfuel
    have habove : usableRamEnd jdata s < c.jumpDataMinAddress → es = [] := by
      intro hlow
      by_contra hne
      have hmin := hplaced.above hne
      rw [hplaced.usableRamEnd_eq] at hlow
      omega
    rw [hget]
    split
    · rename_i hlow
      rw [habove hlow]
      exact ⟨fun _ => rfl, fun e he => by cases he⟩
    · refine ⟨hnone, ?_⟩
      intro e he
      obtain ⟨t, hstored, hfound⟩ := hsome e he
      exact ⟨_, Memory.read_eq_iff.mpr hstored.data, hfound⟩

/-! ## Runs -/

/-- After every sequence of calls, from a store that is empty: the search ends and gives the data, the
version byte and the size of the newest entry with the tag, a call that is refused changes
nothing, and the entries tile the addresses from the end of the usable RAM up to the jump data. -/
theorem jump_tags_stack {l : List (St × AddCall)} (hempty : start.jumpTagTotal = 0)
    (hplace : ∀ jdata, start.jdata = some jdata →
      tagHeaderSize + roundup4 jumpTagMaxSize ≤ jdata ∧ jdata < 2 ^ 32)
    (h : Steps.Run (addStep c) start l s) :
    (∀ tag fuel, (added c l).length < fuel →
      ((added c l).find? (·.tag = tag) = none → systemGetJumpTag c fuel tag s = some none) ∧
      ∀ e, (added c l).find? (·.tag = tag) = some e → ∃ data, Memory.read s.mem data e.data.length = e.data ∧
        systemGetJumpTag c fuel tag s = some (some ⟨data, e.version.toNat, e.data.length⟩)) ∧
    (∀ call : AddCall, (call.result c s).1 ≠ .success → (call.result c s).2 = s) ∧
    ∀ jdata, s.jdata = some jdata →
      List.Forall₂ (fun (x : Span) e => Stored s.mem x.1 e ∧ x.2 = e.size)
        (spans Entry.size (usableRamEnd jdata s) (added c l)) (added c l) ∧
      Tiles (usableRamEnd jdata s) (jdata - usableRamEnd jdata s)
        (spans Entry.size (usableRamEnd jdata s) (added c l)) := by
  have hstart : Holding c start [] := by
    unfold Holding
    split
    · rfl
    · rename_i jdata hjdata
      obtain ⟨hroom, hlt⟩ := hplace jdata hjdata
      refine ⟨hroom, hlt, by omega, fun hne => absurd rfl hne, ?_⟩
      rw [hempty]
      exact Nat.sub_zero jdata
  have hs := run_holding hstart h
  refine ⟨fun tag fuel hfuel => hs.get hfuel, ?_, ?_⟩
  · intro call hrefused
    obtain ⟨-, hsame⟩ | ⟨-, -, -, -, hsuccess, -⟩ := add_cases c call s
    · exact hsame
    · exact absurd hsuccess hrefused
  · intro jdata hjdata
    unfold Holding at hs
    rw [hjdata] at hs
    rw [hs.usableRamEnd_eq]
    exact ⟨hs.laid.spans, hs.laid.tiles Entry.size_pos⟩

/-- A chip with 64 KiB of RAM, of which the last 4 KiB are preserved. -/
def chip : Config := ⟨0x2000f000, by decide⟩

def fresh : St := ⟨some 0x2000ffe8, 0, jumpDataMagic, fun _ => 0xff⟩

def threeBytes : AddCall := ⟨1, 4, 3, fun i => .ofNat i⟩

def fiveBytes : AddCall := ⟨2, 1, 5, fun _ => 0x55⟩

/-- A tag behind one of odd size. -/
theorem jump_tags_stack_odd : ∃ l s data, Steps.Run (addStep chip) fresh l s ∧
    Memory.read s.mem data 3 = [0, 1, 2] ∧ systemGetJumpTag chip 3 1 s = some (some ⟨data, 4, 3⟩) := by
  have hfirst : (Steps.trace (addStep chip) [threeBytes, fiveBytes] ([], fresh)).any fun r =>
      (added chip r.1).length < 3 ∧ (added chip r.1).find? (·.tag = 1) = some ⟨1, 4, [0, 1, 2]⟩ := by decide +kernel
  obtain ⟨r, htrace, hfound⟩ := (Option.any_eq_true _ _).mp hfirst
  obtain ⟨hlength, hfound⟩ := of_decide_eq_true hfound
  have hrun := Steps.Run.of_trace .start htrace
  have hplace : ∀ jdata, fresh.jdata = some jdata →
      tagHeaderSize + roundup4 jumpTagMaxSize ≤ jdata ∧ jdata < 2 ^ 32 := by
    intro jdata hjdata
    cases hjdata
    decide
  obtain ⟨data, hdata, hget⟩ := ((jump_tags_stack rfl hplace hrun).1 1 3 hlength).2 _ hfound
  exact ⟨r.1, r.2, data, hrun, hdata, hget⟩

/-- A version of 256 is added, and 0 is what is found. -/
theorem version_truncated : ∃ (call : AddCall) (found : Found), (call.result chip fresh).1 = .success ∧
    systemGetJumpTag chip 2 call.tag (call.result chip fresh).2 = some (some found) ∧ found.version ≠ call.version :=
  ⟨⟨1, 256, 0, fun _ => 0⟩, ⟨0x2000ffe8, 0, 0⟩, by decide +kernel, by decide +kernel, by decide⟩

end ChromeEc.JumpTag
