import Mathlib.Data.BitVec
import Mathlib.Data.List.Induction

/- The history of port 80 writes, and the command that reads it: `common/port80.c`.

  The length of the history is a parameter, and so is the width of a code, which is 16 bits or,
  with `CONFIG_PORT80_4_BYTE`, 32. What the handler writes to the response is a list of stores,
  each with the offset of its first byte.

  Correspondence (C ↔ Lean):
    `history`, `writes`, `last_boot` ↔ `St`
    `port_80_write`, `port80_last_boot`, `port80_command_read` ↔ the same in camelCase
  Prints, the deferred dump and the console command are left out. -/
namespace ChromeEc.Port80

structure Config where
  historyLen : Nat
  pos : 0 < historyLen
  small : historyLen ≤ 2 ^ 31

/-- The codes have `w` bits. -/
structure St (w : Nat) where
  history : Nat → BitVec w
  writes : BitVec 32
  lastBoot : BitVec 16

variable {w : Nat} {c : Config} {s : St w}

def port80EventReset : BitVec 32 := 0x1002

def port80Write (c : Config) (data : BitVec 32) (s : St w) : St w :=
  let prev := s.history ((s.writes - 1).toNat % c.historyLen)
  { history := fun k => if k = s.writes.toNat % c.historyLen then data.setWidth w else s.history k
    writes := s.writes + 1
    lastBoot := if data = port80EventReset ∧ s.writes ≠ 0 ∧ prev.toNat < 0x100 then prev.setWidth 16 else s.lastBoot }

/-! ## The command -/

/-- Bytes that are written to the response. -/
structure Store where
  offset : Nat
  size : Nat
  value : Nat
  deriving DecidableEq

structure Request where
  version : Nat
  subcmd : BitVec 16
  offset : BitVec 32
  numEntries : BitVec 32
  responseMax : BitVec 16

inductive Status where
  | success
  | invalidParam
  deriving DecidableEq

structure Outcome where
  status : Status
  responseSize : BitVec 16
  stores : List Store

def getInfo : BitVec 16 := 0
def readBuffer : BitVec 16 := 1

def port80LastBoot (s : St w) : Outcome := ⟨.success, 2, [⟨0, 2, s.lastBoot.toNat⟩]⟩

/-- The entry `i` of the answer. -/
def entry (c : Config) (s : St w) (offset : BitVec 32) (i : Nat) : Store :=
  ⟨2 * i, 2, ((s.history ((BitVec.ofNat 32 i + offset).toNat % c.historyLen)).setWidth 16).toNat⟩

def copyEntries (c : Config) (s : St w) (offset : BitVec 32) : Nat → List Store
  | 0 => []
  | n + 1 => copyEntries c s offset n ++ [entry c s offset n]

def port80CommandRead (c : Config) (q : Request) (s : St w) : Outcome :=
  if q.version = 0 then port80LastBoot s
  else if q.subcmd = getInfo then
    ⟨.success, 12, [⟨0, 4, s.writes.toNat⟩, ⟨4, 4, c.historyLen⟩]⟩
  else if q.subcmd = readBuffer then
    if c.historyLen ≤ q.offset.toNat ∨ q.numEntries = 0 ∨ q.responseMax.setWidth 32 < q.numEntries * 2 then
      ⟨.invalidParam, 0, []⟩
    else ⟨.success, (q.numEntries * 2).setWidth 16, copyEntries c s q.offset q.numEntries.toNat⟩
  else ⟨.invalidParam, 0, []⟩

def Request.Reads (q : Request) : Prop := q.version ≠ 0 ∧ q.subcmd = readBuffer

/-- The handler writes inside the response, and a part of the history that it gives is the one asked for. -/
def Answered (c : Config) (q : Request) (s : St w) : Prop :=
  let r := port80CommandRead c q s
  (∀ x ∈ r.stores, x.offset + x.size ≤ q.responseMax.toNat) ∧
    (q.Reads → r.status = .success → r.responseSize.toNat = 2 * q.numEntries.toNat ∧
      r.stores = (List.range q.numEntries.toNat).map fun i =>
        ⟨2 * i, 2, ((s.history ((q.offset.toNat + i) % c.historyLen)).setWidth 16).toNat⟩)

/-- The size check is passed. -/
def Request.Accepted (c : Config) (q : Request) : Prop :=
  q.offset.toNat < c.historyLen ∧ q.numEntries ≠ 0 ∧ 2 * q.numEntries.toNat % 2 ^ 32 ≤ q.responseMax.toNat

/-- The answers of a fixed size fit, and a count that passes the size check is less than 2^31. -/
def Request.Fits (c : Config) (q : Request) : Prop :=
  (q.version = 0 → 2 ≤ q.responseMax.toNat) ∧ (q.version ≠ 0 → q.subcmd = getInfo → 8 ≤ q.responseMax.toNat) ∧
    (q.Reads → q.Accepted c → q.numEntries.toNat < 2 ^ 31)

variable {q : Request} {offset : BitVec 32} {n : Nat}

theorem copyEntries_eq : copyEntries c s offset n = (List.range n).map (entry c s offset) := by
  induction n with
  | zero => rfl
  | succ n ih => rw [copyEntries, ih, List.range_succ, List.map_append, List.map_singleton]

/-- Below 2^31 the index does not wrap. -/
theorem entry_eq {i : Nat} (hoffset : offset.toNat < c.historyLen) (hi : i < 2 ^ 31) :
    entry c s offset i = ⟨2 * i, 2, ((s.history ((offset.toNat + i) % c.historyLen)).setWidth 16).toNat⟩ := by
  have hsmall := c.small
  have hsum : (BitVec.ofNat 32 i + offset).toNat = offset.toNat + i := by
    rw [BitVec.toNat_add, BitVec.toNat_ofNat]
    omega
  rw [entry, hsum]

theorem double_toNat : (q.numEntries * 2).toNat = 2 * q.numEntries.toNat % 2 ^ 32 := by
  rw [BitVec.toNat_mul, Nat.mul_comm]
  rfl

theorem refused_iff : (c.historyLen ≤ q.offset.toNat ∨ q.numEntries = 0 ∨ q.responseMax.setWidth 32 < q.numEntries * 2) ↔
    ¬q.Accepted c := by
  have hmax : (q.responseMax.setWidth 32).toNat = q.responseMax.toNat := by
    rw [BitVec.toNat_setWidth, Nat.mod_eq_of_lt]
    have hlt := q.responseMax.isLt
    omega
  rw [Request.Accepted, BitVec.lt_def, hmax, double_toNat]
  by_cases hzero : q.numEntries = 0
  · simp [hzero]
  · simp only [hzero, false_or, ne_eq, not_false_eq_true, true_and]
    omega

theorem read_accepted (hreads : q.Reads) (hok : q.Accepted c) : port80CommandRead c q s =
    ⟨.success, (q.numEntries * 2).setWidth 16, copyEntries c s q.offset q.numEntries.toNat⟩ := by
  have hother : q.subcmd ≠ getInfo := by
    rw [hreads.2]
    decide
  rw [port80CommandRead, if_neg hreads.1, if_neg hother, if_pos hreads.2, if_neg fun h => refused_iff.mp h hok]

theorem read_refused (hreads : q.Reads) (hnot : ¬q.Accepted c) : port80CommandRead c q s = ⟨.invalidParam, 0, []⟩ := by
  have hother : q.subcmd ≠ getInfo := by
    rw [hreads.2]
    decide
  rw [port80CommandRead, if_neg hreads.1, if_neg hother, if_pos hreads.2, if_pos (refused_iff.mpr hnot)]

/-- A count from 2^31 on is written behind the response. -/
theorem answered_accepted (hreads : q.Reads) (hok : q.Accepted c) : Answered c q s ↔ q.numEntries.toNat < 2 ^ 31 := by
  have hmax := q.responseMax.isLt
  rw [Answered, read_accepted hreads hok, copyEntries_eq]
  constructor
  · rintro ⟨hinside, -⟩
    by_contra hlarge
    have hlast : entry c s q.offset (q.numEntries.toNat - 1) ∈ (List.range q.numEntries.toNat).map (entry c s q.offset) :=
      List.mem_map_of_mem (List.mem_range.mpr (by omega))
    have hend : 2 * (q.numEntries.toNat - 1) + 2 ≤ q.responseMax.toNat := hinside _ hlast
    omega
  · intro hsmall
    have hexact : 2 * q.numEntries.toNat ≤ q.responseMax.toNat := by
      have hle := hok.2.2
      rwa [Nat.mod_eq_of_lt (by omega)] at hle
    refine ⟨fun x hx => ?_, fun _ _ => ⟨?_, ?_⟩⟩
    · obtain ⟨i, hi, rfl⟩ := List.mem_map.mp hx
      have hlt := List.mem_range.mp hi
      show 2 * i + 2 ≤ q.responseMax.toNat
      omega
    · rw [BitVec.toNat_setWidth, double_toNat, Nat.mod_eq_of_lt (by omega), Nat.mod_eq_of_lt (by omega)]
    · refine List.map_congr_left fun i hi => ?_
      exact entry_eq hok.1 ((List.mem_range.mp hi).trans hsmall)

/-- A request is answered inside the response, with what it asks for, exactly when the fixed answers fit and the count is
less than 2^31. -/
theorem read_iff (c : Config) (q : Request) (s : St w) : Answered c q s ↔ q.Fits c := by
  by_cases hversion : q.version = 0
  · have hread : port80CommandRead c q s = port80LastBoot s := if_pos hversion
    rw [Answered, hread]
    simp [Request.Fits, Request.Reads, hversion, port80LastBoot]
  · by_cases hinfo : q.subcmd = getInfo
    · have hread : port80CommandRead c q s = ⟨.success, 12, [⟨0, 4, s.writes.toNat⟩, ⟨4, 4, c.historyLen⟩]⟩ := by
        rw [port80CommandRead, if_neg hversion, if_pos hinfo]
      have hnot : ¬q.Reads := fun h => absurd (hinfo.symm.trans h.2) (by decide)
      rw [Answered, hread]
      simp only [Request.Fits, hversion, hinfo, hnot]
      simp
      omega
    · by_cases hreads : q.Reads
      · by_cases hok : q.Accepted c
        · rw [answered_accepted hreads hok]
          simp [Request.Fits, hversion, hinfo, hreads, hok]
        · rw [Answered, read_refused hreads hok]
          simp [Request.Fits, hversion, hinfo, hok]
      · have hread : port80CommandRead c q s = ⟨.invalidParam, 0, []⟩ := by
          rw [port80CommandRead, if_neg hversion, if_neg hinfo, if_neg fun h => hreads ⟨hversion, h⟩]
        rw [Answered, hread]
        simp [Request.Fits, hversion, hinfo, hreads]

/-- Twice 2^31 + 1 is 2 in 32 bits: a response of 2 bytes is enough for the check. -/
theorem read_half_wraps : ¬Answered ⟨128, by decide, by decide⟩ ⟨1, readBuffer, 0, 0x80000001, 2⟩
    (⟨fun _ => 0, 0, 0⟩ : St 16) := by
  rw [read_iff]
  rintro ⟨-, -, hsmall⟩
  have hlt := hsmall ⟨by decide, rfl⟩ ⟨by decide, by decide, by decide⟩
  exact absurd hlt (by decide)

/-! ## What the history is -/

def writeAll (c : Config) (codes : List (BitVec 32)) (s : St w) : St w :=
  codes.foldl (fun s data => port80Write c data s) s

theorem writeAll_snoc {codes : List (BitVec 32)} {data : BitVec 32} :
    writeAll c (codes ++ [data]) s = port80Write c data (writeAll c codes s) := by
  rw [writeAll, writeAll, List.foldl_append]
  rfl

theorem writeAll_writes {codes : List (BitVec 32)} (hstart : s.writes = 0) :
    (writeAll c codes s).writes = BitVec.ofNat 32 codes.length := by
  induction codes using List.reverseRecOn with
  | nil => exact hstart
  | append_singleton codes data ih =>
    rw [writeAll_snoc, List.length_append, List.length_singleton, BitVec.ofNat_add, ← ih]
    rfl

theorem mod_ne {n k len : Nat} (hlt : k < n) (hnear : n < k + len) : k % len ≠ n % len := by
  intro heq
  have hmod : (n - k) % len = 0 := Nat.sub_mod_eq_zero_of_mod_eq heq.symm
  rw [Nat.mod_eq_of_lt (by omega)] at hmod
  omega

/-- The history has the codes that were written last, each at its number modulo the length. -/
theorem recent_writes {codes : List (BitVec 32)} {k : Nat} (hstart : s.writes = 0) (hcount : codes.length < 2 ^ 32)
    (hk : k < codes.length) (hrecent : codes.length ≤ k + c.historyLen) :
    (writeAll c codes s).history (k % c.historyLen) = (codes.get ⟨k, hk⟩).setWidth w := by
  induction codes using List.reverseRecOn with
  | nil => exact absurd hk (Nat.not_lt_zero k)
  | append_singleton codes data ih =>
    rw [List.length_append, List.length_singleton] at hcount hk hrecent
    have hwrites : (writeAll c codes s).writes.toNat = codes.length := by
      rw [writeAll_writes hstart, BitVec.toNat_ofNat, Nat.mod_eq_of_lt (by omega)]
    rw [writeAll_snoc]
    show (if k % c.historyLen = (writeAll c codes s).writes.toNat % c.historyLen then data.setWidth w
      else (writeAll c codes s).history (k % c.historyLen)) = _
    rw [hwrites]
    by_cases hlast : k = codes.length
    · subst hlast
      rw [if_pos rfl]
      simp
    · have hbefore : k < codes.length := by omega
      rw [if_neg (mod_ne hbefore (by omega)), ih (by omega) hbefore (by omega)]
      simp [List.getElem_append_left hbefore]

/-- What the host reads at a place of the history are the low 16 bits of the last code that was written there. -/
theorem read_writes {codes : List (BitVec 32)} {i k : Nat} (hstart : s.writes = 0) (hcount : codes.length < 2 ^ 32)
    (hreads : q.Reads) (hok : q.Accepted c) (hsmall : i < 2 ^ 31) (hi : i < q.numEntries.toNat)
    (hk : k < codes.length) (hrecent : codes.length ≤ k + c.historyLen)
    (hplace : (q.offset.toNat + i) % c.historyLen = k % c.historyLen) :
    (port80CommandRead c q (writeAll c codes s)).stores[i]? =
      some ⟨2 * i, 2, (((codes.get ⟨k, hk⟩).setWidth w).setWidth 16).toNat⟩ := by
  have hentry := entry_eq (s := writeAll c codes s) hok.1 hsmall
  rw [hplace, recent_writes hstart hcount hk hrecent] at hentry
  rw [read_accepted hreads hok, copyEntries_eq, List.getElem?_map, List.getElem?_range hi, Option.map_some, hentry]

/-- Three codes of 32 bits in a history of two: the last one is in the first place. -/
theorem read_writes_wrapped : (port80CommandRead ⟨2, by decide, by decide⟩ ⟨1, readBuffer, 0, 1, 2⟩
    (writeAll ⟨2, by decide, by decide⟩ [1, 2, 0x12345678] (⟨fun _ => 0, 0, 0⟩ : St 32))).stores[0]? =
      some ⟨0, 2, 0x5678⟩ := by
  rw [@read_writes 32 ⟨2, by decide, by decide⟩ ⟨fun _ => 0, 0, 0⟩ ⟨1, readBuffer, 0, 1, 2⟩ [1, 2, 0x12345678] 0 2 rfl
    (by decide) ⟨by decide, rfl⟩ ⟨by decide, by decide, by decide⟩ (by decide) (by decide) (by decide) (by decide) rfl]
  decide

end ChromeEc.Port80
