import ChromeEc.Lib.Steps
import ChromeEc.Lib.Distinct
import Mathlib.Data.BitVec

/- The table of SVIDs: `dfp_consume_svids` in `common/usb_pd_discovery.c`.

  A response is the words behind its VDM header, of which there are at most six. The array
  `svids` is a function here, and its cells from `svidDiscoveryMax` on are the memory behind
  it (the first of them lies over `svid_idx`).

  Correspondence (C ↔ Lean):
    `struct pd_discovery` ↔ `Disc`
    `is_svid_duplicated` ↔ `isSvidDuplicated`
    `dfp_consume_svids` ↔ `dfpConsumeSvids`, with `consumeFrom` its loop
  The warnings are left out.

  The SVIDs received in a response are its half-words up to the first that is zero. The table
  is right when it has the different ones received so far, each once and in their order, as
  far as there is room (`Right`). Each round of the loop moves the index by two, whether or
  not the table grows, and checks the index and not the place that it stores to: that does no
  harm exactly when `Fits`. -/
namespace ChromeEc.PdDiscovery
open Lib Steps Distinct

def svidDiscoveryMax : Nat := 16

structure Disc where
  svids : Nat → BitVec 16
  svidCnt : Nat
  svidsDiscovered : Bool

/-- The words behind the header: a packet has at most seven. -/
structure Response where
  vdos : List (BitVec 32)
  le : vdos.length ≤ 6

def svid0 (vdo : BitVec 32) : BitVec 16 := (vdo >>> 16).setWidth 16
def svid1 (vdo : BitVec 32) : BitVec 16 := vdo.setWidth 16

def isSvidDuplicated (d : Disc) (svid : BitVec 16) : Bool := (List.range d.svidCnt).any fun i => d.svids i == svid

def addSvid (svid : BitVec 16) (d : Disc) : Disc :=
  if isSvidDuplicated d svid = true then d
  else { d with svids := Function.update d.svids d.svidCnt svid, svidCnt := d.svidCnt + 1 }

def consumeFrom : List (BitVec 32) → Nat → Disc → Disc
  | [], _, d => d
  | vdo :: rest, i, d =>
    if d.svidCnt + 12 ≤ i then d
    else if svidDiscoveryMax ≤ i then d
    else if svid0 vdo = 0 then d
    else
      let d := addSvid (svid0 vdo) d
      if svid1 vdo = 0 then d else consumeFrom rest (i + 2) (addSvid (svid1 vdo) d)

def dfpConsumeSvids (r : Response) (d : Disc) : Disc :=
  { consumeFrom r.vdos d.svidCnt d with svidsDiscovered := true }

def consume (r : Response) (d : Disc) : Option Disc := some (dfpConsumeSvids r d)

/-! ## What was received -/

def svidsOf (vdos : List (BitVec 32)) : List (BitVec 16) :=
  (vdos.flatMap fun vdo => [svid0 vdo, svid1 vdo]).takeWhile fun svid => svid != 0

def Response.svids (r : Response) : List (BitVec 16) := svidsOf r.vdos

def received (svids : List (BitVec 16)) (x : Disc × Response) : List (BitVec 16) := svids ++ x.2.svids

def table (d : Disc) : List (BitVec 16) := (List.range d.svidCnt).map d.svids

/-- The different SVIDs received are in the table as far as there is room, and nothing was written behind it. -/
structure Right (start : Disc) (received : List (BitVec 16)) (d : Disc) : Prop where
  stored : table d = (addNew [] received).take svidDiscoveryMax
  behind : ∀ k, svidDiscoveryMax ≤ k → d.svids k = start.svids k

def RightAfter (start : Disc) (svids : List (BitVec 16)) (x : Disc × Response) : Prop :=
  Right start (received svids x) (dfpConsumeSvids x.2 x.1)

/-- How many half-words the loop can come to before the index is at the end of the table. -/
def reach (i : Nat) : Nat := 2 * ((svidDiscoveryMax + 1 - i) / 2)

/-- There is room for those that the loop comes to, and the others bring nothing new unless the table is full then. -/
def Fits (d : Disc) (r : Response) : Prop :=
  let known := addNew (table d) (r.svids.take (reach d.svidCnt))
  known.length ≤ svidDiscoveryMax ∧
    (known.length = svidDiscoveryMax ∨ ∀ svid ∈ r.svids.drop (reach d.svidCnt), svid ∈ known)

variable {d d' start : Disc} {r : Response} {svid : BitVec 16} {vdo : BitVec 32} {vdos : List (BitVec 32)}
  {svids : List (BitVec 16)} {i k : Nat}

/-! ## The table -/

theorem length_table : (table d).length = d.svidCnt := by rw [table, List.length_map, List.length_range]

theorem isSvidDuplicated_iff : isSvidDuplicated d svid = true ↔ svid ∈ table d := by
  simp [isSvidDuplicated, table]

theorem table_addSvid : table (addSvid svid d) = addNew (table d) [svid] := by
  by_cases h : isSvidDuplicated d svid = true
  · rw [addSvid, if_pos h, addNew_mem (isSvidDuplicated_iff.mp h)]
  · have hold : (List.range d.svidCnt).map (Function.update d.svids d.svidCnt svid) = table d := by
      refine List.map_congr_left fun j hj => ?_
      exact Function.update_of_ne (Nat.ne_of_lt (List.mem_range.mp hj)) _ _
    have hnew : Function.update d.svids d.svidCnt svid d.svidCnt = svid := Function.update_self ..
    rw [addSvid, if_neg h, addNew_not_mem fun hmem => h (isSvidDuplicated_iff.mpr hmem), table, List.range_succ,
      List.map_append, List.map_singleton, hold]
    exact congrArg (fun v => table d ++ [v]) hnew

theorem addSvid_behind (hk : (addSvid svid d).svidCnt ≤ k) : (addSvid svid d).svids k = d.svids k := by
  rw [addSvid] at hk ⊢
  split
  · rfl
  · rename_i h
    rw [if_neg h] at hk
    exact Function.update_of_ne (Nat.ne_of_gt hk) _ _

theorem le_addSvid : d.svidCnt ≤ (addSvid svid d).svidCnt := by
  rw [← length_table, ← length_table, table_addSvid]
  exact length_le_addNew

/-! ## The loop -/

theorem reach_full (h : svidDiscoveryMax ≤ i) : reach i = 0 := by
  rw [reach]
  omega

theorem reach_next (h : i < svidDiscoveryMax) : reach i = reach (i + 2) + 2 := by
  rw [reach, reach]
  omega

theorem svidsOf_cons : svidsOf (vdo :: vdos) =
    if svid0 vdo = 0 then [] else svid0 vdo :: if svid1 vdo = 0 then [] else svid1 vdo :: svidsOf vdos := by
  simp only [svidsOf, List.flatMap_cons, List.cons_append, List.nil_append,
    List.takeWhile_cons, bne_iff_ne, ne_eq, ite_not]

/-- The loop adds the half-words that it comes to; the words of a response do not bring it to its own bound. -/
theorem table_consumeFrom (hi : i + 2 * vdos.length ≤ d.svidCnt + 12) :
    table (consumeFrom vdos i d) = addNew (table d) ((svidsOf vdos).take (reach i)) := by
  induction vdos generalizing i d with
  | nil => rw [consumeFrom, svidsOf, List.flatMap_nil, List.takeWhile_nil, List.take_nil, addNew_nil]
  | cons vdo rest ih =>
    rw [List.length_cons] at hi
    rw [consumeFrom, if_neg (by omega), svidsOf_cons]
    by_cases hfull : svidDiscoveryMax ≤ i
    · rw [if_pos hfull, reach_full hfull, List.take_zero, addNew_nil]
    · rw [if_neg hfull, reach_next (Nat.lt_of_not_le hfull)]
      by_cases hfirst : svid0 vdo = 0
      · rw [if_pos hfirst, if_pos hfirst, List.take_nil, addNew_nil]
      · rw [if_neg hfirst, if_neg hfirst, List.take_succ_cons, addNew_cons]
        by_cases hsecond : svid1 vdo = 0
        · simp only [if_pos hsecond, List.take_nil, addNew_nil]
          exact table_addSvid
        · have hgrow : d.svidCnt ≤ (addSvid (svid1 vdo) (addSvid (svid0 vdo) d)).svidCnt := le_addSvid.trans le_addSvid
          simp only [if_neg hsecond, List.take_succ_cons]
          rw [ih (by omega), table_addSvid, table_addSvid, ← addNew_cons]

theorem le_consumeFrom : d.svidCnt ≤ (consumeFrom vdos i d).svidCnt := by
  induction vdos generalizing i d with
  | nil => exact le_refl _
  | cons vdo rest ih =>
    rw [consumeFrom]
    split_ifs
    · exact le_refl _
    · exact le_refl _
    · exact le_refl _
    · exact le_addSvid
    · exact (le_addSvid.trans le_addSvid).trans ih

theorem consumeFrom_behind (hk : (consumeFrom vdos i d).svidCnt ≤ k) : (consumeFrom vdos i d).svids k = d.svids k := by
  induction vdos generalizing i d with
  | nil => rfl
  | cons vdo rest ih =>
    rw [consumeFrom] at hk ⊢
    split_ifs at hk ⊢
    · rfl
    · rfl
    · rfl
    · exact addSvid_behind hk
    · have hsecond := le_consumeFrom.trans hk
      exact (ih hk).trans ((addSvid_behind hsecond).trans (addSvid_behind (le_addSvid.trans hsecond)))

/-! ## One response -/

theorem table_dfpConsumeSvids :
    table (dfpConsumeSvids r d) = addNew (table d) (r.svids.take (reach d.svidCnt)) := by
  have hle := r.le
  exact table_consumeFrom (by omega)

/-- What the response adds to a table that is right, beside what it should add. -/
theorem stored_iff (h : Right start svids d) :
    table (dfpConsumeSvids r d) = (addNew [] (svids ++ r.svids)).take svidDiscoveryMax ↔ Fits d r := by
  rw [table_dfpConsumeSvids, addNew_append, Fits]
  have hcnt : d.svidCnt = ((addNew [] svids).take svidDiscoveryMax).length := by rw [← h.stored, length_table]
  rw [List.length_take] at hcnt
  by_cases hle : (addNew [] svids).length ≤ svidDiscoveryMax
  · have hall : table d = addNew [] svids := h.stored.trans (List.take_of_length_le hle)
    have hparts : addNew (table d) r.svids =
        addNew (addNew (table d) (r.svids.take (reach d.svidCnt))) (r.svids.drop (reach d.svidCnt)) := by
      rw [← addNew_append, List.take_append_drop]
    rw [← hall, hparts]
    exact take_addNew_iff
  · -- The table is full: the loop does not come to any of the half-words.
    have hfull : d.svidCnt = svidDiscoveryMax := by omega
    have hgrow : addNew [] svids <+: addNew (addNew [] svids) r.svids := prefix_addNew
    obtain ⟨more, hmore⟩ := hgrow
    rw [reach_full hfull.ge, List.take_zero, addNew_nil, ← hmore, List.take_append_of_le_length (by omega), length_table,
      hfull]
    exact iff_of_true h.stored ⟨le_refl _, Or.inl rfl⟩

/-- The table after a response is right exactly when the response fits. -/
theorem right_iff (h : Right start svids d) : Right start (svids ++ r.svids) (dfpConsumeSvids r d) ↔ Fits d r := by
  constructor
  · intro hright
    exact (stored_iff h).mp hright.stored
  · intro hfits
    refine ⟨(stored_iff h).mpr hfits, fun k hk => ?_⟩
    have hcnt : (dfpConsumeSvids r d).svidCnt ≤ svidDiscoveryMax := by
      rw [← length_table, table_dfpConsumeSvids]
      exact hfits.1
    have hsame : (consumeFrom r.vdos d.svidCnt d).svids k = d.svids k := consumeFrom_behind (hcnt.trans hk)
    exact hsame.trans (h.behind k hk)

/-! ## Runs -/

theorem right_initial (hempty : start.svidCnt = 0) : Right start [] start := by
  refine ⟨?_, fun k _ => rfl⟩
  rw [table, hempty]
  rfl

/-- Words with the SVIDs from `n` on, two in each. -/
def words (n count : Nat) : List (BitVec 32) :=
  (List.range count).map fun k => BitVec.ofNat 32 ((n + 2 * k) * 65536 + (n + 2 * k + 1))

def empty : Disc := ⟨fun _ => 0, 0, false⟩

/-- In every run from an empty table, the table is right after each response exactly when each response fits. -/
theorem svids_iff {l : List (Disc × Response)} (hempty : start.svidCnt = 0) (h : Run consume start l d) :
    Always received (RightAfter start) [] l ↔ ∀ x ∈ l, Fits x.1 x.2 := by
  have hfits : Always received (fun _ x => Fits x.1 x.2) [] l ↔ ∀ x ∈ l, Fits x.1 x.2 := always_iff_forall
  rw [← hfits]
  refine Run.always_iff (R := fun d svids => Right start svids d) (right_initial hempty) ?_ ?_ h
  · rintro d r _ svids hright hfits ⟨⟩
    exact (right_iff hright).mpr hfits
  · rintro d r _ svids hright ⟨⟩
    exact right_iff hright

/-- Four SVIDs, then two of them and two new ones, with a zero before another one. -/
def firstFour : Response := ⟨words 1 2, by decide⟩
def mixedFour : Response := ⟨[0x00030005, 0x00020006, 0x00000007], by decide⟩

/-- A response of which the loop comes to all the SVIDs fits if there is room for them. -/
theorem exists_fits {t xs : List (BitVec 16)} (ht : table d = t) (hr : r.svids = xs) (hreach : xs.length ≤ reach t.length)
    (hroom : (addNew t xs).length ≤ svidDiscoveryMax) :
    Fits d r ∧ ∃ d', consume r d = some d' ∧ table d' = addNew t xs := by
  subst ht hr
  rw [length_table] at hreach
  have hall : r.svids.take (reach d.svidCnt) = r.svids := List.take_of_length_le hreach
  have hnone : r.svids.drop (reach d.svidCnt) = [] := List.drop_of_length_le hreach
  refine ⟨?_, _, rfl, by rw [table_dfpConsumeSvids, hall]⟩
  rw [Fits, hall, hnone]
  exact ⟨hroom, .inr fun _ h => absurd h List.not_mem_nil⟩

theorem svids_iff_mixed : ∃ l d, Run consume empty l d ∧ l.map Prod.snd = [firstFour, mixedFour, firstFour] ∧
    table d = [1, 2, 3, 4, 5, 6] ∧ Always received (RightAfter empty) [] l := by
  have hfirst : firstFour.svids = [1, 2, 3, 4] := by decide
  have hmixed : mixedFour.svids = [3, 5, 2, 6] := by decide
  have hnone : table empty = [] := rfl
  obtain ⟨hfits₁, d₁, h₁, htable₁⟩ := exists_fits hnone hfirst (by decide) (by decide)
  have hfour : table d₁ = [1, 2, 3, 4] := htable₁.trans (by decide)
  obtain ⟨hfits₂, d₂, h₂, htable₂⟩ := exists_fits hfour hmixed (by decide) (by decide)
  have hsix : table d₂ = [1, 2, 3, 4, 5, 6] := htable₂.trans (by decide)
  obtain ⟨hfits₃, d₃, h₃, htable₃⟩ := exists_fits hsix hfirst (by decide) (by decide)
  have run : Run consume empty _ d₃ := .step (.step (.step .start h₁) h₂) h₃
  refine ⟨_, d₃, run, rfl, htable₃.trans (by decide), (svids_iff rfl run).mpr ?_⟩
  simp only [List.forall_mem_append, List.forall_mem_singleton]
  exact ⟨⟨⟨fun _ h => absurd h List.not_mem_nil, hfits₁⟩, hfits₂⟩, hfits₃⟩

/-- Twelve SVIDs, then three, then two: the last is stored behind the table. -/
def overfilled : Disc :=
  dfpConsumeSvids ⟨words 16 1, by decide⟩ (dfpConsumeSvids ⟨words 13 1 ++ [0x000f0000], by decide⟩
    (dfpConsumeSvids ⟨words 1 6, by decide⟩ empty))

theorem svids_overflow : ∃ l, Run consume empty l overfilled ∧ svidDiscoveryMax < overfilled.svidCnt ∧
    overfilled.svids svidDiscoveryMax ≠ empty.svids svidDiscoveryMax :=
  ⟨_, .step (.step (.step .start rfl) rfl) rfl, by decide +kernel, by decide +kernel⟩

end ChromeEc.PdDiscovery
