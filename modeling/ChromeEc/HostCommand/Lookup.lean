import ChromeEc.HostCommand.Model

/- The lookup of a command's handler, `find_host_command` of `common/host_command_task.c`.

  A pointer into the section of the commands is the index of its entry, an integer as the search may
  step in front of the first one. The search has no value where it would read an entry that is not
  there. Each turn leaves less than it had (`Window`), and no entry with the number is ever left out.

  Correspondence (C ↔ Lean):
    `__hcmds` up to `__hcmds_end` ↔ the list `hcmds`
    `safe_mode_allowed_hostcmds` ↔ `safeModeAllowedHostcmds`
    `command_is_allowed_in_safe_mode` ↔ `commandIsAllowedInSafeMode`
    `find_host_command` ↔ `findHostCommand`; `searchSorted` is the binary search with at
      most `fuel` turns, `searchLinear` the loop over all entries
    `zephyr_find_host_command` ↔ `searchLinear` -/
namespace ChromeEc.HostCommand

/-- An entry of the section: `struct host_command` with its number. -/
structure Hcmd extends Command where
  command : Int

def safeModeAllowedHostcmds : List Int :=
  [0x0098, 0x0097, 0x0067, 0x00D3, 0x000B, 0x0121, 0x0002, 0x00A9, 0x00DE, 0x00DD, 0x00DF, 0x001C]

def commandIsAllowedInSafeMode (command : Int) : Bool := safeModeAllowedHostcmds.contains command

/-- CONFIG_SYSTEM_SAFE_MODE, CONFIG_ZEPHYR and CONFIG_HOSTCMD_SECTION_SORTED. -/
structure LookupBuild where
  systemSafeMode : Bool
  zephyr : Bool
  hostcmdSectionSorted : Bool

section

variable (hcmds : List Hcmd) (command : Int)

def entryAt (m : Int) : Option Hcmd := if 0 ≤ m then hcmds[m.toNat]? else none

def searchSorted : Nat → Int → Int → Option (Option Int)
  | 0, _, _ => none
  | fuel + 1, l, r =>
    if r < l then some none
    else do
      -- `num` is a uint32_t
      let num := (r - l) % 2 ^ 32
      let m := l + num / 2
      let cmd ← entryAt hcmds m
      if cmd.command < command then searchSorted fuel (m + 1) r
      else if command < cmd.command then searchSorted fuel l (m - 1)
      else some (some m)

/-- The loop from the entry `i` on. -/
def searchLinear : List Hcmd → Int → Option Int
  | [], _ => none
  | cmd :: rest, i => if command = cmd.command then some i else searchLinear rest (i + 1)

/-- A pointer to the entry, or `none` for NULL. -/
def findHostCommand (b : LookupBuild) (systemIsInSafeMode : Bool) (fuel : Nat) : Option (Option Int) :=
  if b.systemSafeMode && systemIsInSafeMode && !commandIsAllowedInSafeMode command then some none
  else if b.zephyr then some (searchLinear command hcmds 0)
  else if b.hostcmdSectionSorted then searchSorted hcmds command fuel 0 (hcmds.length - 1)
  else some (searchLinear command hcmds 0)

end

section

variable {hcmds : List Hcmd} {command : Int} {i l w : Nat}

/-- The linker sorts the section, and no number is there twice. -/
def Sorted (hcmds : List Hcmd) : Prop := hcmds.Pairwise fun p q => p.command < q.command

instance (hcmds : List Hcmd) : Decidable (Sorted hcmds) := inferInstanceAs (Decidable (List.Pairwise _ hcmds))

/-- The result is the entry with the number, or there is none. -/
def Finds (hcmds : List Hcmd) (command : Int) : Option Int → Prop
  | some m => ∃ cmd, entryAt hcmds m = some cmd ∧ cmd.command = command
  | none => ∀ cmd ∈ hcmds, cmd.command ≠ command

theorem entryAt_natCast (i : Nat) : entryAt hcmds i = hcmds[i]? := if_pos (Int.natCast_nonneg i)

/-- The entries with the number are among `w` ones from `l` on. -/
structure Window (hcmds : List Hcmd) (command : Int) (l w : Nat) : Prop where
  inside : l + w ≤ hcmds.length
  covers : ∀ i (h : i < hcmds.length), hcmds[i].command = command → l ≤ i ∧ i < l + w

theorem Window.start (hcmds : List Hcmd) (command : Int) : Window hcmds command 0 hcmds.length :=
  ⟨Nat.le_of_eq (Nat.zero_add _), fun i h _ => ⟨Nat.zero_le i, by rwa [Nat.zero_add]⟩⟩

theorem Window.empty (h : Window hcmds command l 0) : Finds hcmds command none := by
  rintro cmd hcmd heq
  obtain ⟨i, hi, rfl⟩ := List.mem_iff_getElem.mp hcmd
  have hin := h.covers i hi heq
  omega

theorem Window.upper {k : Nat} (h : Window hcmds command l w) (hsorted : Sorted hcmds) (hk : k < w)
    (hlt : ∀ hk : l + k < hcmds.length, hcmds[l + k].command < command) :
    Window hcmds command (l + k + 1) (w - (k + 1)) where
  inside := by
    have hinside := h.inside
    omega
  covers i hi heq := by
    have hinside := h.inside
    have hin := h.covers i hi heq
    have hmid := hlt (by omega)
    rcases Nat.lt_or_ge (l + k) i with hbehind | hbefore
    · omega
    · obtain hbefore | rfl := Nat.lt_or_eq_of_le hbefore
      · have horder := List.pairwise_iff_getElem.mp hsorted i (l + k) hi (by omega) hbefore
        omega
      · omega

theorem Window.lower {k : Nat} (h : Window hcmds command l w) (hsorted : Sorted hcmds) (hk : k < w)
    (hgt : ∀ hk : l + k < hcmds.length, command < hcmds[l + k].command) : Window hcmds command l k where
  inside := by
    have hinside := h.inside
    omega
  covers i hi heq := by
    have hinside := h.inside
    have hin := h.covers i hi heq
    have hmid := hgt (by omega)
    refine ⟨hin.1, ?_⟩
    by_contra hbehind
    obtain hbehind | rfl := Nat.lt_or_eq_of_le (Nat.le_of_not_lt hbehind)
    · have horder := List.pairwise_iff_getElem.mp hsorted (l + k) i (by omega) hi hbehind
      omega
    · omega

/-- A search among `w` entries takes at most one turn more than there are. -/
theorem Window.search (h : Window hcmds command l w) (hsorted : Sorted hcmds) {fuel : Nat} (hfuel : w < fuel) :
    ∃ found, searchSorted hcmds command fuel l (l + w - 1 : Int) = some found ∧ Finds hcmds command found := by
  induction fuel generalizing l w with
  | zero => exact absurd hfuel (Nat.not_lt_zero w)
  | succ fuel ih =>
    rw [searchSorted]
    by_cases hempty : w = 0
    · subst hempty
      exact ⟨none, if_pos (by omega), h.empty⟩
    · have hinside := h.inside
      obtain ⟨k, hk⟩ : ∃ k : Nat, (k : Int) = ((l : Int) + w - 1 - l) % 2 ^ 32 / 2 :=
        ⟨(((l : Int) + w - 1 - l) % 2 ^ 32 / 2).toNat, Int.toNat_of_nonneg (by omega)⟩
      have hkw : k < w := by omega
      have hentry : entryAt hcmds (l + k : Int) = some (hcmds[l + k]) := by
        rw [← Int.natCast_add, entryAt_natCast, List.getElem?_eq_getElem]
      rw [if_neg (by omega)]
      simp only [← hk, hentry, Option.bind_eq_bind, Option.bind_some]
      split
      · next hlt =>
        have hnext := ih (h.upper hsorted hkw fun _ => hlt) (by omega)
        have hend : ((l + k + 1 : Nat) : Int) + (w - (k + 1) : Nat) - 1 = l + w - 1 := by omega
        rwa [hend] at hnext
      · next hge =>
        split
        · next hgt => exact ih (h.lower hsorted hkw fun _ => hgt) (by omega)
        · next hle => exact ⟨_, rfl, _, hentry, by omega⟩

theorem searchLinear_finds {rest : List Hcmd} (hrest : hcmds.drop i = rest)
    (hbefore : ∀ cmd ∈ hcmds.take i, cmd.command ≠ command) : Finds hcmds command (searchLinear command rest i) := by
  induction rest generalizing i with
  | nil =>
    intro cmd hcmd
    have hall : hcmds.take i = hcmds := List.take_of_length_le (List.drop_eq_nil_iff.mp hrest)
    exact hbefore cmd (hall.symm ▸ hcmd)
  | cons cmd rest ih =>
    have hlt : i < hcmds.length := by
      by_contra hge
      rw [List.drop_of_length_le (Nat.le_of_not_lt hge)] at hrest
      cases hrest
    rw [List.drop_eq_getElem_cons hlt] at hrest
    obtain ⟨hcmd, hrest⟩ := List.cons.inj hrest
    rw [searchLinear]
    split
    · next heq => exact ⟨cmd, by rw [entryAt_natCast, List.getElem?_eq_getElem hlt, hcmd], heq.symm⟩
    · next hne =>
      refine ih hrest fun other hother => ?_
      rw [← List.take_concat_get' hcmds i hlt, List.mem_append, List.mem_singleton] at hother
      rcases hother with hother | rfl
      · exact hbefore other hother
      · rw [hcmd]
        exact Ne.symm hne

theorem eq_of_command_eq {cmd cmd' : Hcmd} {m m' : Int} (hsorted : Sorted hcmds) (h : entryAt hcmds m = some cmd)
    (h' : entryAt hcmds m' = some cmd') (heq : cmd.command = cmd'.command) : m = m' := by
  unfold entryAt at h h'
  split at h
  · split at h'
    · obtain ⟨hlt, rfl⟩ := List.getElem?_eq_some_iff.mp h
      obtain ⟨hlt', rfl⟩ := List.getElem?_eq_some_iff.mp h'
      have horder := List.pairwise_iff_getElem.mp hsorted
      rcases Nat.lt_trichotomy m.toNat m'.toNat with hbefore | hsame | hbehind
      · exact absurd heq (Int.ne_of_lt (horder _ _ hlt hlt' hbefore))
      · omega
      · exact absurd heq.symm (Int.ne_of_lt (horder _ _ hlt' hlt hbehind))
    · cases h'
  · cases h

theorem mem_of_entryAt {m : Int} {cmd : Hcmd} (h : entryAt hcmds m = some cmd) : cmd ∈ hcmds := by
  unfold entryAt at h
  split at h
  · exact List.mem_of_getElem? h
  · cases h

theorem Finds.unique {found found' : Option Int} (hsorted : Sorted hcmds) (h : Finds hcmds command found)
    (h' : Finds hcmds command found') : found = found' := by
  cases found with
  | none =>
    cases found' with
    | none => rfl
    | some m' =>
      obtain ⟨cmd', hentry', heq'⟩ := h'
      exact absurd heq' (h cmd' (mem_of_entryAt hentry'))
  | some m =>
    obtain ⟨cmd, hentry, heq⟩ := h
    cases found' with
    | none => exact absurd heq (h' cmd (mem_of_entryAt hentry))
    | some m' =>
      obtain ⟨cmd', hentry', heq'⟩ := h'
      rw [eq_of_command_eq hsorted hentry hentry' (heq.trans heq'.symm)]

theorem searchLinear_finds_all (hcmds : List Hcmd) (command : Int) : Finds hcmds command (searchLinear command hcmds 0) :=
  searchLinear_finds (i := 0) rfl fun _ hcmd => absurd hcmd List.not_mem_nil

theorem searchSorted_eq (hsorted : Sorted hcmds) (command : Int) (fuel : Nat) :
    searchSorted hcmds command (fuel + hcmds.length + 1) 0 (hcmds.length - 1) = some (searchLinear command hcmds 0) := by
  obtain ⟨found, hsearch, hfinds⟩ :=
    (Window.start hcmds command).search hsorted (show hcmds.length < fuel + hcmds.length + 1 by omega)
  rw [Int.natCast_zero, Int.zero_add] at hsearch
  rw [hsearch, (searchLinear_finds_all hcmds command).unique hsorted hfinds]

end

/-- The binary search ends, and with what the loop over all entries finds: the entry with the number, if there is one. -/
theorem find_host_command_search (hcmds : List Hcmd) (command : Int) (hsorted : Sorted hcmds) (fuel : Nat) :
    searchSorted hcmds command (fuel + hcmds.length + 1) 0 (hcmds.length - 1) = some (searchLinear command hcmds 0) ∧
      Finds hcmds command (searchLinear command hcmds 0) :=
  ⟨searchSorted_eq hsorted command fuel, searchLinear_finds_all hcmds command⟩

def idle (command : Int) : Hcmd := ⟨⟨0, fun _ m => ⟨EC_RES_SUCCESS, 0, m⟩⟩, command⟩

/-- EC_CMD_PROTO_VERSION, EC_CMD_HELLO and EC_CMD_GET_VERSION. -/
def firstHcmds : List Hcmd := [idle 0x0000, idle 0x0001, idle 0x0002]

theorem find_host_command_search_hello :
    searchSorted firstHcmds 0x0001 4 0 2 = some (searchLinear 0x0001 firstHcmds 0) ∧
      Finds firstHcmds 0x0001 (searchLinear 0x0001 firstHcmds 0) :=
  find_host_command_search firstHcmds 0x0001 (by decide) 0

theorem findHostCommand_eq {hcmds : List Hcmd} (hsorted : Sorted hcmds) (command : Int) (b : LookupBuild)
    (systemIsInSafeMode : Bool) (fuel : Nat) :
    findHostCommand hcmds command b systemIsInSafeMode (fuel + hcmds.length + 1) =
      some (if b.systemSafeMode && systemIsInSafeMode && !commandIsAllowedInSafeMode command then none
        else searchLinear command hcmds 0) := by
  rw [findHostCommand]
  split
  · rfl
  split
  · rfl
  split
  · exact searchSorted_eq hsorted command fuel
  · rfl

end ChromeEc.HostCommand
