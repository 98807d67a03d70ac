import ChromeEc.JumpTag.Store

/- The vstore of `common/vstore.c`, and the jump to another image of `common/system.c`.

  The slots are kept as their bytes: the lock of a slot, and then its data. A jump to another
  image of the same configuration calls the hooks, of which that of the vstore is one, and
  then the initialisation of the new image.

  Correspondence (C ↔ Lean):
    `vstore_slots` ↔ `St.vstoreSlots`
    `*jdata` and the RAM in front of it ↔ `St.jump`
    `CONFIG_VSTORE_SLOT_COUNT` ↔ `Board.slotCount`
    `jump_to_image`, up to its end ↔ `prepareJump`, `hookSysjump`
    `system_common_pre_init` ↔ `preInit`

  A slot of the vstore that was written keeps its data and takes no other, across jumps to
  other images.

  The slots go through a jump as the data of one jump tag. A tag has at most 255 bytes, and
  the tags have only so much room, so that of the vstore may be refused, which nobody looks at:
  the new image starts with empty slots (`Fits`). -/
namespace ChromeEc.Vstore
open Lib JumpTag

/-- `EC_VSTORE_SLOT_SIZE`. -/
abbrev slotDataSize : Nat := 64

/-- `sizeof(struct vstore_slot)`. -/
abbrev slotSize : Nat := slotDataSize + 1

/-- `EC_VSTORE_SLOT_MAX`. -/
def slotMax : Nat := 32

def vstoreSysjumpTag : BitVec 16 := 0x5653
def vstoreHookVersion : Int := 1

/-- The jump data is in the RAM that is preserved. -/
structure Board where
  chip : JumpTag.Config
  slotCount : Nat
  slotCount_le : slotCount ≤ slotMax
  jdata : Nat
  jdata_ge : chip.jumpDataMinAddress ≤ jdata
  jdata_lt : jdata < 2 ^ 32

structure St where
  vstoreSlots : Bytes
  jump : JumpTag.St

section

variable (b : Board)

def St.initial (mem : Bytes) : St := ⟨fun _ => 0, ⟨some b.jdata, 0, 0, mem⟩⟩

def vstoreSize : Nat := slotSize * b.slotCount

/-- `enum ec_status`, as far as it is returned. -/
inductive EcStatus where
  | success
  | invalidParam
  | accessDenied
  deriving DecidableEq

/-! ## The host commands -/

def locked (s : St) (slot : Nat) : UInt8 := s.vstoreSlots (slotSize * slot)

def slotData (s : St) (slot : Nat) : List UInt8 := Memory.read s.vstoreSlots (slotSize * slot + 1) slotDataSize

def vstoreRead (slot : Nat) (s : St) : EcStatus × Option (List UInt8) :=
  if b.slotCount ≤ slot then (.invalidParam, none) else (.success, some (slotData s slot))

def vstoreWrite (slot : Nat) (data : Bytes) (s : St) : EcStatus × St :=
  if b.slotCount ≤ slot then (.invalidParam, s)
  else if locked s slot ≠ 0 then (.accessDenied, s)
  else
    let slots := Memory.copy s.vstoreSlots (slotSize * slot) 1 fun _ => 1
    (.success, { s with vstoreSlots := Memory.copy slots (slotSize * slot + 1) slotDataSize data })

def clearLock (slots : Bytes) (slot : Nat) : Bytes := Memory.copy slots (slotSize * slot) 1 fun _ => 0

def vstoreClearLock (s : St) : St :=
  { s with vstoreSlots := (List.range b.slotCount).foldl clearLock s.vstoreSlots }

/-! ## The jump -/

structure OtherTag extends AddCall where
  tag_ne : tag ≠ vstoreSysjumpTag

/-- The jump data is ready for tags. -/
def prepareJump (jump : JumpTag.St) : JumpTag.St := { jump with magic := jumpDataMagic, jumpTagTotal := 0 }

def addTags (calls : List OtherTag) (jump : JumpTag.St) : JumpTag.St :=
  calls.foldl (fun jump call => (call.toAddCall.result b.chip jump).2) jump

def vstoreCall (s : St) : AddCall := ⟨vstoreSysjumpTag, vstoreHookVersion, vstoreSize b, s.vstoreSlots⟩

def vstorePreserveState (s : St) (jump : JumpTag.St) : JumpTag.St := ((vstoreCall b s).result b.chip jump).2

/-- The hooks that come before that of the vstore, and those after it. -/
def hookSysjump (before after : List OtherTag) (s : St) : JumpTag.St :=
  addTags b after (vstorePreserveState b s (addTags b before (prepareJump s.jump)))

/-- The image was jumped to, by one with jump data of the same size. -/
def preInit (jump : JumpTag.St) : JumpTag.St :=
  match jump.jdata with
  | none => jump
  | some jdata =>
    if usableRamEnd jdata jump < b.chip.jumpDataMinAddress then { jump with magic := 0, jumpTagTotal := 0 }
    else { jump with magic := 0 }

/-- `none` if the search for the tag does not end. -/
def vstoreInit (s : St) : Option St :=
  match systemGetJumpTag b.chip (s.jump.jumpTagTotal + 1) vstoreSysjumpTag s.jump with
  | none => none
  | some none => some s
  | some (some found) =>
    if found.version = vstoreHookVersion ∧ found.size = vstoreSize b then
      some { s with vstoreSlots := Memory.copy s.vstoreSlots 0 (vstoreSize b) fun i => s.jump.mem (found.data + i) }
    else
      some s

/-- The slots of the new image are zero until `vstore_init`. -/
def sysjump (before after : List OtherTag) (s : St) : Option St :=
  vstoreInit b ⟨fun _ => 0, preInit b (hookSysjump b before after s)⟩

/-! ## Calls in any order -/

inductive Call where
  | read (slot : Nat)
  | write (slot : Nat) (data : Bytes)
  | sysjump (before after : List OtherTag)
  /-- The AP is reset. -/
  | clearLock

def step : Call → St → Option St
  | .read _, s => some s
  | .write slot data, s => some (vstoreWrite b slot data s).2
  | .sysjump before after, s => sysjump b before after s
  | .clearLock, s => some (vstoreClearLock b s)

end

/-! ## What is written -/

open Steps

variable {b : Board} {s s' : St} {jump : JumpTag.St} {es : List Entry} {call : Call}

/-- What was written in each slot since the last reset of the AP. -/
abbrev Written := Nat → Option (List UInt8)

def noted (b : Board) (w : Written) : St × Call → Written
  | (s, .write slot data) =>
    if (vstoreWrite b slot data s).1 = .success then
      fun i => if i = slot then some (Memory.read data 0 slotDataSize) else w i
    else w
  | (_, .clearLock) => fun _ => none
  | (_, .read _) => w
  | (_, .sysjump _ _) => w

/-- Each slot that was written gives its data, and refuses other data. -/
def Kept (b : Board) (w : Written) (s : St) : Prop :=
  ∀ slot data, w slot = some data → vstoreRead b slot s = (.success, some data) ∧
    ∀ other, vstoreWrite b slot other s = (.accessDenied, s)

def KeptAfter (b : Board) (w : Written) (x : St × Call) : Prop :=
  ∀ s', step b x.2 x.1 = some s' → Kept b (noted b w x) s'

/-- There is room for the tag of the vstore behind those of the hooks before it. -/
def Fits (b : Board) (before : List OtherTag) (s : St) : Prop :=
  vstoreSize b ≤ jumpTagMaxSize ∧ b.chip.jumpDataMinAddress + (roundup4 (vstoreSize b) + tagHeaderSize) ≤
    usableRamEnd b.jdata (addTags b before (prepareJump s.jump))

/-- A jump with a slot that was written has room for the tag. -/
def Carried (b : Board) (w : Written) : St × Call → Prop
  | (s, .sysjump before _) => (∃ slot data, w slot = some data) → Fits b before s
  | _ => True

/-! ## The jump -/

theorem Placed.length_le {jdata : Nat} (h : Placed b.chip jdata jump es) : es.length ≤ jump.jumpTagTotal := by
  have hle := h.total_le
  have hall := h.laid.length_le Entry.size_pos
  omega

structure Jumping (b : Board) (jump : JumpTag.St) (es : List Entry) : Prop where
  jdata : jump.jdata = some b.jdata
  magic : jump.magic = jumpDataMagic
  holding : Holding b.chip jump es

theorem result_magic {c : Config} (call : AddCall) : (call.result c jump).2.magic = jump.magic := by
  generalize hr : call.result c jump = r
  unfold AddCall.result systemAddJumpTag at hr
  split at hr
  · rw [← hr]
  · split at hr
    · rw [← hr]
    · split at hr
      · rw [← hr]
      · extract_lets at hr
        split at hr
        · rw [← hr]
        · rw [← hr]

theorem result_jdata {c : Config} (call : AddCall) : (call.result c jump).2.jdata = jump.jdata := by
  obtain ⟨-, hsame⟩ | ⟨jdata, hjdata, -, -, -, hjdata', -⟩ := add_cases c call jump
  · rw [hsame]
  · rw [hjdata', hjdata]

theorem Jumping.add (h : Jumping b jump es) (call : AddCall) :
    Jumping b (call.result b.chip jump).2 (pushed b.chip es (jump, call)) :=
  ⟨(result_jdata call).trans h.jdata, (result_magic call).trans h.magic, h.holding.push⟩

theorem jumping_prepared (hjdata : jump.jdata = some b.jdata) : Jumping b (prepareJump jump) [] := by
  refine ⟨hjdata, rfl, ?_⟩
  have hroom := b.chip.room
  have hge := b.jdata_ge
  unfold Holding
  rw [show (prepareJump jump).jdata = some b.jdata from hjdata]
  exact ⟨by omega, b.jdata_lt, Nat.zero_le _, fun hne => absurd rfl hne, Nat.sub_zero _⟩

theorem Jumping.success_iff (h : Jumping b jump es) (call : AddCall) : (call.result b.chip jump).1 = .success ↔
    call.size ≤ jumpTagMaxSize ∧
      b.chip.jumpDataMinAddress + (roundup4 call.size + tagHeaderSize) ≤ usableRamEnd b.jdata jump := by
  have hplaced : Placed b.chip b.jdata jump es := by
    have hholding := h.holding
    unfold Holding at hholding
    rwa [h.jdata] at hholding
  have hbelow := hplaced.below
  have hlt := hplaced.jdata_lt
  have hend := hplaced.usableRamEnd_eq
  unfold AddCall.result systemAddJumpTag
  rw [h.jdata]
  dsimp only
  rw [if_neg (not_not.mpr h.magic)]
  by_cases hlong : jumpTagMaxSize < call.size
  · rw [if_pos hlong]
    exact iff_of_false EcError.noConfusion fun hboth => by omega
  · have hfits : roundup4 call.size ≤ roundup4 jumpTagMaxSize := roundup4_mono (by omega)
    have hsub : sub32 (usableRamEnd b.jdata jump) (roundup4 call.size + tagHeaderSize) =
        usableRamEnd b.jdata jump - (roundup4 call.size + tagHeaderSize) :=
      sub32_of_le (by omega) (by omega)
    rw [if_neg hlong, hsub]
    split
    · exact iff_of_false EcError.noConfusion fun hboth => by omega
    · exact iff_of_true rfl ⟨by omega, by omega⟩

/-- Other modules add no tag of the vstore. -/
theorem addTags_jumping (h : Jumping b jump es) (calls : List OtherTag) :
    ∃ es', Jumping b (addTags b calls jump) es' ∧
      es'.find? (·.tag = vstoreSysjumpTag) = es.find? (·.tag = vstoreSysjumpTag) := by
  induction calls generalizing jump es with
  | nil => exact ⟨es, h, rfl⟩
  | cons call calls ih =>
    obtain ⟨es', hjumping, hfind⟩ := ih (h.add call.toAddCall)
    refine ⟨es', hjumping, hfind.trans ?_⟩
    unfold pushed
    split
    · have hother : call.toAddCall.entry.tag ≠ vstoreSysjumpTag := call.tag_ne
      exact List.find?_cons_of_neg (by simpa using hother)
    · rfl

/-- The tags of the whole jump: that of the vstore is there if it fits. -/
theorem hookSysjump_spec (before after : List OtherTag) (hjdata : s.jump.jdata = some b.jdata) :
    ∃ es, Jumping b (hookSysjump b before after s) es ∧
      (Fits b before s → es.find? (·.tag = vstoreSysjumpTag) = some (vstoreCall b s).entry) ∧
        (¬Fits b before s → es.find? (·.tag = vstoreSysjumpTag) = none) := by
  obtain ⟨es₁, hbefore, hnone⟩ := addTags_jumping (jumping_prepared hjdata) before
  obtain ⟨es, hafter, hfind⟩ := addTags_jumping (hbefore.add (vstoreCall b s)) after
  refine ⟨es, hafter, fun hfits => hfind.trans ?_, fun hfull => hfind.trans ?_⟩
  · rw [pushed, if_pos ((hbefore.success_iff (vstoreCall b s)).mpr hfits)]
    exact List.find?_cons_of_pos (decide_eq_true rfl)
  · rw [pushed, if_neg fun hsuccess => hfull ((hbefore.success_iff (vstoreCall b s)).mp hsuccess)]
    exact hnone

theorem preInit_holding (h : Jumping b jump es) :
    Holding b.chip (preInit b jump) es ∧ (preInit b jump).jdata = some b.jdata := by
  have hplaced : Placed b.chip b.jdata jump es := by
    have hholding := h.holding
    unfold Holding at hholding
    rwa [h.jdata] at hholding
  have hend := hplaced.usableRamEnd_eq
  unfold preInit
  rw [h.jdata]
  dsimp only
  split
  · rename_i hlow
    have hnil : es = [] := by
      by_contra hne
      have habove := hplaced.above hne
      omega
    have hempty : Placed b.chip b.jdata ⟨some b.jdata, 0, 0, jump.mem⟩ [] :=
      ⟨hplaced.room, hplaced.jdata_lt, Nat.zero_le _, fun hne => absurd rfl hne, Nat.sub_zero _⟩
    rw [hnil]
    exact ⟨hempty, rfl⟩
  · have hsame : Placed b.chip b.jdata ⟨some b.jdata, jump.jumpTagTotal, 0, jump.mem⟩ es :=
      ⟨hplaced.room, hplaced.jdata_lt, hplaced.total_le, hplaced.above, hplaced.laid⟩
    exact ⟨hsame, rfl⟩

/-- A jump always ends, with the slots if the tag fits and without them if it does not. -/
theorem sysjump_spec (before after : List OtherTag) (hjdata : s.jump.jdata = some b.jdata) :
    ∃ s', sysjump b before after s = some s' ∧ s'.jump.jdata = some b.jdata ∧
      (Fits b before s → ∀ a < vstoreSize b, s'.vstoreSlots a = s.vstoreSlots a) ∧
        (¬Fits b before s → s'.vstoreSlots = fun _ => 0) := by
  obtain ⟨es, hjumping, hfits, hfull⟩ := hookSysjump_spec before after hjdata
  obtain ⟨hholding, hjdata'⟩ := preInit_holding hjumping
  have hfuel : es.length < (preInit b (hookSysjump b before after s)).jumpTagTotal + 1 := by
    have hplaced := hholding
    unfold Holding at hplaced
    rw [hjdata'] at hplaced
    exact Nat.lt_succ_of_le (Placed.length_le hplaced)
  obtain ⟨hnone, hsome⟩ := @Holding.get _ _ vstoreSysjumpTag _ _ hholding hfuel
  unfold sysjump vstoreInit
  dsimp only
  by_cases hroom : Fits b before s
  · obtain ⟨data, hdata, hget⟩ := hsome _ (hfits hroom)
    have hlength : (vstoreCall b s).entry.data.length = vstoreSize b := AddCall.entry_length _
    have hversion : (((vstoreCall b s).entry.version.toNat : Nat) : Int) = vstoreHookVersion := rfl
    rw [hget, hlength, hversion]
    dsimp only
    rw [if_pos ⟨rfl, rfl⟩]
    refine ⟨_, rfl, hjdata', fun _ a ha => ?_, fun hno => absurd hroom hno⟩
    have hbytes := Memory.read_eq_iff.mp hdata a (hlength.symm ▸ ha)
    calc Memory.copy (fun _ => 0) 0 (vstoreSize b) (fun i => (preInit b (hookSysjump b before after s)).mem (data + i)) a
        = (preInit b (hookSysjump b before after s)).mem (data + a) := by
          have hinside := @Memory.copy_inside _ (fun _ => (0 : UInt8)) 0 _ _
            (fun i => (preInit b (hookSysjump b before after s)).mem (data + i)) ha
          rwa [Nat.zero_add] at hinside
      _ = (vstoreCall b s).entry.data.get ⟨a, hlength.symm ▸ ha⟩ := hbytes
      _ = s.vstoreSlots a := by simp [AddCall.entry, Memory.read, vstoreCall]
  · rw [hnone (hfull hroom)]
    exact ⟨_, rfl, hjdata', fun hyes => absurd hyes hroom, fun _ => rfl⟩

/-! ## The slots -/

structure Holds (b : Board) (s : St) (w : Written) : Prop where
  jdata : s.jump.jdata = some b.jdata
  slots : ∀ slot data, w slot = some data → slot < b.slotCount ∧ locked s slot ≠ 0 ∧ slotData s slot = data

theorem Holds.kept {w : Written} (h : Holds b s w) : Kept b w s := by
  intro slot data hw
  obtain ⟨hlt, hlocked, hdata⟩ := h.slots slot data hw
  have hvalid : ¬b.slotCount ≤ slot := Nat.not_le_of_lt hlt
  constructor
  · rw [vstoreRead, if_neg hvalid, hdata]
  · intro other
    rw [vstoreWrite, if_neg hvalid, if_pos hlocked]

theorem slotSize_eq : slotSize = 65 := rfl

theorem apart {slot i a : Nat} (hne : i ≠ slot) (hlo : slotSize * i ≤ a) (hhi : a < slotSize * i + slotSize) :
    a < slotSize * slot ∨ slotSize * slot + slotSize ≤ a := by
  rw [slotSize_eq] at *
  omega

theorem slot_congr {slot : Nat}
    (h : ∀ a, slotSize * slot ≤ a → a < slotSize * slot + slotSize → s'.vstoreSlots a = s.vstoreSlots a) :
    locked s' slot = locked s slot ∧ slotData s' slot = slotData s slot := by
  have hsize : slotSize = slotDataSize + 1 := rfl
  constructor
  · exact h _ (Nat.le_refl _) (by omega)
  · exact Memory.read_congr fun a hlo hhi => h a (by omega) (by omega)

theorem write_slots {slot : Nat} {data : Bytes} (h : (vstoreWrite b slot data s).1 = .success) :
    slot < b.slotCount ∧ locked (vstoreWrite b slot data s).2 slot ≠ 0 ∧
      slotData (vstoreWrite b slot data s).2 slot = Memory.read data 0 slotDataSize ∧
        ∀ i, i ≠ slot → locked (vstoreWrite b slot data s).2 i = locked s i ∧
          slotData (vstoreWrite b slot data s).2 i = slotData s i := by
  unfold vstoreWrite at h ⊢
  split at h
  · cases h
  · rename_i hvalid
    split at h
    · cases h
    · rename_i hopen
      rw [if_neg hvalid, if_neg hopen]
      refine ⟨Nat.lt_of_not_le hvalid, ?_, ?_, fun i hne => slot_congr fun a hlo hhi => ?_⟩
      · unfold locked
        dsimp only
        rw [Memory.copy_of_lt (Nat.lt_succ_self _)]
        have hset := @Memory.copy_inside _ s.vstoreSlots (slotSize * slot) _ _ (fun _ => (1 : UInt8)) Nat.one_pos
        rw [Nat.add_zero] at hset
        rw [hset]
        decide
      · unfold slotData Memory.read
        refine List.map_congr_left fun k hk => ?_
        rw [Nat.zero_add]
        exact Memory.copy_inside (List.mem_range.mp hk)
      · dsimp only
        obtain hbefore | hbehind := apart hne hlo hhi
        · rw [Memory.copy_of_lt (by omega), Memory.copy_of_lt hbefore]
        · rw [slotSize_eq] at *
          rw [Memory.copy_of_ge (by omega), Memory.copy_of_ge (by omega)]

theorem write_jump {slot : Nat} {data : Bytes} : (vstoreWrite b slot data s).2.jump = s.jump := by
  unfold vstoreWrite
  split
  · rfl
  · split <;> rfl

theorem write_refused {slot : Nat} {data : Bytes} (h : (vstoreWrite b slot data s).1 ≠ .success) :
    (vstoreWrite b slot data s).2 = s := by
  unfold vstoreWrite at h ⊢
  split at h
  · rename_i hinvalid
    rw [if_pos hinvalid]
  · rename_i hvalid
    split at h
    · rename_i hlocked
      rw [if_neg hvalid, if_pos hlocked]
    · exact absurd rfl h

theorem holds_step {w : Written} (hholds : Holds b s w) (hok : Carried b w (s, call)) (h : step b call s = some s') :
    Holds b s' (noted b w (s, call)) := by
  cases call with
  | read slot =>
    obtain rfl := Option.some.inj h
    exact hholds
  | write slot data =>
    obtain rfl := Option.some.inj h
    dsimp only [noted]
    by_cases hsuccess : (vstoreWrite b slot data s).1 = .success
    · obtain ⟨hlt, hlocked, hdata, hothers⟩ := write_slots hsuccess
      rw [if_pos hsuccess]
      refine ⟨(congrArg JumpTag.St.jdata write_jump).trans hholds.jdata, fun i d hw => ?_⟩
      by_cases hi : i = slot
      · subst hi
        rw [if_pos rfl] at hw
        obtain rfl := Option.some.inj hw
        exact ⟨hlt, hlocked, hdata⟩
      · rw [if_neg hi] at hw
        obtain ⟨hlocked', hdata'⟩ := hothers i hi
        rw [hlocked', hdata']
        exact hholds.slots i d hw
    · rw [if_neg hsuccess]
      exact (write_refused hsuccess).symm ▸ hholds
  | sysjump before after =>
    obtain ⟨t, ht, hjdata, hfits, -⟩ := sysjump_spec before after hholds.jdata
    obtain rfl := Option.some.inj (h.symm.trans ht)
    refine ⟨hjdata, fun slot data hw => ?_⟩
    obtain ⟨hlt, hlocked, hdata⟩ := hholds.slots slot data hw
    have hsame := hfits (hok ⟨slot, data, hw⟩)
    have hin : slotSize * slot + slotSize ≤ vstoreSize b := by
      rw [← Nat.mul_succ]
      exact Nat.mul_le_mul_left _ hlt
    obtain ⟨hlocked', hdata'⟩ := slot_congr fun a _ hhi => hsame a (Nat.lt_of_lt_of_le hhi hin)
    rw [hlocked', hdata']
    exact ⟨hlt, hlocked, hdata⟩
  | clearLock =>
    obtain rfl := Option.some.inj h
    exact ⟨hholds.jdata, fun _ _ hw => by cases hw⟩

theorem keptAfter_iff {w : Written} (hholds : Holds b s w) (h : step b call s = some s') :
    KeptAfter b w (s, call) ↔ Carried b w (s, call) := by
  refine ⟨fun hkept => ?_, fun hok t ht => ?_⟩
  case refine_2 =>
    obtain rfl := Option.some.inj (h.symm.trans ht)
    exact (holds_step hholds hok h).kept
  case refine_1 =>
    cases call with
    | read => exact trivial
    | write => exact trivial
    | clearLock => exact trivial
    | sysjump before after =>
      rintro ⟨slot, data, hw⟩
      by_contra hfull
      obtain ⟨t, ht, -, -, hlost⟩ := sysjump_spec before after hholds.jdata
      -- the slot is open again
      have hopen : ¬locked t slot ≠ 0 := by
        rw [locked, hlost hfull]
        exact not_not.mpr rfl
      have hvalid : ¬b.slotCount ≤ slot := Nat.not_le_of_lt (hholds.slots slot data hw).1
      have hdenied := (hkept t ht slot data hw).2 fun _ => 0
      rw [vstoreWrite, if_neg hvalid, if_neg hopen] at hdenied
      cases hdenied

/-! ## Runs -/

theorem holds_initial (mem : Bytes) : Holds b (.initial b mem) fun _ => none := ⟨rfl, fun _ _ hw => by cases hw⟩

theorem always_kept_iff {mem : Bytes} {l : List (St × Call)} (h : Run (step b) (.initial b mem) l s) :
    Always (noted b) (KeptAfter b) (fun _ => none) l ↔ Always (noted b) (Carried b) (fun _ => none) l :=
  Run.always_iff (R := Holds b) (holds_initial mem) (fun _ _ _ _ => holds_step) (fun _ _ _ _ => keptAfter_iff) h

theorem run_jdata {mem : Bytes} {l : List (St × Call)} (h : Run (step b) (.initial b mem) l s) :
    s.jump.jdata = some b.jdata := by
  refine Run.holds (P := fun s => s.jump.jdata = some b.jdata) rfl ?_ h
  intro s call s' hjdata hstep
  cases call with
  | read =>
    obtain rfl := Option.some.inj hstep
    exact hjdata
  | write =>
    obtain rfl := Option.some.inj hstep
    exact (congrArg JumpTag.St.jdata write_jump).trans hjdata
  | sysjump before after =>
    obtain ⟨t, ht, hjdata', -⟩ := sysjump_spec before after hjdata
    obtain rfl := Option.some.inj (hstep.symm.trans ht)
    exact hjdata'
  | clearLock =>
    obtain rfl := Option.some.inj hstep
    exact hjdata

/-- Every call of a run can be made, and all the states of the run keep what was written exactly when each jump with a
slot that was written has room for the tag of the vstore. -/
theorem write_once {mem : Bytes} {l : List (St × Call)} (h : Run (step b) (.initial b mem) l s) :
    (∀ call, (step b call s).isSome) ∧
      (Always (noted b) (KeptAfter b) (fun _ => none) l ↔ Always (noted b) (Carried b) (fun _ => none) l) := by
  refine ⟨fun call => ?_, always_kept_iff h⟩
  cases call with
  | read => rfl
  | write => rfl
  | clearLock => rfl
  | sysjump before after =>
    obtain ⟨t, ht, -⟩ := sysjump_spec before after (run_jdata h)
    rw [step, ht]
    rfl

/-- A board with the RAM of the chip, and some slots. -/
def exampleBoard (slotCount : Nat) (h : slotCount ≤ slotMax) : Board :=
  ⟨JumpTag.chip, slotCount, h, 0x2000ffe8, by decide, by decide⟩

def threeSlots : Board := exampleBoard 3 (by decide)

def fourSlots : Board := exampleBoard 4 (by decide)

/-- A slot is written, and the EC goes from RO to RW. -/
def writesAndJumps : List Call := [.write 0 fun _ => 0x5a, .sysjump [] [], .read 0]

def written (b : Board) : St := (vstoreWrite b 0 (fun _ => 0x5a) (.initial b fun _ => 0)).2

theorem write_once_three : ∃ l s, Run (step threeSlots) (.initial threeSlots fun _ => 0) l s ∧
    l.map Prod.snd = writesAndJumps ∧ Always (noted threeSlots) (KeptAfter threeSlots) (fun _ => none) l := by
  obtain ⟨s, hjump, -⟩ := sysjump_spec (b := threeSlots) (s := written threeSlots) [] [] rfl
  have hwrite : step threeSlots (.write 0 fun _ => 0x5a) (.initial threeSlots fun _ => 0) =
    some (written threeSlots) := rfl
  have hnext : step threeSlots (.sysjump [] []) (written threeSlots) = some s := hjump
  have hread : step threeSlots (.read 0) s = some s := rfl
  have run := Run.step (.step (.step .start hwrite) hnext) hread
  have hfits : Fits threeSlots [] (written threeSlots) := ⟨by decide, by decide +kernel⟩
  exact ⟨_, s, run, rfl, (write_once run).2.mpr ⟨trivial, fun _ => hfits, trivial, trivial⟩⟩

theorem four_slots_lost : ∃ l s, Run (step fourSlots) (.initial fourSlots fun _ => 0) l s ∧
    l.map Prod.snd = [.write 0 fun _ => 0x5a, .sysjump [] []] ∧
      ¬Always (noted fourSlots) (KeptAfter fourSlots) (fun _ => none) l := by
  obtain ⟨s, hjump, -⟩ := sysjump_spec (b := fourSlots) (s := written fourSlots) [] [] rfl
  have hwrite : step fourSlots (.write 0 fun _ => 0x5a) (.initial fourSlots fun _ => 0) = some (written fourSlots) := rfl
  have hnext : step fourSlots (.sysjump [] []) (written fourSlots) = some s := hjump
  have run := Run.step (.step .start hwrite) hnext
  refine ⟨_, s, run, rfl, fun hkept => ?_⟩
  obtain ⟨-, hcarried, -⟩ := (always_kept_iff run).mp hkept
  -- 260 bytes are too many for a tag
  have hlong : ¬vstoreSize fourSlots ≤ jumpTagMaxSize := by decide
  have hwritten : noted fourSlots (fun _ => none) (.initial fourSlots fun _ => 0, .write 0 fun _ => 0x5a) 0 =
      some (Memory.read (fun _ => 0x5a) 0 slotDataSize) := rfl
  exact hlong (hcarried ⟨0, _, hwritten⟩).1

end ChromeEc.Vstore
