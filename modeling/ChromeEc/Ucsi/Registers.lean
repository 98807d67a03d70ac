import Mathlib.Algebra.Group.Nat.Defs
import ChromeEc.Lib.Memory
import ChromeEc.Ucsi.Model

/- The register window of the PPM: ucsi_ppm_read and ucsi_ppm_write of subsys/ucsi/ppm_common.c.

  Here struct ucsi_memory_region is bytes of the memory, so that a copy that leaves it can be said. A
  call is one step; what the PPM thread may do between the two locked parts of
  ppm_common_handle_control_message is in the model of the state machine, and
  `Represents.controlMessage` connects the two. `unsigned int` and `size_t` have 32 bits.

  A read or a write is meant to be taken exactly where it lies inside its registers (`ReadMeets`,
  `WriteMeets`). The bounds of a read refuse the last byte of the window, and both sums may pass
  2^32: `ucsiPpmRead_meets_iff` and `ucsiPpmWrite_meets_iff` say when that does no harm. The host
  command EC_CMD_UCSI_PPM_SET passes `params_size - 2`, also for a request that is shorter. -/
namespace ChromeEc.Ucsi
open ChromeEc.Lib.Memory

def ucsiCciOffset : Nat := 4
def ucsiControlOffset : BitVec 32 := 8
def ucsiMessageOutOffset : BitVec 32 := 272
def messageOutSize : BitVec 32 := 255
/-- sizeof(struct ucsi_control_t) -/
def controlSize : BitVec 32 := 8
/-- sizeof(struct ucsi_memory_region) -/
def memoryRegionSize : BitVec 32 := 528

def einval : Int := 22
def ebusy : Int := 16

/-- What the two functions use of struct ucsi_ppm_device. -/
structure Ppm where
  memory : Nat → BitVec 8
  ucsiData : Nat
  command : Bool
  region_fits : ucsiData + memoryRegionSize.toNat ≤ 2 ^ 32

namespace Ppm

variable (dev : Ppm)

/-- The address `offset` bytes behind the start of ucsi_data. -/
def address (offset : BitVec 32) : Nat := (dev.ucsiData + offset.toNat) % 2 ^ 32

def byte (i : Nat) : BitVec 8 := dev.memory (dev.ucsiData + i)

/-- struct ucsi_memory_region -/
def window : List (BitVec 8) := read dev.memory dev.ucsiData memoryRegionSize.toNat

/-- ucsi_data.cci.busy, bit 28 of the CCI -/
def cciBusy : Bool := (dev.byte (ucsiCciOffset + 3)).getLsbD 4

end Ppm

/-- The return value, and what is copied to the buffer. -/
def ucsiPpmRead (dev : Ppm) (offset length : BitVec 32) : Int × List (BitVec 8) :=
  if memoryRegionSize ≤ offset + length then (-einval, [])
  else (length.toInt, read dev.memory (dev.address offset) length.toNat)

def ppmCommonHandleControlMessage (dev : Ppm) (buf : Nat → BitVec 8) (length : BitVec 32) : Int × Ppm :=
  if controlSize < length then (-einval, dev)
  else
    let busy := dev.command || dev.cciBusy
    let command := buf 0
    if busy ∧ command ≠ ucsiCancel then (-ebusy, dev)
    else if ¬busy ∧ command = ucsiCancel then (-einval, dev)
    else
      let control := dev.address ucsiControlOffset
      let memory := if length ≠ controlSize then fill dev.memory control controlSize.toNat 0 else dev.memory
      (0, { dev with memory := copy memory control length.toNat buf, command := true })

/-- `buf` is `none` for NULL. -/
def ucsiPpmWrite (dev : Ppm) (offset : BitVec 32) (buf : Option (Nat → BitVec 8)) (length : BitVec 32) : Int × Ppm :=
  match buf with
  | none => (-einval, dev)
  | some buf =>
    if length = 0 then (-einval, dev)
    else
      let validFixedOffset := offset = ucsiControlOffset
      if ¬validFixedOffset ∧ ¬(ucsiMessageOutOffset ≤ offset ∧ offset < ucsiMessageOutOffset + messageOutSize) then
        (-einval, dev)
      else if offset = ucsiControlOffset then ppmCommonHandleControlMessage dev buf length
      else if ucsiMessageOutOffset ≤ offset ∧ ucsiMessageOutOffset + messageOutSize < offset + length then (-einval, dev)
      else
        let dst := dev.address (ucsiMessageOutOffset + (offset - ucsiMessageOutOffset))
        (0, { dev with memory := copy dev.memory dst length.toNat buf })

/-! ## What they are meant to do -/

/-- A read inside the window gives the bytes there. Any other read fails and copies nothing. -/
def ReadMeets (dev : Ppm) (offset length : BitVec 32) : Prop :=
  if offset.toNat + length.toNat ≤ memoryRegionSize.toNat then
    ucsiPpmRead dev offset length = (↑length.toNat, (dev.window.drop offset.toNat).take length.toNat)
  else (ucsiPpmRead dev offset length).1 < 0 ∧ (ucsiPpmRead dev offset length).2 = []

inductive Register where
  | control
  | messageOut

namespace Register

def offset : Register → Nat
  | control => ucsiControlOffset.toNat
  | messageOut => ucsiMessageOutOffset.toNat

def size : Register → Nat
  | control => controlSize.toNat
  | messageOut => messageOutSize.toNat

theorem end_le (r : Register) : r.offset + r.size ≤ 527 := by
  cases r <;> decide

/-- The bytes of the register that a write into it does not give. The rest of a short control message
is zero. -/
def remaining : Register → BitVec 8 → BitVec 8
  | control, _ => 0
  | messageOut, b => b

/-- A message for the CONTROL register is a command. -/
def pending : Register → Bool → Bool
  | control, _ => true
  | messageOut, command => command

end Register

/-- A write of `length` bytes into the register, and nothing else. -/
structure Written (r : Register) (offset length : Nat) (buf : Nat → BitVec 8) (dev dev' : Ppm) : Prop where
  inside : r.offset ≤ offset ∧ offset + length ≤ r.offset + r.size
  place : dev'.ucsiData = dev.ucsiData
  data : ∀ i < length, dev'.byte (offset + i) = buf i
  remaining : ∀ i, r.offset ≤ i → i < r.offset + r.size → ¬(offset ≤ i ∧ i < offset + length) →
    dev'.byte i = r.remaining (dev.byte i)
  elsewhere : ∀ a, ¬(dev.ucsiData + r.offset ≤ a ∧ a < dev.ucsiData + r.offset + r.size) → dev'.memory a = dev.memory a
  command : dev'.command = r.pending dev.command

/-- What is accepted lies inside one of the registers and changes nothing else, and what is refused
changes nothing. -/
def WriteMeets (dev : Ppm) (offset : BitVec 32) (buf : Option (Nat → BitVec 8)) (length : BitVec 32) : Prop :=
  let (ret, dev') := ucsiPpmWrite dev offset buf length
  if ret = 0 then ∃ b, buf = some b ∧ ∃ r, Written r offset.toNat length.toNat b dev dev' else dev' = dev

/-- The sum is neither the size of the window nor so large that it begins anew below that size. -/
def ReadFits (offset length : BitVec 32) : Prop :=
  offset.toNat + length.toNat ≠ memoryRegionSize.toNat ∧
    ¬(2 ^ 32 ≤ offset.toNat + length.toNat ∧ offset.toNat + length.toNat < 2 ^ 32 + memoryRegionSize.toNat)

/-- A write that begins in MESSAGE_OUT ends before 2^32. -/
def WriteFits (offset : BitVec 32) (buf : Option (Nat → BitVec 8)) (length : BitVec 32) : Prop :=
  buf ≠ none → ucsiMessageOutOffset ≤ offset → offset < ucsiMessageOutOffset + messageOutSize →
    offset.toNat + length.toNat < 2 ^ 32

/-! ## Reads -/

variable {dev dev' : Ppm} {offset length : BitVec 32} {buf : Nat → BitVec 8}

theorem Ppm.address_inside (dev : Ppm) (h : offset.toNat < memoryRegionSize.toNat) :
    dev.address offset = dev.ucsiData + offset.toNat :=
  Nat.mod_eq_of_lt (Nat.lt_of_lt_of_le (Nat.add_lt_add_left h _) dev.region_fits)

theorem ucsiPpmRead_refused (h : memoryRegionSize ≤ offset + length) : ucsiPpmRead dev offset length = (-einval, []) :=
  if_pos h

theorem ucsiPpmRead_accepted (h : ¬memoryRegionSize ≤ offset + length) :
    ucsiPpmRead dev offset length = (length.toInt, read dev.memory (dev.address offset) length.toNat) :=
  if_neg h

theorem ucsiPpmRead_inside (h : offset.toNat + length.toNat < memoryRegionSize.toNat) :
    ucsiPpmRead dev offset length = (↑length.toNat, (dev.window.drop offset.toNat).take length.toNat) := by
  have hsize : memoryRegionSize.toNat = 528 := rfl
  have haccepted : ¬memoryRegionSize ≤ offset + length := by
    rw [BitVec.le_def, BitVec.toNat_add]
    omega
  have hint : length.toInt = length.toNat := BitVec.toInt_eq_toNat_of_lt (by omega)
  rw [ucsiPpmRead_accepted haccepted, hint, dev.address_inside (by omega), Ppm.window, take_drop_read (by omega)]

/-- The read that would end with the last byte of the window, and a read whose end wraps around, are
the two kinds that go wrong. -/
theorem ucsiPpmRead_meets_iff : ReadMeets dev offset length ↔ ReadFits offset length := by
  have hsize : memoryRegionSize.toNat = 528 := rfl
  have hoffset := offset.isLt
  have hlength := length.isLt
  rcases Nat.lt_trichotomy (offset.toNat + length.toNat) memoryRegionSize.toNat with hlt | heq | hgt
  · rw [ReadMeets, if_pos (Nat.le_of_lt hlt), ReadFits]
    refine iff_of_true (ucsiPpmRead_inside hlt) ⟨Nat.ne_of_lt hlt, ?_⟩
    omega
  · have hrefused : memoryRegionSize ≤ offset + length := by
      rw [BitVec.le_def, BitVec.toNat_add]
      omega
    rw [ReadMeets, if_pos (Nat.le_of_eq heq), ucsiPpmRead_refused hrefused]
    refine iff_of_false (fun h => ?_) (fun h => h.1 heq)
    have hret := congrArg Prod.fst h
    simp only [einval] at hret
    omega
  · rw [ReadMeets, if_neg (Nat.not_le_of_lt hgt)]
    by_cases hwraps : 2 ^ 32 ≤ offset.toNat + length.toNat ∧ offset.toNat + length.toNat < 2 ^ 32 + memoryRegionSize.toNat
    · have haccepted : ¬memoryRegionSize ≤ offset + length := by
        rw [BitVec.le_def, BitVec.toNat_add]
        omega
      rw [ucsiPpmRead_accepted haccepted]
      refine iff_of_false (fun h => ?_) (fun h => h.2 hwraps)
      -- something is copied
      have hcopied := congrArg List.length h.2
      rw [length_read, List.length_nil] at hcopied
      omega
    · have hrefused : memoryRegionSize ≤ offset + length := by
        rw [BitVec.le_def, BitVec.toNat_add]
        omega
      rw [ucsiPpmRead_refused hrefused]
      exact iff_of_true ⟨by decide, rfl⟩ ⟨Nat.ne_of_gt hgt, hwraps⟩

/-! ## Writes -/

/-- What a control message leaves in the memory, whether or not it is short. -/
theorem controlMemory_eq (m : Nat → BitVec 8) (control : Nat) :
    copy (if length ≠ controlSize then fill m control controlSize.toNat 0 else m) control length.toNat buf =
      copy (fill m control controlSize.toNat 0) control length.toNat buf := by
  split
  · rfl
  · rename_i hfull
    rw [not_not.mp hfull, fill, copy_copy]

theorem written_control (h : length.toNat ≤ controlSize.toNat) :
    Written .control ucsiControlOffset.toNat length.toNat buf dev
      { dev with
        memory := copy (fill dev.memory (dev.ucsiData + ucsiControlOffset.toNat) controlSize.toNat 0)
          (dev.ucsiData + ucsiControlOffset.toNat) length.toNat buf
        command := true } where
  inside := ⟨Nat.le_refl _, Nat.add_le_add_left h _⟩
  place := rfl
  data i hi := by
    rw [Ppm.byte, ← Nat.add_assoc]
    exact copy_inside hi
  remaining i hlo hhi hout := by
    simp only [Register.offset, Register.size] at hlo hhi
    obtain ⟨k, rfl⟩ := Nat.exists_eq_add_of_le hlo
    have hbehind : dev.ucsiData + ucsiControlOffset.toNat + length.toNat ≤
      dev.ucsiData + ucsiControlOffset.toNat + k := by omega
    rw [Ppm.byte, ← Nat.add_assoc]
    exact (copy_of_ge hbehind).trans (copy_inside (by omega))
  elsewhere a hout := by
    simp only [Register.offset, Register.size] at hout
    rcases Nat.lt_or_ge a (dev.ucsiData + ucsiControlOffset.toNat) with hbelow | habove
    · exact (copy_of_lt hbelow).trans (copy_of_lt hbelow)
    · have hbehind : dev.ucsiData + ucsiControlOffset.toNat + controlSize.toNat ≤ a := by omega
      exact (copy_of_ge (by omega)).trans (copy_of_ge hbehind)
  command := rfl

theorem written_messageOut {offset length : Nat} (hlo : Register.messageOut.offset ≤ offset)
    (hhi : offset + length ≤ Register.messageOut.offset + Register.messageOut.size) :
    Written .messageOut offset length buf dev
      { dev with memory := copy dev.memory (dev.ucsiData + offset) length buf } where
  inside := ⟨hlo, hhi⟩
  place := rfl
  data i hi := by
    rw [Ppm.byte, ← Nat.add_assoc]
    exact copy_inside hi
  remaining i _ _ hout := by
    rcases Nat.lt_or_ge i offset with hbelow | habove
    · exact copy_of_lt (Nat.add_lt_add_left hbelow _)
    · have hbehind : dev.ucsiData + offset + length ≤ dev.ucsiData + i := by omega
      exact copy_of_ge hbehind
  elsewhere a hout := by
    rcases Nat.lt_or_ge a (dev.ucsiData + offset) with hbelow | habove
    · exact copy_of_lt hbelow
    · exact copy_of_ge (by omega)
  command := rfl

/-- A control message that is taken: a cancel while the PPM is busy, anything else while it is not. -/
def Ppm.takesControl (dev : Ppm) (buf : Nat → BitVec 8) (length : BitVec 32) : Prop :=
  length ≤ controlSize ∧ ((dev.command || dev.cciBusy) = true ↔ buf 0 = ucsiCancel)

theorem controlMessage_taken (h : dev.takesControl buf length) :
    (ppmCommonHandleControlMessage dev buf length).1 = 0 ∧
      Written .control ucsiControlOffset.toNat length.toNat buf dev (ppmCommonHandleControlMessage dev buf length).2 := by
  obtain ⟨hsize, hbusy⟩ := h
  have hplace : dev.address ucsiControlOffset = dev.ucsiData + ucsiControlOffset.toNat := dev.address_inside (by decide)
  simp only [ppmCommonHandleControlMessage]
  rw [if_neg (BitVec.not_lt.mpr hsize), if_neg (fun hrefused => hrefused.2 (hbusy.mp hrefused.1)),
    if_neg (fun hrefused => hrefused.1 (hbusy.mpr hrefused.2))]
  refine ⟨rfl, ?_⟩
  simp only [controlMemory_eq, hplace]
  exact written_control hsize

theorem controlMessage_refused (h : ¬dev.takesControl buf length) :
    ∃ ret, ret ≠ 0 ∧ ppmCommonHandleControlMessage dev buf length = (ret, dev) := by
  simp only [ppmCommonHandleControlMessage]
  split
  · exact ⟨-einval, by decide, rfl⟩
  · rename_i hsize
    split
    · exact ⟨-ebusy, by decide, rfl⟩
    · rename_i hnotBusy
      split
      · exact ⟨-einval, by decide, rfl⟩
      · rename_i hnotCancel
        refine absurd ⟨BitVec.not_lt.mp hsize, ⟨fun hbusy => ?_, fun hcancel => ?_⟩⟩ h
        · by_contra hother
          exact hnotBusy ⟨hbusy, hother⟩
        · by_contra hidle
          exact hnotCancel ⟨hidle, hcancel⟩

def InMessageOut (offset : BitVec 32) : Prop :=
  ucsiMessageOutOffset ≤ offset ∧ offset < ucsiMessageOutOffset + messageOutSize

theorem InMessageOut.bounds (h : InMessageOut offset) : 272 ≤ offset.toNat ∧ offset.toNat < 527 := h

theorem InMessageOut.ne_control (h : InMessageOut offset) : offset ≠ ucsiControlOffset := by
  rintro rfl
  exact absurd h.1 (by decide)

theorem ucsiPpmWrite_zero : ucsiPpmWrite dev offset (some buf) 0 = (-einval, dev) := rfl

theorem ucsiPpmWrite_control (h : length ≠ 0) :
    ucsiPpmWrite dev ucsiControlOffset (some buf) length = ppmCommonHandleControlMessage dev buf length := by
  rw [ucsiPpmWrite, if_neg h]
  simp

theorem ucsiPpmWrite_elsewhere (hcontrol : offset ≠ ucsiControlOffset) (hout : ¬InMessageOut offset) :
    ucsiPpmWrite dev offset (some buf) length = (-einval, dev) := by
  rw [ucsiPpmWrite]
  split
  · rfl
  · exact if_pos ⟨hcontrol, hout⟩

theorem ucsiPpmWrite_messageOut (dev : Ppm) (buf : Nat → BitVec 8) (h : InMessageOut offset) (hlength : length ≠ 0) :
    ucsiPpmWrite dev offset (some buf) length =
      if ucsiMessageOutOffset + messageOutSize < offset + length then (-einval, dev)
      else (0, { dev with memory := copy dev.memory (dev.ucsiData + offset.toNat) length.toNat buf }) := by
  have hback : ucsiMessageOutOffset + (offset - ucsiMessageOutOffset) = offset := by
    rw [BitVec.add_comm, BitVec.sub_add_cancel]
  have hinside : offset.toNat < memoryRegionSize.toNat := Nat.lt_trans h.bounds.2 (by decide)
  simp only [ucsiPpmWrite, hback, dev.address_inside hinside]
  rw [if_neg hlength, if_neg (fun hwrong => hwrong.2 h), if_neg h.ne_control]
  simp only [h.1, true_and]

theorem writeMeets_refused {b : Option (Nat → BitVec 8)} {ret : Int} (hret : ret ≠ 0)
    (h : ucsiPpmWrite dev offset b length = (ret, dev)) : WriteMeets dev offset b length := by
  simp [WriteMeets, h, hret]

theorem writeMeets_control (h : length ≠ 0) : WriteMeets dev ucsiControlOffset (some buf) length := by
  by_cases htaken : dev.takesControl buf length
  · obtain ⟨hret, hwritten⟩ := controlMessage_taken htaken
    simp only [WriteMeets, ucsiPpmWrite_control h, hret, if_true]
    exact ⟨buf, rfl, .control, hwritten⟩
  · obtain ⟨ret, hret, heq⟩ := controlMessage_refused htaken
    exact writeMeets_refused hret ((ucsiPpmWrite_control h).trans heq)

theorem behind_messageOut_iff :
    ucsiMessageOutOffset + messageOutSize < offset + length ↔ 527 < (offset.toNat + length.toNat) % 2 ^ 32 := by
  rw [BitVec.lt_def, BitVec.toNat_add offset]
  rfl

/-- Behind the end of MESSAGE_OUT nothing is written, unless the end wraps around: then the write is
taken, and it leaves the register. -/
theorem writeMeets_messageOut_iff (h : InMessageOut offset) (hlength : length ≠ 0) :
    WriteMeets dev offset (some buf) length ↔ offset.toNat + length.toNat < 2 ^ 32 := by
  have hbounds := h.bounds
  have hlt := length.isLt
  have hwrite := ucsiPpmWrite_messageOut dev buf h hlength
  rcases Nat.lt_or_ge (offset.toNat + length.toNat) (2 ^ 32) with hfits | hwraps
  · refine iff_of_true ?_ hfits
    by_cases hinside : offset.toNat + length.toNat ≤ 527
    · have haccepted : ¬ucsiMessageOutOffset + messageOutSize < offset + length := by
        rw [behind_messageOut_iff]
        omega
      rw [if_neg haccepted] at hwrite
      simp only [WriteMeets, hwrite, if_true]
      exact ⟨buf, rfl, .messageOut, written_messageOut hbounds.1 hinside⟩
    · have hrefused : ucsiMessageOutOffset + messageOutSize < offset + length := by
        rw [behind_messageOut_iff]
        omega
      rw [if_pos hrefused] at hwrite
      exact writeMeets_refused (by decide) hwrite
  · refine iff_of_false (fun hmeets => ?_) (Nat.not_lt_of_le hwraps)
    -- the sum of 32 bits is small again, and the check passes
    have haccepted : ¬ucsiMessageOutOffset + messageOutSize < offset + length := by
      rw [behind_messageOut_iff]
      omega
    rw [if_neg haccepted] at hwrite
    simp only [WriteMeets, hwrite, if_true] at hmeets
    obtain ⟨_, -, r, hwritten⟩ := hmeets
    have hinside := hwritten.inside.2
    have hend := r.end_le
    omega

theorem ucsiPpmWrite_meets_iff {b : Option (Nat → BitVec 8)} :
    WriteMeets dev offset b length ↔ WriteFits offset b length := by
  cases b with
  | none => exact iff_of_true (writeMeets_refused (show -einval ≠ 0 by decide) rfl) (fun h => absurd rfl h)
  | some buf =>
    by_cases hlength : length = 0
    · subst hlength
      exact iff_of_true (writeMeets_refused (by decide) ucsiPpmWrite_zero) (fun _ _ _ => offset.isLt)
    by_cases hout : InMessageOut offset
    · rw [writeMeets_messageOut_iff hout hlength]
      exact ⟨fun h _ _ _ => h, fun h => h (Option.some_ne_none _) hout.1 hout.2⟩
    refine iff_of_true ?_ (fun _ hlo hhi => absurd ⟨hlo, hhi⟩ hout)
    by_cases hcontrol : offset = ucsiControlOffset
    · subst hcontrol
      exact writeMeets_control hlength
    · exact writeMeets_refused (by decide) (ucsiPpmWrite_elsewhere hcontrol hout)

/-- The two calls keep to the registers exactly where the sum of offset and length is harmless. -/
theorem register_window (dev : Ppm) (offset : BitVec 32) (buf : Option (Nat → BitVec 8)) (length : BitVec 32) :
    (ReadMeets dev offset length ↔ ReadFits offset length) ∧
      (WriteMeets dev offset buf length ↔ WriteFits offset buf length) :=
  ⟨ucsiPpmRead_meets_iff, ucsiPpmWrite_meets_iff⟩

/-- A window of zeroes at address 0, with no command pending. -/
def Ppm.blank : Ppm where
  memory := fun _ => 0
  ucsiData := 0
  command := false
  region_fits := by decide

/-- The whole window cannot be read, a byte in front of it can, and EC_CMD_UCSI_PPM_SET with an empty
request writes nearly all of the memory. -/
theorem window_left :
    ¬ReadMeets .blank 0 528 ∧ ¬ReadMeets .blank 0xFFFFFFFF 1 ∧ ¬WriteMeets .blank 272 (some fun _ => 0xFF) 0xFFFFFFFE := by
  refine ⟨fun h => ?_, fun h => ?_, fun h => ?_⟩
  · exact (ucsiPpmRead_meets_iff.mp h).1 (by decide)
  · exact (ucsiPpmRead_meets_iff.mp h).2 (by decide)
  · exact absurd (ucsiPpmWrite_meets_iff.mp h (Option.some_ne_none _) (by decide) (by decide)) (by decide)

/-! ## The state machine -/

/-- A message that the OPM gives, as the CONTROL register holds it. -/
def controlOf (byte : Nat → BitVec 8) : Control :=
  ⟨byte 0, byte 7 ++ byte 6 ++ byte 5 ++ byte 4 ++ byte 3 ++ byte 2⟩

theorem controlOf_congr {byte byte' : Nat → BitVec 8} (h : ∀ i < 8, byte i = byte' i) :
    controlOf byte = controlOf byte' := by
  simp [controlOf, h]

/-- The device of the state machine, as far as it is in the window. -/
structure Represents (dev : Ppm) (d : Device) : Prop where
  command : dev.command = d.command
  busy : dev.cciBusy = d.cci.busy
  control : controlOf (fun i => dev.byte (ucsiControlOffset.toNat + i)) = d.control

theorem Written.control_byte (h : Written .control ucsiControlOffset.toNat length.toNat buf dev dev')
    {i : Nat} (hi : i < 8) :
    dev'.byte (ucsiControlOffset.toNat + i) = if i < length.toNat then buf i else 0 := by
  split
  · rename_i hlt
    exact h.data i hlt
  · rename_i hge
    have hend : Register.control.offset + Register.control.size = 16 := rfl
    have hoffset : ucsiControlOffset.toNat = 8 := rfl
    exact h.remaining _ (Nat.le_add_right _ _) (by omega) (by omega)

/-- A message that the window takes goes through the two steps of the state machine. -/
theorem Represents.controlMessage {numPorts : Nat} {s : State} (hrep : Represents dev s.dev) (hunlocked : s.pc.unlocked)
    (hopm : s.opm = none) (hlength : length ≠ 0) (htaken : dev.takesControl buf length) :
    ∃ s' s'' : State,
      step numPorts (.check (controlOf fun i => if i < length.toNat then buf i else 0)) s = some s' ∧
      step numPorts .write s' = some s'' ∧
      Represents (ppmCommonHandleControlMessage dev buf length).2 s''.dev := by
  let c := controlOf fun i => if i < length.toNat then buf i else 0
  have hpos : 0 < length.toNat := Nat.pos_of_ne_zero fun h => hlength (BitVec.eq_of_toNat_eq h)
  have hcommand : c.command = buf 0 := if_pos hpos
  have hbusy : (s.dev.command || s.dev.cci.busy) = (c.command == ucsiCancel) := by
    rw [← hrep.command, ← hrep.busy, hcommand, Bool.eq_iff_iff, beq_iff_eq]
    exact htaken.2
  obtain ⟨-, hwritten⟩ := controlMessage_taken htaken
  refine ⟨{ s with opm := some c }, _, ?_, if_pos hunlocked, ⟨hwritten.command, ?_, ?_⟩⟩
  · simp only [step]
    rw [if_pos ⟨hunlocked, hopm⟩, if_neg (not_not.mpr hbusy)]
  · -- the CCI lies in front of the register
    have hcci : dev.ucsiData + (ucsiCciOffset + 3) < dev.ucsiData + Register.control.offset :=
      Nat.add_lt_add_left (by decide) _
    rw [← hrep.busy, Ppm.cciBusy, Ppm.byte, hwritten.place,
      hwritten.elsewhere _ (fun h => absurd h.1 (Nat.not_le_of_lt hcci))]
    rfl
  · exact controlOf_congr fun i hi => hwritten.control_byte hi

/-- The window at the start, where the driver executes PPM_RESET. -/
def startWindow : Ppm := ⟨fun a => if a = 8 then ucsiPpmReset else 0, 0, false, by decide⟩

theorem Represents.controlMessage_start : ∃ s' s'' : State,
    step 1 (.check (controlOf fun i => if i < 8 then ucsiSetNotificationEnable else 0)) start = some s' ∧
    step 1 .write s' = some s'' ∧
    Represents (ppmCommonHandleControlMessage startWindow (fun _ => ucsiSetNotificationEnable) 8).2 s''.dev := by
  have hrep : Represents startWindow start.dev := ⟨rfl, rfl, by decide⟩
  have htaken : startWindow.takesControl (fun _ => ucsiSetNotificationEnable) 8 := ⟨by decide, by decide⟩
  exact hrep.controlMessage rfl rfl (by decide) htaken

end ChromeEc.Ucsi
