import ChromeEc.Lightbar.Model
import Mathlib.Data.UInt
import Mathlib.Tactic.Tauto

/- What a program of the light bar reads and writes.

  The size of a program is what the host says, up to 255, and there are 192 bytes of data; decode_8 and
  decode_32 compare `pc` with that size. Of the three numbers that lightbyte_SET_COLOR_SINGLE takes out of
  its first operand the LED cannot be too large and the control is compared with LB_CONT_MAX, but the colour
  may be 3.

  What is proved: an instruction keeps a property of all accesses exactly if the bytes that it reads and the
  places that it writes have the property (`audit_dispatch`). So nothing behind the size is read and what does not
  fit is an error, and all accesses of a run stay inside the two arrays if and only if before each step the
  instruction at `pc` reads none but the 192 bytes and is not a SET_COLOR_SINGLE of a fourth colour
  (`safe_iff`). -/
namespace ChromeEc.Lightbar
open ChromeEc.Lib.Steps

variable {P : Access → Prop} {m : Machine} {i : Input}

/-! ## Accesses -/

/-- All accesses so far have the property. -/
def Audit (P : Access → Prop) (m : Machine) : Prop := ∀ a ∈ m.accesses, P a

theorem audit_advance : Audit P m.advance ↔ Audit P m ∧ P (.fetch m.pc.toNat) := by
  simp only [Audit, Machine.advance, List.forall_mem_append, List.forall_mem_singleton]

theorem audit_setDesc {led control color : Nat} {value : UInt8} :
    Audit P (m.setDesc led control color value) ↔ Audit P m ∧ P (.write led control color) := by
  simp only [Audit, Machine.setDesc, List.forall_mem_append, List.forall_mem_singleton]

theorem audit_foldl {β : Type} {f : Machine → β → Machine} {c : β → Prop} {l : List β}
    (hf : ∀ m b, Audit P (f m b) ↔ Audit P m ∧ c b) : Audit P (l.foldl f m) ↔ Audit P m ∧ ∀ b ∈ l, c b := by
  induction l generalizing m with
  | nil => simp
  | cons b l ih => rw [List.foldl_cons, ih, hf, List.forall_mem_cons, and_assoc]

/-! ## The next bytes -/

theorem toNat_pc_advance (h : m.pc < m.curProg.size) : m.advance.pc.toNat = m.pc.toNat + 1 := by
  have hpc : m.pc.toNat < m.curProg.size.toNat := h
  have hsize : m.curProg.size.toNat < 256 := m.curProg.size.toNat_lt
  change (m.pc + 1).toNat = m.pc.toNat + 1
  rw [UInt8.toNat_add]
  exact Nat.mod_eq_of_lt (by change m.pc.toNat + 1 < 256; omega)

theorem decode8_none : decode8 m = none ↔ m.curProg.size ≤ m.pc := by
  rw [decode8, ite_eq_left_iff]
  simp

theorem decode8_some (h : m.pc < m.curProg.size) : decode8 m = some (m.atPc, m.advance) :=
  if_neg (UInt8.not_le.mpr h)

/-- The next operands that are in the program have the property. -/
def OperandsAt (P : Access → Prop) : Nat → Machine → Prop
  | 0, _ => True
  | n + 1, m => m.pc < m.curProg.size → P (.fetch m.pc.toNat) ∧ OperandsAt P n m.advance

theorem operandsAt_iff {n : Nat} :
    OperandsAt P n m ↔ ∀ j < n, m.pc.toNat + j < m.curProg.size.toNat → P (.fetch (m.pc.toNat + j)) := by
  -- by induction on the operands: the first one is at pc, the others are read with pc behind it
  induction n generalizing m with
  | zero => simp [OperandsAt]
  | succ n ih =>
    rw [OperandsAt, ih]
    constructor
    · intro h j hj hlt
      have hpc : m.pc < m.curProg.size := by
        change m.pc.toNat < m.curProg.size.toNat
        omega
      obtain ⟨hfirst, hrest⟩ := h hpc
      rw [toNat_pc_advance hpc] at hrest
      cases j with
      | zero => exact hfirst
      | succ j =>
        have hnext := hrest j (by omega) (show m.pc.toNat + 1 + j < m.curProg.size.toNat by omega)
        rwa [show m.pc.toNat + (j + 1) = m.pc.toNat + 1 + j by omega]
    · intro h hpc
      refine ⟨h 0 (by omega) hpc, fun j hj hlt => ?_⟩
      rw [toNat_pc_advance hpc] at hlt ⊢
      have hnext := h (j + 1) (by omega) (show m.pc.toNat + (j + 1) < m.curProg.size.toNat by
        change m.pc.toNat + 1 + j < m.curProg.size.toNat at hlt
        omega)
      rwa [show m.pc.toNat + 1 + j = m.pc.toNat + (j + 1) by omega]

theorem audit_operand {rest : UInt8 → Machine → Machine × Outcome} {c : UInt8 → Machine → Prop}
    (hrest : ∀ b m, Audit P (rest b m).1 ↔ Audit P m ∧ c b m) :
    Audit P (operand m rest).1 ↔
      Audit P m ∧ (m.pc < m.curProg.size → P (.fetch m.pc.toNat) ∧ c m.atPc m.advance) := by
  by_cases hpc : m.pc < m.curProg.size
  · rw [operand, decode8_some hpc]
    simp only [hrest, audit_advance, and_assoc, hpc, true_implies]
  · rw [operand, decode8_none.mpr (UInt8.not_lt.mp hpc)]
    simp only [hpc, false_implies, and_true]

theorem audit_operand_last {rest : UInt8 → Machine → Machine × Outcome}
    (hrest : ∀ b m, Audit P (rest b m).1 ↔ Audit P m) :
    Audit P (operand m rest).1 ↔ Audit P m ∧ OperandsAt P 1 m :=
  audit_operand (c := fun _ _ => True) fun b m => by rw [hrest, and_true]

theorem audit_operand_succ {n : Nat} {rest : UInt8 → Machine → Machine × Outcome}
    (hrest : ∀ b m, Audit P (rest b m).1 ↔ Audit P m ∧ OperandsAt P n m) :
    Audit P (operand m rest).1 ↔ Audit P m ∧ OperandsAt P (n + 1) m :=
  audit_operand (c := fun _ m => OperandsAt P n m) hrest

/-- The four bytes of a delay have the property, if all of them are in the program. -/
def DelayAt (P : Access → Prop) (m : Machine) : Prop :=
  m.pc.toNat + 4 ≤ m.curProg.size.toNat → ∀ j < 4, P (.fetch (m.pc.toNat + j))

theorem audit_decode32 {d : UInt32 × Machine} (h : decode32 m = some d) :
    Audit P d.2 ↔ Audit P m ∧ DelayAt P m := by
  rw [decode32] at h
  split at h
  · cases h
  · rename_i hfits
    cases h
    have h0 : m.pc < m.curProg.size := by
      change m.pc.toNat < m.curProg.size.toNat
      omega
    have hpc1 : m.advance.pc.toNat = m.pc.toNat + 1 := toNat_pc_advance h0
    have h1 : m.advance.pc < m.advance.curProg.size := by
      change m.advance.pc.toNat < m.curProg.size.toNat
      omega
    have hpc2 : m.advance.advance.pc.toNat = m.pc.toNat + 2 := by rw [toNat_pc_advance h1, hpc1]
    have h2 : m.advance.advance.pc < m.advance.advance.curProg.size := by
      change m.advance.advance.pc.toNat < m.curProg.size.toNat
      omega
    have hpc3 : m.advance.advance.advance.pc.toNat = m.pc.toNat + 3 := by rw [toNat_pc_advance h2, hpc2]
    have hall : DelayAt P m ↔ ∀ j < 4, P (.fetch (m.pc.toNat + j)) := by
      rw [DelayAt]
      exact ⟨fun h => h (by omega), fun h _ => h⟩
    rw [hall]
    simp only [audit_advance, hpc1, hpc2, hpc3, and_assoc]
    refine and_congr_right fun _ => ⟨?_, fun h => ?_⟩
    · rintro ⟨p0, p1, p2, p3⟩ j hj
      obtain rfl | rfl | rfl | rfl : j = 0 ∨ j = 1 ∨ j = 2 ∨ j = 3 := by omega
      · exact p0
      · exact p1
      · exact p2
      · exact p3
    · exact ⟨h 0 (by omega), h 1 (by omega), h 2 (by omega), h 3 (by omega)⟩

theorem decode32_none (h : decode32 m = none) : DelayAt P m := by
  rw [decode32, ite_eq_left_iff] at h
  intro hfits
  by_contra
  have hlt : ¬(m.curProg.size.toNat : Int) - 3 ≤ m.pc.toNat := by omega
  exact absurd (h hlt) (by simp)

theorem audit_setDelay {store : UInt32 → Machine → Machine} (hstore : ∀ d m, Audit P (store d m) ↔ Audit P m) :
    Audit P (setDelay m store).1 ↔ Audit P m ∧ DelayAt P m := by
  rw [setDelay]
  cases h : decode32 m with
  | none => exact (and_iff_left (decode32_none h)).symm
  | some d => exact (hstore d.1 d.2).trans (audit_decode32 h)

/-! ## Instructions -/

/-- What a program may write is a property of the LEDs, controls and colours that there are. -/
def WritesAll (P : Access → Prop) : Prop :=
  ∀ led < numLeds, ∀ control < contMax, ∀ color < 3, P (.write led control color)

theorem audit_forLeds {led : UInt8} {f : Nat → Machine → Machine} {c : Nat → Prop}
    (hf : ∀ j m, Audit P (f j m) ↔ Audit P m ∧ c j) :
    Audit P (forLeds led f m) ↔ Audit P m ∧ ∀ j < numLeds, led.toNat.testBit j → c j := by
  rw [forLeds, audit_foldl (c := fun j => led.toNat.testBit j → c j)]
  · simp only [List.mem_range]
  · intro m j
    split
    · rename_i hbit
      simp only [hf, hbit, true_implies]
    · rename_i hbit
      simp [hbit]

theorem audit_setDescRgb {led control : Nat} {r g b : UInt8} :
    Audit P (setDescRgb led control r g b m) ↔ Audit P m ∧ ∀ color < 3, P (.write led control color) := by
  rw [setDescRgb, audit_setDesc, audit_setDesc, audit_setDesc, and_assoc, and_assoc]
  refine and_congr_right fun _ => ⟨fun ⟨p0, p1, p2⟩ j hj => ?_, fun h => ?_⟩
  · match j, hj with
    | 0, _ => exact p0
    | 1, _ => exact p1
    | 2, _ => exact p2
  · exact ⟨h 0 (by omega), h 1 (by omega), h 2 (by omega)⟩

theorem toNat_and_three_lt (b : UInt8) : (b &&& 3).toNat < 4 := by
  rw [UInt8.toNat_and]
  exact Nat.lt_succ_of_le Nat.and_le_right

/-- The LED, the control and the colour that are packed in a byte have the property, if the control is one. -/
def SingleAt (P : Access → Prop) (packedLoc : UInt8) : Prop :=
  ((packedLoc >>> 2) &&& 3).toNat < contMax →
    ∀ led < numLeds, (packedLoc >>> 4).toNat.testBit led →
      P (.write led ((packedLoc >>> 2) &&& 3).toNat (packedLoc &&& 3).toNat)

theorem audit_setColorSingle :
    Audit P (lightbyteSetColorSingle m).1 ↔
      Audit P m ∧ OperandsAt P 2 m ∧
        (m.pc.toNat + 1 < m.curProg.size.toNat → SingleAt P m.atPc) := by
  have hlast (packedLoc : UInt8) (m : Machine) :
      Audit P (operand m fun value m =>
        let led := packedLoc >>> 4
        let control := ((packedLoc >>> 2) &&& 3).toNat
        let color := (packedLoc &&& 3).toNat
        if contMax ≤ control then (m, .returns ecResInvalidParam)
        else (forLeds led (fun i => .setDesc i control color value) m, .returns ecSuccess)).1 ↔
      Audit P m ∧ (m.pc < m.curProg.size → P (.fetch m.pc.toNat) ∧ SingleAt P packedLoc) := by
    refine audit_operand (c := fun _ _ => SingleAt P packedLoc) fun value m => ?_
    simp only
    split
    · rename_i hcontrol
      exact (and_iff_left fun h => absurd h (Nat.not_lt.mpr hcontrol)).symm
    · rename_i hcontrol
      dsimp only
      rw [audit_forLeds (c := fun led => P (.write led ((packedLoc >>> 2) &&& 3).toNat (packedLoc &&& 3).toNat))
        fun j m => audit_setDesc]
      exact and_congr_right fun _ => ⟨fun h _ => h, fun h => h (Nat.lt_of_not_le hcontrol)⟩
  rw [lightbyteSetColorSingle, audit_operand hlast]
  refine and_congr_right fun _ => ?_
  simp only [OperandsAt, and_true]
  -- without a first operand neither side says anything of the write
  by_cases hpc : m.pc < m.curProg.size
  · have hnext : m.advance.pc < m.advance.curProg.size ↔ m.pc.toNat + 1 < m.curProg.size.toNat := by
      rw [← toNat_pc_advance hpc]
      exact Iff.rfl
    rw [hnext]
    tauto
  · have hlt : ¬m.pc.toNat + 1 < m.curProg.size.toNat := fun h => hpc (show m.pc.toNat < m.curProg.size.toNat by omega)
    simp only [hpc, hlt, false_implies, and_self]

theorem audit_setColorRgb (hw : WritesAll P) :
    Audit P (lightbyteSetColorRgb m).1 ↔ Audit P m ∧ OperandsAt P 4 m := by
  refine audit_operand_succ fun packedLoc m => audit_operand_succ fun r m => audit_operand_succ fun g m =>
    audit_operand_last fun b m => ?_
  simp only
  split
  · exact Iff.rfl
  · rename_i hcontrol
    dsimp only
    rw [audit_forLeds (c := fun led => ∀ color < 3, P (.write led ((packedLoc >>> 2) &&& 3).toNat color))
      fun j m => audit_setDescRgb]
    -- the control has been compared, and the three colours are constants
    refine and_iff_left fun led hled _ color hcolor => ?_
    exact hw led hled _ (Nat.lt_of_not_le hcontrol) color hcolor

theorem audit_getColors (hw : WritesAll P) : Audit P (lightbyteGetColors m).1 ↔ Audit P m := by
  dsimp only [lightbyteGetColors]
  rw [audit_foldl (c := fun led => ∀ color < 3, P (.write led contColor0 color)) fun m j => audit_setDescRgb]
  refine and_iff_left fun led hled color hcolor => ?_
  exact hw led (List.mem_range.mp hled) contColor0 (by decide) color hcolor

theorem audit_swapColors (hw : WritesAll P) : Audit P (lightbyteSwapColors m).1 ↔ Audit P m := by
  have hswap (led color : Nat) (m : Machine) : Audit P (swapColor led color m) ↔
      Audit P m ∧ P (.write led contColor0 color) ∧ P (.write led contColor1 color) := by
    rw [swapColor, audit_setDesc, audit_setDesc, and_assoc]
  have hled (led : Nat) (m : Machine) : Audit P ((List.range 3).foldl (fun m color => swapColor led color m) m) ↔
      Audit P m ∧ ∀ color ∈ List.range 3, P (.write led contColor0 color) ∧ P (.write led contColor1 color) :=
    audit_foldl fun m color => hswap led color m
  dsimp only [lightbyteSwapColors]
  rw [audit_foldl fun m led => hled led m]
  refine and_iff_left fun led hled color hcolor => ?_
  have hled : led < numLeds := List.mem_range.mp hled
  have hcolor : color < 3 := List.mem_range.mp hcolor
  exact ⟨hw led hled contColor0 (by decide) color hcolor, hw led hled contColor1 (by decide) color hcolor⟩

theorem audit_rampAllLeds {w stopAt : Nat} : Audit P (rampAllLeds w stopAt m).1 ↔ Audit P m := by
  rw [rampAllLeds]
  split <;> exact Iff.rfl

/-- The operands that an instruction reads have the property. -/
def Opcode.OperandsAt (P : Access → Prop) (m : Machine) : Opcode → Prop
  | .setWaitDelay | .setRampDelay => DelayAt P m
  | op => Lightbar.OperandsAt P op.operandBytes m

/-- What an instruction writes at a place that there may not be has the property. -/
def Opcode.WriteAt (P : Access → Prop) (m : Machine) : Opcode → Prop
  | .setColorSingle => m.pc.toNat + 1 < m.curProg.size.toNat → SingleAt P m.atPc
  | _ => True

theorem audit_dispatch (hw : WritesAll P) (op : Opcode) :
    Audit P (dispatch i m op).1 ↔ Audit P m ∧ op.OperandsAt P m ∧ op.WriteAt P m := by
  have hnone (h : Audit P (dispatch i m op).1 ↔ Audit P m) (hop : op.OperandsAt P m) (hwrite : op.WriteAt P m) :
      Audit P (dispatch i m op).1 ↔ Audit P m ∧ op.OperandsAt P m ∧ op.WriteAt P m :=
    h.trans (and_iff_left ⟨hop, hwrite⟩).symm
  have hread (h : Audit P (dispatch i m op).1 ↔ Audit P m ∧ op.OperandsAt P m) (hwrite : op.WriteAt P m) :
      Audit P (dispatch i m op).1 ↔ Audit P m ∧ op.OperandsAt P m ∧ op.WriteAt P m :=
    h.trans (and_congr_right fun _ => (and_iff_left hwrite).symm)
  cases op with
  | on | off | halt => exact hnone Iff.rfl trivial trivial
  | jump | setBrightness => exact hread (audit_operand_last fun b m => Iff.rfl) trivial
  | jumpBattery =>
    refine hread (audit_operand_succ fun low m => audit_operand_last fun high m => ?_) trivial
    simp only
    split
    · exact Iff.rfl
    · split <;> exact Iff.rfl
  | jumpIfCharging =>
    refine hread (audit_operand_last fun b m => ?_) trivial
    split <;> exact Iff.rfl
  | setWaitDelay | setRampDelay => exact hread (audit_setDelay fun delay m => Iff.rfl) trivial
  | wait =>
    refine hnone ?_ trivial trivial
    simp only [dispatch, lightbyteWait]
    split <;> exact Iff.rfl
  | setColorSingle => exact audit_setColorSingle
  | setColorRgb => exact hread (audit_setColorRgb hw) trivial
  | getColors => exact hnone (audit_getColors hw) trivial trivial
  | swapColors => exact hnone (audit_swapColors hw) trivial trivial
  | rampOnce =>
    refine hnone ?_ trivial trivial
    simp only [dispatch, lightbyteRampOnce]
    split
    · exact Iff.rfl
    · exact audit_rampAllLeds
  | cycleOnce =>
    refine hnone ?_ trivial trivial
    simp only [dispatch, lightbyteCycleOnce]
    split
    · exact Iff.rfl
    · exact audit_rampAllLeds
  | cycle =>
    refine hnone ?_ trivial trivial
    simp only [dispatch, lightbyteCycle]
    split <;> exact Iff.rfl

/-! ## Steps -/

theorem audit_finish {r : Machine × Outcome} : Audit P (finish r) ↔ Audit P r.1 := by
  obtain ⟨m, rc | wait⟩ := r
  · rw [finish]
    split <;> exact Iff.rfl
  · exact Iff.rfl

/-- What a turn of the loop reads, and what it writes at a place that there may not be, has the property. -/
def TurnAt (P : Access → Prop) (m : Machine) : Prop :=
  m.pc < m.curProg.size → P (.fetch m.pc.toNat) ∧
    ∀ op, opcodes[m.atPc.toNat]? = some op → op.OperandsAt P m.advance ∧ op.WriteAt P m.advance

theorem audit_execute (hw : WritesAll P) : Audit P (execute i m) ↔ Audit P m ∧ TurnAt P m := by
  rw [TurnAt]
  by_cases hpc : m.pc < m.curProg.size
  · simp only [execute, decode8_some hpc, hpc, true_implies, ← and_assoc, ← audit_advance]
    cases hop : opcodes[m.atPc.toNat]? with
    | none =>
      simp only [reduceCtorEq, false_implies, implies_true, and_true]
      exact Iff.rfl
    | some op =>
      simp only [Option.some.injEq, forall_eq', audit_finish]
      exact audit_dispatch hw op
  · simp only [execute, decode8_none.mpr (UInt8.not_lt.mp hpc), hpc, false_implies, and_true]
    exact Iff.rfl

theorem audit_resume {wait : Wait} : Audit P (resume m wait).1 ↔ Audit P m := by
  cases wait with
  | delay => exact Iff.rfl
  | ramp w stopAt => exact audit_rampAllLeds
  | cycle w => exact Iff.rfl

theorem audit_step (hw : WritesAll P) {s s' : Machine} (h : step i s = some s') :
    Audit P s' ↔ Audit P s ∧ (s.control = .fetch → TurnAt P (i.found s)) := by
  have hfound : Audit P (i.found s) ↔ Audit P s := Iff.rfl
  obtain ⟨hc, rfl⟩ | ⟨_, _, hc, -, rfl⟩ | ⟨wait, hc, -, rfl⟩ | ⟨_, hc, -, rfl⟩ | ⟨hc, -, rfl⟩ := step_cases h
  · rw [audit_execute hw, hfound]
    exact and_congr_right fun _ => ⟨fun h _ => h, fun h => h hc⟩
  -- what goes on after a wait has read its operands before
  all_goals simp only [hc, reduceCtorEq, false_implies, and_true]
  · exact hfound
  · rw [audit_finish, audit_resume, hfound]
  · exact hfound
  · exact hfound

/-! ## Inside the arrays -/

def Access.Inside : Access → Prop
  | .fetch i => i < ecLbProgLen
  | .write led control color => led < numLeds ∧ control < contMax ∧ color < 3

instance : DecidablePred Access.Inside
  | .fetch i => inferInstanceAs (Decidable (i < ecLbProgLen))
  | .write led control color => inferInstanceAs (Decidable (led < numLeds ∧ control < contMax ∧ color < 3))

theorem writesAll_inside : WritesAll Access.Inside :=
  fun _ hled _ hcontrol _ hcolor => ⟨hled, hcontrol, hcolor⟩

/-- The number of operand bytes that the instruction at `pc` reads: a delay is read if it is in the program whole,
and the other operands as far as they are in it. -/
def Machine.operandsRead (m : Machine) : Nat :=
  match opcodes[m.atPc.toNat]? with
  | none => 0
  | some .setWaitDelay | some .setRampDelay => if m.pc.toNat + 4 < m.curProg.size.toNat then 4 else 0
  | some op => min op.operandBytes (m.curProg.size.toNat - 1 - m.pc.toNat)

/-- The instruction at `pc` is a SET_COLOR_SINGLE whose operands are in the program, with an LED, a control that
there is, and the colour 3. -/
def Machine.FourthColor (m : Machine) : Prop :=
  let packedLoc := m.byte (m.pc.toNat + 1)
  opcodes[m.atPc.toNat]? = some .setColorSingle ∧ m.pc.toNat + 2 < m.curProg.size.toNat ∧
    ((packedLoc >>> 2) &&& 3).toNat < contMax ∧ (packedLoc &&& 3).toNat = 3 ∧
    ∃ led < numLeds, (packedLoc >>> 4).toNat.testBit led

/-- All that the turn of the loop reads is among the data, and the colour that it sets is one. -/
def Machine.StaysInside (m : Machine) : Prop :=
  m.pc < m.curProg.size → m.pc.toNat + m.operandsRead < ecLbProgLen ∧ ¬m.FourthColor

instance : Decidable m.FourthColor := inferInstanceAs (Decidable (_ ∧ _ ∧ _ ∧ _ ∧ ∃ led < _, _))

/-- Of a program that is as long as the data at most, everything that is read is among the data. -/
theorem staysInside_of_size (hsize : m.curProg.size.toNat ≤ ecLbProgLen) :
    m.StaysInside ↔ (m.pc < m.curProg.size → ¬m.FourthColor) := by
  refine forall_congr' fun hpc => and_iff_right ?_
  have hpc : m.pc.toNat < m.curProg.size.toNat := hpc
  have hread : m.pc.toNat + m.operandsRead < m.curProg.size.toNat := by
    rw [Machine.operandsRead]
    split <;> try split
    all_goals omega
  exact Nat.lt_of_lt_of_le hread hsize

theorem operands_inside {p n size : Nat} (hp : p < size) :
    (p < ecLbProgLen ∧ ∀ j < n, p + 1 + j < size → p + 1 + j < ecLbProgLen) ↔
      p + min n (size - 1 - p) < ecLbProgLen := by
  constructor
  · rintro ⟨hfirst, hrest⟩
    by_cases hnone : min n (size - 1 - p) = 0
    · rwa [hnone, Nat.add_zero]
    -- if the last byte that is read is inside, all are
    · have hlast := hrest (min n (size - 1 - p) - 1) (by omega) (by omega)
      omega
  · intro h
    exact ⟨by omega, fun j hj hlt => by omega⟩

theorem delay_inside {p size : Nat} :
    (p < ecLbProgLen ∧ (p + 1 + 4 ≤ size → ∀ j < 4, p + 1 + j < ecLbProgLen)) ↔
      p + (if p + 4 < size then 4 else 0) < ecLbProgLen := by
  split
  · rename_i hfits
    constructor
    · rintro ⟨-, hrest⟩
      have hlast := hrest (by omega) 3 (by omega)
      omega
    · intro h
      exact ⟨by omega, fun _ j hj => by omega⟩
  · rename_i hshort
    exact ⟨fun h => h.1, fun h => ⟨h, fun hfits => absurd hfits (by omega)⟩⟩

theorem operandsAt_inside {n : Nat} (hpc : m.pc < m.curProg.size) :
    (m.pc.toNat < ecLbProgLen ∧ OperandsAt Access.Inside n m.advance) ↔
      m.pc.toNat + min n (m.curProg.size.toNat - 1 - m.pc.toNat) < ecLbProgLen := by
  rw [operandsAt_iff, toNat_pc_advance hpc]
  exact operands_inside hpc

theorem delayAt_inside (hpc : m.pc < m.curProg.size) :
    (m.pc.toNat < ecLbProgLen ∧ DelayAt Access.Inside m.advance) ↔
      m.pc.toNat + (if m.pc.toNat + 4 < m.curProg.size.toNat then 4 else 0) < ecLbProgLen := by
  rw [DelayAt, toNat_pc_advance hpc]
  exact delay_inside

theorem opcode_inside {op : Opcode} (hpc : m.pc < m.curProg.size) (hop : opcodes[m.atPc.toNat]? = some op) :
    (m.pc.toNat < ecLbProgLen ∧ op.OperandsAt Access.Inside m.advance) ↔
      m.pc.toNat + m.operandsRead < ecLbProgLen := by
  cases op with
  | setWaitDelay | setRampDelay =>
    simp only [Machine.operandsRead, hop]
    exact delayAt_inside hpc
  | _ =>
    simp only [Machine.operandsRead, hop]
    exact operandsAt_inside hpc

theorem singleAt_inside (packedLoc : UInt8) :
    SingleAt Access.Inside packedLoc ↔
      ¬(((packedLoc >>> 2) &&& 3).toNat < contMax ∧ (packedLoc &&& 3).toNat = 3 ∧
        ∃ led < numLeds, (packedLoc >>> 4).toNat.testBit led) := by
  constructor
  · rintro h ⟨hcontrol, hcolor, led, hled, hbit⟩
    have hcolor' : (packedLoc &&& 3).toNat < 3 := (h hcontrol led hled hbit).2.2
    omega
  · intro h hcontrol led hled hbit
    refine ⟨hled, hcontrol, ?_⟩
    have hlt : (packedLoc &&& 3).toNat < 4 := toNat_and_three_lt packedLoc
    by_contra hcolor
    exact h ⟨hcontrol, by omega, led, hled, hbit⟩

theorem writeAt_inside {op : Opcode} (hpc : m.pc < m.curProg.size) (hop : opcodes[m.atPc.toNat]? = some op) :
    op.WriteAt Access.Inside m.advance ↔ ¬m.FourthColor := by
  rw [Machine.FourthColor, hop]
  cases op with
  | setColorSingle =>
    have hbyte : m.advance.atPc = m.byte (m.pc.toNat + 1) := by
      rw [Machine.atPc, toNat_pc_advance hpc]
      rfl
    rw [Opcode.WriteAt, singleAt_inside, toNat_pc_advance hpc, hbyte]
    exact ⟨fun h hall => h hall.2.1 hall.2.2, fun h hfits hcolor => h ⟨rfl, hfits, hcolor⟩⟩
  | _ => simp [Opcode.WriteAt]

theorem turnAt_inside : TurnAt Access.Inside m ↔ m.StaysInside := by
  refine forall_congr' fun hpc => ?_
  cases hop : opcodes[m.atPc.toNat]? with
  | none =>
    have hread : m.operandsRead = 0 := by simp only [Machine.operandsRead, hop]
    have hcolor : ¬m.FourthColor := fun h => by
      rw [Machine.FourthColor, hop] at h
      cases h.1
    simp only [reduceCtorEq, false_implies, implies_true, and_true, hread, Nat.add_zero, hcolor, not_false_eq_true]
    exact Iff.rfl
  | some op =>
    simp only [Option.some.injEq, forall_eq']
    rw [writeAt_inside hpc hop, ← and_assoc]
    exact and_congr_left fun _ => opcode_inside hpc hop

/-! ## What does not fit -/

/-- An access to the data, if it is one, is inside the size. -/
def Access.Below (size : Nat) : Access → Prop
  | .fetch i => i < size
  | .write _ _ _ => True

theorem turnAt_below : TurnAt (Access.Below m.curProg.size.toNat) m := by
  intro hpc
  refine ⟨hpc, fun op _ => ⟨?_, ?_⟩⟩
  · have hoperands (n : Nat) : OperandsAt (Access.Below m.curProg.size.toNat) n m.advance :=
      operandsAt_iff.mpr fun j _ hlt => hlt
    have hdelay : DelayAt (Access.Below m.curProg.size.toNat) m.advance := by
      intro hfits j hj
      change m.advance.pc.toNat + j < m.curProg.size.toNat
      change m.advance.pc.toNat + 4 ≤ m.curProg.size.toNat at hfits
      omega
    cases op with
    | setWaitDelay | setRampDelay => exact hdelay
    | _ => exact hoperands _
  · cases op with
    | setColorSingle => exact fun _ _ _ _ _ => trivial
    | _ => trivial

theorem below_step {s s' : Machine} (h : step i s = some s')
    (hs : Audit (Access.Below s.curProg.size.toNat) s) : Audit (Access.Below s'.curProg.size.toNat) s' := by
  rw [(keeps_step h).curProg]
  exact (audit_step (fun _ _ _ _ _ _ => trivial) h).mpr ⟨hs, fun _ => turnAt_below⟩

/-- There are fewer than `n` bytes from `pc` on. -/
def Short (n : Nat) (m : Machine) : Prop := m.curProg.size.toNat < m.pc.toNat + n

theorem not_short_zero (hle : m.pc ≤ m.curProg.size) : ¬Short 0 m := by
  have hle : m.pc.toNat ≤ m.curProg.size.toNat := hle
  intro h
  change m.curProg.size.toNat < m.pc.toNat + 0 at h
  omega

theorem short_advance {n : Nat} (hpc : m.pc < m.curProg.size) : Short n m.advance ↔ Short (n + 1) m := by
  change m.curProg.size.toNat < m.advance.pc.toNat + n ↔ m.curProg.size.toNat < m.pc.toNat + (n + 1)
  rw [toNat_pc_advance hpc]
  omega

theorem advance_le (hpc : m.pc < m.curProg.size) : m.advance.pc ≤ m.advance.curProg.size := by
  change m.advance.pc.toNat ≤ m.curProg.size.toNat
  rw [toNat_pc_advance hpc]
  exact hpc

theorem short_operand {n : Nat} {rest : UInt8 → Machine → Machine × Outcome} (h : Short (n + 1) m)
    (hrest : ∀ b m, m.pc ≤ m.curProg.size → Short n m → (rest b m).2 = .returns ecResInvalidParam) :
    (operand m rest).2 = .returns ecResInvalidParam := by
  by_cases hpc : m.pc < m.curProg.size
  · rw [operand, decode8_some hpc]
    exact hrest m.atPc m.advance (advance_le hpc) ((short_advance hpc).mpr h)
  · rw [operand, decode8_none.mpr (UInt8.not_lt.mp hpc)]

theorem short_operand_last {rest : UInt8 → Machine → Machine × Outcome} (h : Short 1 m) :
    (operand m rest).2 = .returns ecResInvalidParam :=
  short_operand h fun _ _ hle hshort => absurd hshort (not_short_zero hle)

theorem short_setDelay {store : UInt32 → Machine → Machine} (h : Short 4 m) :
    (setDelay m store).2 = .returns ecResInvalidParam := by
  change m.curProg.size.toNat < m.pc.toNat + 4 at h
  have hnone : decode32 m = none := if_pos (by omega)
  rw [setDelay, hnone]

theorem short_dispatch {op : Opcode} (hle : m.pc ≤ m.curProg.size) (h : Short op.operandBytes m) :
    (dispatch i m op).2 = .returns ecResInvalidParam := by
  cases op with
  | jump | jumpIfCharging | setBrightness => exact short_operand_last h
  | jumpBattery | setColorSingle => exact short_operand h fun _ _ _ h => short_operand_last h
  | setWaitDelay | setRampDelay => exact short_setDelay h
  | setColorRgb =>
    exact short_operand h fun _ _ _ h => short_operand h fun _ _ _ h => short_operand h fun _ _ _ h =>
      short_operand_last h
  | _ => exact absurd h (not_short_zero hle)

/-- The instruction at `pc` is in the program with all its operands. -/
def Machine.Fits (m : Machine) : Prop :=
  m.pc.toNat + (opcodes[m.atPc.toNat]?.elim 0 Opcode.operandBytes) < m.curProg.size.toNat

theorem finish_returns {r : Machine × Outcome} {rc : Nat} (h : r.2 = .returns rc) (hrc : rc ≠ 0) :
    finish r = r.1.restored rc false := by
  obtain ⟨m, outcome⟩ := r
  cases h
  exact if_pos hrc

theorem execute_short (h : ¬m.Fits) : (execute i m).control = .returned ecResInvalidParam false := by
  by_cases hpc : m.pc < m.curProg.size
  · rw [execute, decode8_some hpc]
    cases hop : opcodes[m.atPc.toNat]? with
    | none => simp only [hop, Machine.restored]
    | some op =>
      have hshort : Short op.operandBytes m.advance := by
        rw [Machine.Fits, hop, Nat.not_lt] at h
        rw [short_advance hpc]
        exact Nat.lt_succ_of_le h
      have hinvalid := short_dispatch (i := i) (advance_le hpc) hshort
      simp only [hop, finish_returns hinvalid (by decide), Machine.restored]
  · rw [execute, decode8_none.mpr (UInt8.not_lt.mp hpc)]

/-! ## Runs -/

/-- What is asked of a run of a program: all accesses are inside the arrays, nothing behind the size of the program
is read, and an instruction that does not fit ends the run with an error. -/
structure SafeRun (prog : Program) (l : List (Machine × Input)) (m : Machine) : Prop where
  inside : Audit Access.Inside m
  unread : ∀ j, .fetch j ∈ m.accesses → j < prog.size.toNat
  reported : ∀ x ∈ l, x.1.control = .fetch → ¬x.1.Fits →
    ∃ s', step x.2 x.1 = some s' ∧ s'.control = .returned ecResInvalidParam false

section

variable {nextProg : Program} {behind beyond : Nat → UInt8} {bar : Bar} {l : List (Machine × Input)}

theorem reported_of_short {s : Machine} (hc : s.control = .fetch) (h : ¬s.Fits) :
    ∃ s', step i s = some s' ∧ s'.control = .returned ecResInvalidParam false := by
  have hfound : (i.found s).control = .fetch := hc
  refine ⟨execute i (i.found s), ?_, execute_short (m := i.found s) h⟩
  simp only [step, hfound]

theorem inside_run (run : Run step (start nextProg behind beyond bar) l m) :
    Audit Access.Inside m ↔ ∀ x ∈ l, x.1.control = .fetch → x.1.StaysInside := by
  have hrun : Audit Access.Inside m ↔ Audit Access.Inside (start nextProg behind beyond bar) ∧
      ∀ x ∈ l, x.1.control = .fetch → x.1.StaysInside := by
    refine run.holds_iff fun s i s' h => ?_
    rw [audit_step writesAll_inside h]
    exact and_congr_right fun _ => forall_congr' fun _ => turnAt_inside
  exact hrun.trans (and_iff_right fun a ha => absurd ha List.not_mem_nil)

theorem below_run (run : Run step (start nextProg behind beyond bar) l m) :
    Audit (Access.Below m.curProg.size.toNat) m :=
  run.holds (P := fun m => Audit (Access.Below m.curProg.size.toNat) m) (fun _ ha => absurd ha List.not_mem_nil)
    fun _ _ _ hs h => below_step h hs

/-- A run of a program is safe if and only if each of its instructions reads none but the 192 bytes of data and
sets none but the three colours. -/
theorem safeRun_iff (run : Run step (start nextProg behind beyond bar) l m) :
    SafeRun nextProg l m ↔ ∀ x ∈ l, x.1.control = .fetch → x.1.StaysInside := by
  rw [← inside_run run]
  refine ⟨SafeRun.inside, fun hinside => ⟨hinside, fun j hj => ?_, fun x _ hc hshort => reported_of_short hc hshort⟩⟩
  have hprog : m.curProg = nextProg := (keeps_run run).curProg
  have hbelow := below_run run (.fetch j) hj
  rwa [hprog] at hbelow

/-- So it is for every program that LIGHTBAR_CMD_SET_PROGRAM installs. -/
theorem safe_iff {params : Nat → UInt8} (run : Run step (start (setProgram params) behind beyond bar) l m) :
    SafeRun (setProgram params) l m ↔ ∀ x ∈ l, x.1.control = .fetch → x.1.StaysInside :=
  safeRun_iff run

end

def barOff : Bar := ⟨false, 0xc0, fun _ => ⟨0, 0, 0⟩⟩

def quiet : Input := ⟨none, none, 1, false, none⟩

/-- LIGHTBAR_CMD_SET_PROGRAM with a size and data -/
def request (size : UInt8) (data : List UInt8) : Nat → UInt8 := fun i => (18 :: size :: data).getD i 0

def started (params : Nat → UInt8) : Machine := start (setProgram params) (fun _ => 0) (fun _ => 0) barOff

/-- SET_COLOR_SINGLE of the green of two LEDs, SET_WAIT_DELAY, WAIT and HALT -/
def greenRequest : Nat → UInt8 := request 10 [9, 0x31, 0x80, 5, 0, 0, 0x27, 0x10, 7, 16]

theorem safe_iff_green :
    ∃ l m, Run step (started greenRequest) l m ∧ m.control = .returned programFinished false ∧
      (.write 0 0 1 ∈ m.accesses ∧ .write 1 0 1 ∈ m.accesses ∧ .fetch 9 ∈ m.accesses) ∧
      SafeRun (setProgram greenRequest) l m := by
  have hsome : (trace step (List.replicate 8 quiet) ([], started greenRequest)).any (fun r => decide
      (r.2.control = .returned programFinished false ∧
        (.write 0 0 1 ∈ r.2.accesses ∧ .write 1 0 1 ∈ r.2.accesses ∧ .fetch 9 ∈ r.2.accesses) ∧
        ∀ x ∈ r.1, x.1.curProg.size.toNat ≤ ecLbProgLen ∧ ¬x.1.FourthColor)) := by decide
  obtain ⟨l, m, run, -, hend, haccesses, hsmall⟩ := exists_run hsome
  refine ⟨l, m, run, hend, haccesses, (safe_iff run).mpr fun x hx _ => ?_⟩
  exact (staysInside_of_size (hsmall x hx).1).mpr fun _ => (hsmall x hx).2

/-- JUMP 192, of which the host says that it has 193 bytes -/
def farRequest : Nat → UInt8 := request 193 [2, 192]

/-- SET_COLOR_SINGLE of the colour 3 of LB_CONT_PHASE of the last LED -/
def fourthColorRequest : Nat → UInt8 := request 3 [9, 0x8b, 0x8b]

/-- A byte behind the data is executed, and one behind `led_desc` is written. -/
theorem not_safe :
    (∃ l m, Run step (started farRequest) l m ∧ .fetch 192 ∈ m.accesses ∧ ¬SafeRun (setProgram farRequest) l m) ∧
    ∃ l m, Run step (started fourthColorRequest) l m ∧ .write 3 2 3 ∈ m.accesses ∧
      ¬SafeRun (setProgram fourthColorRequest) l m := by
  constructor
  · have hsome : (trace step (List.replicate 3 quiet) ([], started farRequest)).any
        (fun r => decide (.fetch 192 ∈ r.2.accesses)) := by decide
    obtain ⟨l, m, run, -, hread⟩ := exists_run hsome
    exact ⟨l, m, run, hread, fun h => absurd (h.inside _ hread) (by decide)⟩
  · have hsome : (trace step [quiet] ([], started fourthColorRequest)).any
        (fun r => decide (.write 3 2 3 ∈ r.2.accesses)) := by decide
    obtain ⟨l, m, run, -, hwritten⟩ := exists_run hsome
    exact ⟨l, m, run, hwritten, fun h => absurd (h.inside _ hwritten) (by decide)⟩

end ChromeEc.Lightbar
