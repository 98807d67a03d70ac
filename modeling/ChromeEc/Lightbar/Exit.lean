import ChromeEc.Lightbar.Safety

/- How a program of the light bar ends.

  An instruction that returns a code ends the program, and so does a message that comes in a wait; the
  brightness is restored then, but not where there is no opcode left and not where the message comes in the
  wait between two instructions. The task takes what the program returns for the number of the next
  sequence. So PROGRAM_FINISHED makes it go to S3 and EC_RES_INVALID_PARAM to S0, and it never comes to
  `case LIGHTBAR_PROGRAM`, which would go back to the sequence before.

  What is proved: which codes a program can return (`execute_returned`), and for every way in which a run can end
  exactly when the light bar is restored and the task resumes what it did before (`restored_iff`). -/
namespace ChromeEc.Lightbar
open ChromeEc.Lib.Steps

variable {m : Machine} {i : Input}

/-! ## The codes -/

/-- If an instruction returns, it is with success or with an invalid parameter. -/
def Plain (o : Outcome) : Prop := ∀ rc, o = .returns rc → rc = ecSuccess ∨ rc = ecResInvalidParam

theorem Plain.success : Plain (.returns ecSuccess) := fun _ h => by
  cases h
  exact .inl rfl

theorem Plain.invalid : Plain (.returns ecResInvalidParam) := fun _ h => by
  cases h
  exact .inr rfl

theorem Plain.waits (wait : Wait) : Plain (.waits wait) := fun _ h => by cases h

theorem plain_operand {rest : UInt8 → Machine → Machine × Outcome} (hrest : ∀ b m, Plain (rest b m).2) :
    Plain (operand m rest).2 := by
  rw [operand]
  cases decode8 m with
  | none => exact .invalid
  | some d => exact hrest d.1 d.2

theorem rampAllLeds_returns {w stopAt rc : Nat} (h : (rampAllLeds w stopAt m).2 = .returns rc) : rc = ecSuccess := by
  rw [rampAllLeds] at h
  split at h
  · cases h
  · cases h
    rfl

theorem plain_rampAllLeds {w stopAt : Nat} : Plain (rampAllLeds w stopAt m).2 := fun _ h =>
  .inl (rampAllLeds_returns h)

theorem plain_dispatch {op : Opcode} (hop : op ≠ .halt) : Plain (dispatch i m op).2 := by
  cases op with
  | halt => exact absurd rfl hop
  | on | off | getColors | swapColors => exact .success
  | jump | setBrightness => exact plain_operand fun b m => .success
  | jumpBattery =>
    refine plain_operand fun low m => plain_operand fun high m => ?_
    dsimp only
    split
    · exact .success
    · split <;> exact .success
  | jumpIfCharging =>
    refine plain_operand fun b m => ?_
    split <;> exact .success
  | setWaitDelay | setRampDelay =>
    simp only [dispatch, lightbyteSetWaitDelay, lightbyteSetRampDelay, setDelay]
    split
    · exact .invalid
    · exact .success
  | wait =>
    simp only [dispatch, lightbyteWait]
    split
    · exact .waits _
    · exact .success
  | setColorSingle =>
    refine plain_operand fun packedLoc m => plain_operand fun value m => ?_
    dsimp only
    split
    · exact .invalid
    · exact .success
  | setColorRgb =>
    refine plain_operand fun packedLoc m => plain_operand fun r m => plain_operand fun g m =>
      plain_operand fun b m => ?_
    dsimp only
    split
    · exact .invalid
    · exact .success
  | rampOnce =>
    simp only [dispatch, lightbyteRampOnce]
    split
    · exact .success
    · exact plain_rampAllLeds
  | cycleOnce =>
    simp only [dispatch, lightbyteCycleOnce]
    split
    · exact .success
    · exact plain_rampAllLeds
  | cycle =>
    simp only [dispatch, lightbyteCycle]
    split
    · exact .invalid
    · exact .waits _

/-- After a wait an instruction does not fail. -/
theorem resume_returns {wait : Wait} {rc : Nat} (h : (resume m wait).2 = .returns rc) : rc = ecSuccess := by
  cases wait with
  | delay =>
    cases h
    rfl
  | ramp w stopAt => exact rampAllLeds_returns h
  | cycle w => cases h

/-! ## The ends -/

/-- An instruction that ends the program returned something else than success, and the brightness is restored. -/
theorem finish_returned {r : Machine × Outcome} {rc : Nat} {requested : Bool}
    (h : (finish r).control = .returned rc requested) :
    r.2 = .returns rc ∧ rc ≠ ecSuccess ∧ requested = false ∧ (finish r).bar.brightness = r.1.savedBrightness := by
  obtain ⟨m, code | wait⟩ := r
  · by_cases hcode : code = 0
    · subst hcode
      cases h
    · rw [finish, if_pos hcode] at h ⊢
      cases h
      exact ⟨rfl, hcode, rfl, rfl⟩
  · cases h

theorem execute_returned {rc : Nat} {requested : Bool} (h : (execute i m).control = .returned rc requested) :
    requested = false ∧
      if m.curProg.size ≤ m.pc then rc = ecResInvalidParam ∧ (execute i m).bar.brightness = m.bar.brightness
      else
        rc = (if opcodes[m.atPc.toNat]? = some .halt then programFinished else ecResInvalidParam) ∧
          (execute i m).bar.brightness = m.savedBrightness := by
  by_cases hpc : m.pc < m.curProg.size
  · rw [if_neg (UInt8.not_le.mpr hpc)]
    rw [execute, decode8_some hpc] at h ⊢
    cases hop : opcodes[m.atPc.toNat]? with
    | none =>
      simp only [hop, Machine.restored, Control.returned.injEq] at h ⊢
      obtain ⟨rfl, rfl⟩ := h
      exact ⟨rfl, rfl, rfl⟩
    | some op =>
      simp only [hop] at h ⊢
      obtain ⟨hreturns, hfail, hrequested, hbright⟩ := finish_returned h
      refine ⟨hrequested, ?_, hbright.trans (keeps_dispatch op).savedBrightness⟩
      -- HALT is the only instruction that returns PROGRAM_FINISHED
      by_cases hhalt : op = .halt
      · subst hhalt
        cases hreturns
        exact (if_pos rfl).symm
      · rw [if_neg fun h => hhalt (Option.some.inj h)]
        exact (plain_dispatch hhalt rc hreturns).resolve_left hfail
  · rw [if_pos (UInt8.not_lt.mp hpc)]
    rw [execute, decode8_none.mpr (UInt8.not_lt.mp hpc)] at h ⊢
    cases h
    exact ⟨rfl, rfl, rfl⟩

/-! ## The task -/

theorem resumes_finished {prevSeq : Sequence} :
    lightbarTask ⟨.program, prevSeq⟩ programFinished = some ⟨prevSeq, prevSeq⟩ ↔ prevSeq = .s3 := by
  cases prevSeq <;> decide

theorem resumes_invalid {prevSeq : Sequence} :
    lightbarTask ⟨.program, prevSeq⟩ ecResInvalidParam = some ⟨prevSeq, prevSeq⟩ ↔ prevSeq = .s0 := by
  cases prevSeq <;> decide

/-- The brightness is what it was, and the task resumes the sequence before if no other was asked for. -/
def Restored (brightness : UInt8) (prevSeq : Sequence) (m : Machine) (rc : Nat) (requested : Bool) : Prop :=
  m.bar.brightness = brightness ∧
    (requested = false → lightbarTask ⟨.program, prevSeq⟩ rc = some ⟨prevSeq, prevSeq⟩)

/-- A program that ends here ends well: past its last byte if the sequence before was S0 and the brightness happens
to be the one before, at HALT if it was S3, at any other instruction if it was S0, and at a message between two
instructions if the brightness is the one before. -/
def EndsWell (brightness : UInt8) (prevSeq : Sequence) (i : Input) (s : Machine) : Prop :=
  match s.control with
  | .fetch =>
    if s.curProg.size ≤ s.pc then (i.found s).bar.brightness = brightness ∧ prevSeq = .s0
    else if opcodes[s.atPc.toNat]? = some .halt then prevSeq = .s3
    else prevSeq = .s0
  | .inside _ => True
  | .pause => (i.found s).bar.brightness = brightness
  | .returned _ _ => True

theorem execute_restored_iff {s : Machine} {prevSeq : Sequence} {rc : Nat} {requested : Bool}
    (hc : s.control = .fetch) (h : (execute i (i.found s)).control = .returned rc requested) :
    Restored s.savedBrightness prevSeq (execute i (i.found s)) rc requested ↔
      EndsWell s.savedBrightness prevSeq i s := by
  obtain ⟨rfl, hend⟩ := execute_returned h
  have hpc : ((i.found s).curProg.size ≤ (i.found s).pc) = (s.curProg.size ≤ s.pc) := rfl
  have hop : opcodes[(i.found s).atPc.toNat]? = opcodes[s.atPc.toNat]? := rfl
  have hsaved : (i.found s).savedBrightness = s.savedBrightness := rfl
  simp only [hpc, hop, hsaved] at hend
  simp only [EndsWell, hc, Restored, true_implies]
  split at hend
  · rename_i hover
    rw [if_pos hover, hend.1, hend.2, resumes_invalid]
  · rename_i hmore
    rw [if_neg hmore, hend.1, hend.2]
    split
    · exact (and_iff_right rfl).trans resumes_finished
    · exact (and_iff_right rfl).trans resumes_invalid

section

variable {nextProg : Program} {behind beyond : Nat → UInt8} {bar : Bar} {l : List (Machine × Input)}
  {s s' : Machine} {prevSeq : Sequence} {rc : Nat} {requested : Bool}

/-- Whatever program runs and however it ends, the light bar is restored and the task resumes what it did
before if and only if it is one of the ends that go well. -/
theorem restored_end_iff (run : Run step (start nextProg behind beyond bar) l s) (h : step i s = some s')
    (hend : s'.control = .returned rc requested) :
    Restored bar.brightness prevSeq s' rc requested ↔ EndsWell bar.brightness prevSeq i s := by
  have hsaved : s.savedBrightness = bar.brightness := (keeps_run run).savedBrightness
  rw [← hsaved]
  obtain ⟨hc, rfl⟩ | ⟨_, msg, hc, -, rfl⟩ | ⟨wait, hc, -, rfl⟩ | ⟨msg, hc, -, rfl⟩ | ⟨hc, -, rfl⟩ := step_cases h
  · exact execute_restored_iff hc hend
  -- a message in the wait of an instruction: the brightness is restored before the return
  · simp only [EndsWell, hc, iff_true]
    cases hend
    exact ⟨rfl, fun hno => by cases hno⟩
  -- what is left of an instruction after its wait succeeds, so this is no end
  · obtain ⟨hreturns, hfail, -, -⟩ := finish_returned hend
    exact absurd (resume_returns hreturns) hfail
  · simp only [EndsWell, hc]
    cases hend
    exact and_iff_left fun hno => by cases hno
  · cases hend

/-- So it is for every program that LIGHTBAR_CMD_SET_PROGRAM installs. -/
theorem restored_iff {params : Nat → UInt8} (run : Run step (start (setProgram params) behind beyond bar) l s)
    (h : step i s = some s') (hend : s'.control = .returned rc requested) :
    Restored bar.brightness prevSeq s' rc requested ↔ EndsWell bar.brightness prevSeq i s :=
  restored_end_iff run h hend

end

/-- The program of two colours and a wait was asked for in S3, and ends at its HALT. -/
theorem restored_iff_green :
    ∃ l s s', Run step (started greenRequest) l s ∧ step quiet s = some s' ∧
      s'.control = .returned programFinished false ∧ Restored barOff.brightness .s3 s' programFinished false := by
  have hsome : (trace step (List.replicate 7 quiet) ([], started greenRequest)).any (fun r => decide
      (((step quiet r.2).any fun s' => s'.control = .returned programFinished false) = true ∧ r.2.control = .fetch ∧
        ¬r.2.curProg.size ≤ r.2.pc ∧ opcodes[r.2.atPc.toNat]? = some .halt)) := by decide
  obtain ⟨l, s, run, -, hlast, hc, hpc, hhalt⟩ := exists_run hsome
  obtain ⟨s', hstep, hreturned⟩ := (Option.any_eq_true _ _).mp hlast
  have hend : s'.control = .returned programFinished false := of_decide_eq_true hreturned
  have hfetch : s.control = .fetch := hc
  refine ⟨l, s, s', run, hstep, hend, (restored_iff run hstep hend).mpr ?_⟩
  rw [EndsWell, hfetch]
  dsimp only
  rw [if_neg hpc, if_pos hhalt]

def haltRequest : Nat → UInt8 := request 1 [16]
def emptyRequest : Nat → UInt8 := request 0 []

/-- After HALT the task goes from S0 to S3, and a program that runs off its end leaves the brightness at 255. -/
theorem not_restored :
    (∃ l s s', Run step (started haltRequest) l s ∧ step quiet s = some s' ∧
      s'.control = .returned programFinished false ∧
      lightbarTask ⟨.program, .s0⟩ programFinished = some ⟨.s3, .s0⟩ ∧
      ¬Restored barOff.brightness .s0 s' programFinished false) ∧
    ∃ l s s', Run step (started emptyRequest) l s ∧ step quiet s = some s' ∧
      s'.control = .returned ecResInvalidParam false ∧ s'.bar.brightness = 255 ∧
      ¬Restored barOff.brightness .s0 s' ecResInvalidParam false :=
  ⟨⟨[], _, _, .start, rfl, rfl, rfl, fun h => by cases h.2 rfl⟩,
    ⟨[], _, _, .start, rfl, rfl, rfl, fun h => by cases h.1⟩⟩

end ChromeEc.Lightbar
