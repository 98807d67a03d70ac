import ChromeEc.Ucsi.Place

/- CANCEL while a command executes.

  ppm_common_execute_pending_cmd lets go of the lock while the driver executes a command. The OPM may
  then write CANCEL over the command, so that the CCI is to say cancel_completed. But the control
  message is cleared when the driver returns, before it is compared with CANCEL.

  What is proved: a CANCEL that is accepted while a command executes is never acknowledged, and
  nothing of it is left when the command completes (`cancel_never_acknowledged`). -/
namespace ChromeEc.Ucsi
open Lib Steps

variable {dev : Device} {numPorts : Nat} {s s' : State} {x : State × Action} {cancelled : Bool}

/-! ## Cancelled commands -/

def Pc.isExecuting : Pc → Bool
  | .executing _ _ _ => true
  | _ => false

/-- ucsi_ppm_write accepts a CANCEL while a command executes. -/
def cancels (x : State × Action) : Bool :=
  match x.2, x.1.opm with
  | .write, some c => x.1.pc.isExecuting && c.command == ucsiCancel
  | _, _ => false

def completes (x : State × Action) : Bool :=
  match x.2 with
  | .driverReturn _ _ => x.1.pc.isExecuting
  | _ => false

/-- Whether a CANCEL was accepted since the command started to execute. -/
def cancelling (cancelled : Bool) (x : State × Action) : Bool := !completes x && (cancelled || cancels x)

/-- What UCSI wants when a command was cancelled. -/
structure CancelReported (dev : Device) : Prop where
  cancelCompleted : dev.cci.cancelCompleted = true
  commandCompleted : dev.cci.commandCompleted = true
  idle : dev.cci.busy = false
  waits : dev.ppmState = .waitingCcAck

/-- A cancelled command completes as one. -/
def Acknowledged (numPorts : Nat) (cancelled : Bool) (x : State × Action) : Prop :=
  cancelled = true → completes x = true → ∀ s', step numPorts x.2 x.1 = some s' → CancelReported s'.dev

/-- No command that was cancelled completes. -/
def Uncancelled (cancelled : Bool) (x : State × Action) : Prop := cancelled = true → completes x = false

instance : Decidable (Uncancelled cancelled x) := inferInstanceAs (Decidable (_ → _))

/-- Nothing is left of a CANCEL. -/
structure Forgotten (dev : Device) : Prop where
  cci : dev.cci.cancelCompleted = false
  control : dev.control = .zero
  command : dev.command = false

/-! ## Completion -/

@[simp] theorem cci_notify : (ppmCommonOpmNotify dev).cci = dev.cci := by
  unfold ppmCommonOpmNotify
  split <;> rfl

@[simp] theorem control_notify : (ppmCommonOpmNotify dev).control = dev.control := by
  unfold ppmCommonOpmNotify
  split <;> rfl

theorem cancelCompleted_completedCci {ucsiCommand : BitVec 8} {ret : Int} (h : dev.control = .zero) :
    (completedCci dev ucsiCommand ret).cancelCompleted = false := by
  have hzero : dev.control.command ≠ ucsiCancel := by
    rw [h]
    decide
  unfold completedCci
  dsimp only
  rw [if_neg hzero]
  split
  · rfl
  · rfl

/-- The control message is cleared before it is compared with CANCEL. -/
theorem executed_forgets {command : BitVec 8} {ackCi : Bool} {r : DriverResult} :
    (executed dev command ackCi r).2.control = .zero ∧ (executed dev command ackCi r).2.cci.cancelCompleted = false := by
  unfold executed
  cases r with
  | ok ret =>
    cases ackCi
    · exact ⟨rfl, cancelCompleted_completedCci rfl⟩
    · exact ⟨rfl, cancelCompleted_completedCci rfl⟩
  | error e =>
    dsimp only
    split
    · exact ⟨rfl, rfl⟩
    · exact ⟨rfl, rfl⟩

theorem completeAck_forgets {nextCommand : BitVec 8} {ok : Bool} (hcontrol : dev.control = .zero)
    (hcci : dev.cci.cancelCompleted = false) :
    (completeAck dev nextCommand ok).control = .zero ∧ (completeAck dev nextCommand ok).cci.cancelCompleted = false := by
  unfold completeAck
  split
  · simp [hcontrol, hcci]
  · split
    · rw [control_notify, cci_notify]
      exact ⟨hcontrol, rfl⟩
    · simp [hcontrol, hcci]

theorem completeProcessing_forgets {nextCommand : BitVec 8} {ok : Bool} (hcontrol : dev.control = .zero)
    (hcci : dev.cci.cancelCompleted = false) :
    (completeProcessing dev nextCommand ok).control = .zero ∧
      (completeProcessing dev nextCommand ok).cci.cancelCompleted = false := by
  unfold completeProcessing
  split
  · simp [hcontrol, hcci]
  · split
    · rw [control_notify, cci_notify]
      exact ⟨hcontrol, hcci⟩
    · split
      · rw [control_notify, cci_notify]
        exact ⟨hcontrol, rfl⟩
      · simp [hcontrol, hcci]

theorem complete_forgets {nextCommand : BitVec 8} {acking ok : Bool} (hcontrol : dev.control = .zero)
    (hcci : dev.cci.cancelCompleted = false) :
    (complete dev nextCommand acking ok).control = .zero ∧
      (complete dev nextCommand acking ok).cci.cancelCompleted = false := by
  have hkept : ∀ d : Device, (clearProcessed d).control = d.control ∧ (clearProcessed d).cci = d.cci := by
    intro d
    unfold clearProcessed
    split
    · exact ⟨rfl, rfl⟩
    · exact ⟨rfl, rfl⟩
  unfold complete
  rw [(hkept _).1, (hkept _).2]
  cases acking
  · exact completeProcessing_forgets hcontrol hcci
  · exact completeAck_forgets hcontrol hcci

theorem command_complete {nextCommand : BitVec 8} {acking ok : Bool}
    (h : (complete dev nextCommand acking ok).ppmState ≠ .processingCommand) :
    (complete dev nextCommand acking ok).command = false := by
  unfold complete at h ⊢
  rw [ppmState_clearProcessed] at h
  rw [clearProcessed, if_pos h]
  rfl

theorem completes_iff : completes x = true ↔
    ∃ r status command ackCi acking, x.2 = .driverReturn r status ∧ x.1.pc = .executing command ackCi acking := by
  obtain ⟨s, a⟩ := x
  constructor
  · intro h
    cases a with
    | driverReturn r status =>
      have hexecuting : s.pc.isExecuting = true := h
      cases hpc : s.pc with
      | executing command ackCi acking => exact ⟨r, status, command, ackCi, acking, rfl, rfl⟩
      | _ =>
        rw [hpc] at hexecuting
        cases hexecuting
    | _ => cases h
  · rintro ⟨r, status, command, ackCi, acking, ha, hpc⟩
    dsimp only at ha hpc
    subst ha
    rw [completes, hpc]
    rfl

theorem step_completes (h : completes x = true) : ∃ r command ackCi acking, x.1.pc = .executing command ackCi acking ∧
    step numPorts x.2 x.1 = some { x.1 with
      dev := complete (executed x.1.dev command ackCi r).2 command acking (executed x.1.dev command ackCi r).1
      pc := .loop } := by
  obtain ⟨r, status, command, ackCi, acking, ha, hpc⟩ := completes_iff.mp h
  refine ⟨r, command, ackCi, acking, hpc, ?_⟩
  rw [ha]
  unfold step
  simp only [hpc]

theorem acknowledged_iff : Acknowledged numPorts cancelled x ↔ Uncancelled cancelled x := by
  constructor
  · intro h hcancelled
    by_contra hnot
    have hcompletes : completes x = true := by simpa using hnot
    obtain ⟨r, command, ackCi, acking, -, hstep⟩ := @step_completes numPorts _ hcompletes
    obtain ⟨hcontrol, hcci⟩ := @executed_forgets x.1.dev command ackCi r
    have hreported := (h hcancelled hcompletes _ hstep).cancelCompleted
    exact Bool.noConfusion ((complete_forgets hcontrol hcci).2.symm.trans hreported)
  · intro h hcancelled hcompletes
    exact Bool.noConfusion ((h hcancelled).symm.trans hcompletes)

theorem forgotten_of_completes (hplace : At x.1.dev x.1.pc) (h : completes x = true)
    (hstep : step numPorts x.2 x.1 = some s') :
    Forgotten s'.dev := by
  obtain ⟨r, command, ackCi, acking, hpc, heq⟩ := @step_completes numPorts _ h
  obtain rfl := Option.some.inj (hstep.symm.trans heq)
  rw [hpc] at hplace
  obtain ⟨-, hreset, -, -, hacking⟩ := hplace
  obtain ⟨hcontrol, hcci⟩ := @executed_forgets x.1.dev command ackCi r
  have hstate := (@executed_core x.1.dev command ackCi r).1
  have hafter := @ppmState_complete _ command acking (executed x.1.dev command ackCi r).1 (fun _ => hreset)
    fun ha => hstate ▸ hacking ha
  obtain ⟨hcontrol', hcci'⟩ := complete_forgets hcontrol hcci
  exact ⟨hcci', hcontrol', command_complete hafter.2⟩

/-! ## Runs -/

/-- A run acknowledges every CANCEL exactly if no command that was cancelled completes in it. Whatever command
    completes, nothing is left of a CANCEL. -/
theorem cancel_never_acknowledged (numPorts : Nat) (l : List (State × Action)) (s : State)
    (h : Run (step numPorts) start l s) :
    (Always cancelling (Acknowledged numPorts) false l ↔ Always cancelling Uncancelled false l) ∧
      ∀ x ∈ l, completes x = true → ∀ s', step numPorts x.2 x.1 = some s' → Forgotten s'.dev := by
  refine ⟨always_congr fun _ _ => acknowledged_iff, ?_⟩
  intro x hx hcompletes s' hstep
  obtain ⟨before, after, rfl⟩ := List.append_of_mem hx
  exact forgotten_of_completes (place_run h.cut) hcompletes hstep

def getCapability : Control := ⟨0x06, 0⟩

/-- The PPM leaves PPM_STATE_IDLE, and GET_CAPABILITY starts to execute. -/
def startCapability : List Action :=
  [.driverReturn (.ok 0) 0, .registerNotify, .run, .check ⟨ucsiSetNotificationEnable, 1⟩, .write, .run, .run,
    .check ⟨ucsiAckCcCi, 2⟩, .write, .run, .driverReturn (.ok 0) 0, .run, .check getCapability, .write, .run]

def cancelledCapability : List Action := startCapability ++ [.check ⟨ucsiCancel, 0⟩, .write, .driverReturn (.ok 16) 0]

/-- GET_CAPABILITY completes, and so it does after a CANCEL, of which nothing is left. -/
theorem cancel_never_acknowledged_capability :
    (∃ l s, Run (step 1) start l s ∧ l.map Prod.snd = startCapability ++ [.driverReturn (.ok 16) 0] ∧
      Always cancelling (Acknowledged 1) false l) ∧
    ∃ l s, Run (step 1) start l s ∧ l.map Prod.snd = cancelledCapability ∧
      ¬Always cancelling (Acknowledged 1) false l ∧
      ∃ x ∈ l, completes x = true ∧ ∀ s', step 1 x.2 x.1 = some s' → Forgotten s'.dev := by
  constructor
  · have hsome : (trace (step 1) (startCapability ++ [.driverReturn (.ok 16) 0]) ([], start)).any fun r =>
        decide (Always cancelling Uncancelled false r.1) := by decide +kernel
    obtain ⟨l, s, run, hlabels, hdone⟩ := exists_run hsome
    exact ⟨l, s, run, hlabels, (cancel_never_acknowledged 1 l s run).1.mpr hdone⟩
  · have hsome : (trace (step 1) cancelledCapability ([], start)).any fun r =>
        decide (¬Always cancelling Uncancelled false r.1 ∧ ∃ x ∈ r.1, completes x = true) := by decide +kernel
    obtain ⟨l, s, run, hlabels, hcancelled, x, hx, hcompletes⟩ := exists_run hsome
    obtain ⟨hiff, hforgotten⟩ := cancel_never_acknowledged 1 l s run
    exact ⟨l, s, run, hlabels, fun h => hcancelled (hiff.mp h), x, hx, hcompletes, hforgotten x hx hcompletes⟩

theorem cancel_lost : ∃ l s, Run (step 1) start l s ∧ l.map Prod.snd = cancelledCapability ∧
    ¬Always cancelling (Acknowledged 1) false l ∧ s.dev.ppmState = .waitingCcAck ∧
    s.dev.cci = { Cci.zero with dataLen := 16, commandCompleted := true } := by
  have hsome : (trace (step 1) cancelledCapability ([], start)).any fun r =>
      decide (¬Always cancelling Uncancelled false r.1 ∧ r.2.dev.ppmState = .waitingCcAck ∧
        r.2.dev.cci = { Cci.zero with dataLen := 16, commandCompleted := true }) := by decide +kernel
  obtain ⟨l, s, run, hlabels, hcancelled, hstate, hcci⟩ := exists_run hsome
  refine ⟨l, s, run, hlabels, fun h => hcancelled ?_, hstate, hcci⟩
  exact (always_congr fun _ _ => acknowledged_iff).mp h

end ChromeEc.Ucsi
