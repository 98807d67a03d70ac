import ChromeEc.Lib.Steps
import ChromeEc.Ucsi.Turn

/- Where the PPM thread can be.

  The OPM and the LPMs come in only while the PPM thread does not hold the lock. What holds of the
  device at the place where the thread is survives what they do.

  What is proved: `At` is kept by every step (`place_step`), and so in every run (`place_run`). -/
namespace ChromeEc.Ucsi
open Lib Steps

variable {dev : Device} {numPorts : Nat} {s s' : State}

/-! ## The end of an asynchronous event -/

/-- The CCI tells the OPM of the port. -/
def Core.told (c : Core) (port : Nat) : Core :=
  { c with asyncEvent := false, lastConnectorChanged := port + 1, reported := c.reported ++ [port] }

theorem finishAsyncEvent_some {alertPort : Option Nat} {port : Nat} (h : portToAlert numPorts dev alertPort = some port) :
    (finishAsyncEvent numPorts dev alertPort).core = dev.core.told port ∧
      (finishAsyncEvent numPorts dev alertPort).ppmState = .waitingAsyncEvAck := by
  have hcore : (notifyConnector dev port).core = (setConnectorChange dev port).core := core_notify
  have heq : finishAsyncEvent numPorts dev alertPort = clearAsyncEvent (notifyConnector dev port) := by
    unfold finishAsyncEvent
    rw [h]
  rw [heq]
  refine ⟨?_, rfl⟩
  show { (notifyConnector dev port).core with asyncEvent := false } = _
  rw [hcore]
  rfl

theorem finishAsyncEvent_none {alertPort : Option Nat} (h : portToAlert numPorts dev alertPort = none) :
    finishAsyncEvent numPorts dev alertPort = clearAsyncEvent dev := by
  unfold finishAsyncEvent
  rw [h]

theorem ppmState_finishAsyncEvent {alertPort : Option Nat} (h : dev.ppmState ≠ .processingCommand) :
    (finishAsyncEvent numPorts dev alertPort).ppmState ≠ .processingCommand := by
  cases hport : portToAlert numPorts dev alertPort with
  | some port =>
    rw [(finishAsyncEvent_some hport).2]
    decide
  | none =>
    rw [finishAsyncEvent_none hport]
    exact h

theorem executed_core {command : BitVec 8} {ackCi : Bool} {r : DriverResult} :
    (executed dev command ackCi r).2.ppmState = dev.ppmState ∧
      ((executed dev command ackCi r).2.core = dev.core ∨
        (ackCi = true ∧ (executed dev command ackCi r).2.core = dev.core.acknowledged)) := by
  unfold executed
  cases r with
  | ok ret =>
    cases ackCi
    · exact ⟨rfl, .inl rfl⟩
    · exact ⟨rfl, .inr ⟨rfl, rfl⟩⟩
  | error e =>
    dsimp only
    split
    · exact ⟨rfl, .inl rfl⟩
    · exact ⟨rfl, .inl rfl⟩

/-! ## The map of alerted connectors -/

theorem findLsbSet_bit {map : BitVec 8} (h : map ≠ 0) : map.getLsbD (findLsbSet map - 1) = true := by
  obtain ⟨i, hi, hbit⟩ : ∃ i, i < 8 ∧ map.getLsbD i = true := by
    by_contra hnone
    push Not at hnone
    apply h
    apply BitVec.eq_of_getLsbD_eq
    intro i hi
    simpa using hnone i hi
  unfold findLsbSet
  cases hfind : (List.range 8).find? (map.getLsbD ·) with
  | none =>
    rw [List.find?_eq_none] at hfind
    exact absurd hbit (hfind i (List.mem_range.mpr hi))
  | some j => exact List.find?_some hfind

theorem getLsbD_or_alert {map : BitVec 8} {lpmId port : Nat} :
    (map ||| (1#8 <<< (lpmId - 1))).getLsbD port = (map.getLsbD port || (decide (port < 8) && port == lpmId - 1)) := by
  rw [BitVec.getLsbD_or, BitVec.getLsbD_shiftLeft, BitVec.getLsbD_one]
  congr 1
  by_cases heq : port = lpmId - 1
  · simp [heq]
  · by_cases hlt : port < lpmId - 1
    · simp [hlt, heq]
    · have hsub : port - (lpmId - 1) ≠ 0 := by omega
      simp [heq, hsub]

/-! ## Steps -/

theorem Turn.place {d : Device} {pc : Pc} (h : Turn numPorts dev d pc)
    (hstate : dev.ppmState ≠ .processingCommand) : At d pc := by
  cases h with
  | rest hsame =>
    show d.ppmState ≠ .processingCommand
    rw [hsame]
    exact hstate
  | dropped => exact hstate
  | reset _ _ _ hidle =>
    show d.ppmState ≠ .processingCommand
    rw [hidle]
    decide
  | enabled mask _ _ _ hafter =>
    show d.ppmState ≠ .processingCommand
    obtain h | h := hafter <;> rw [h] <;> decide
  | served _ _ hafter => exact hafter.2
  | called _ _ hat => exact hat
  | reading hnotify hasync hmap => exact ⟨hnotify, hasync, findLsbSet_bit hmap⟩
  | finished => exact ppmState_finishAsyncEvent hstate

/-- An alert, or a command that the OPM writes, finds the thread without the lock. -/
theorem At.signal {dev' : Device} (h : At dev s.pc) (hunlocked : s.pc.unlocked = true)
    (hstate : dev'.ppmState = dev.ppmState)
    (hcommand : dev.command = true → dev'.command = true) (hasync : dev.asyncEvent = true → dev'.asyncEvent = true)
    (hmap : ∀ port, dev.alertedConnectorsMap.getLsbD port = true → dev'.alertedConnectorsMap.getLsbD port = true)
    (hlast : dev'.lastConnectorChanged = dev.lastConnectorChanged) : At dev' s.pc.signal := by
  cases hpc : s.pc with
  | loop =>
    rw [hpc] at hunlocked
    cases hunlocked
  | starting =>
    rw [hpc] at h
    exact hstate.trans h
  | waiting =>
    rw [hpc] at h
    show dev'.ppmState ≠ .processingCommand
    rw [hstate]
    exact h.1
  | woken =>
    rw [hpc] at h
    show dev'.ppmState ≠ .processingCommand
    rw [hstate]
    exact h
  | readStatus port =>
    rw [hpc] at h
    exact ⟨hstate.trans h.1, hasync h.2.1, hmap port h.2.2⟩
  | executing command ackCi acking =>
    rw [hpc] at h
    obtain ⟨hpending, hreset, hack, hprocessing, hacking⟩ := h
    refine ⟨hcommand hpending, hreset, ?_, ?_, ?_⟩
    · rw [hlast]
      exact hack
    · rw [hstate]
      exact hprocessing
    · rw [hstate]
      exact hacking

theorem At.turns (h : At s.dev s.pc) (hpc : s.pc = .loop ∧ mustWait s.dev = false ∨ s.pc = .woken) :
    s.dev.ppmState ≠ .processingCommand := by
  obtain ⟨hpc, -⟩ | hpc := hpc
  · rw [hpc] at h
    exact h
  · rw [hpc] at h
    exact h

theorem At.waits (h : At s.dev s.pc) (hpc : s.pc = .loop) (hwait : mustWait s.dev = true) : At s.dev .waiting := by
  rw [hpc] at h
  simp only [mustWait, Bool.and_eq_true, Bool.not_eq_true', Bool.and_eq_false_iff] at hwait
  obtain ⟨⟨-, hcommand⟩, hasync⟩ := hwait
  refine ⟨h, hcommand, fun hup => ?_⟩
  obtain hup' | hasync := hasync
  · exact Bool.noConfusion (hup'.symm.trans hup)
  · exact hasync

/-- What holds of the device where the thread is holds wherever it goes. -/
theorem place_step {a : Action} (h : At s.dev s.pc) (hstep : step numPorts a s = some s') : At s'.dev s'.pc := by
  cases step_moves hstep with
  | waits hpc hwait => exact h.waits hpc hwait
  | turns hpc => exact (taskloop_turn (h.turns hpc)).place (h.turns hpc)
  | @started r _ hpc =>
    rw [hpc] at h
    have hready : s.dev.ppmState = .notReady := h
    cases r with
    | ok ret =>
      show PpmState.idle ≠ .processingCommand
      decide
    | error e =>
      show s.dev.ppmState ≠ .processingCommand
      rw [hready]
      decide
  | statusRead hpc =>
    rw [hpc] at h
    refine ppmState_finishAsyncEvent ?_
    show s.dev.ppmState ≠ .processingCommand
    rw [h.1]
    decide
  | @executed r _ command ackCi _ hpc =>
    rw [hpc] at h
    obtain ⟨-, hreset, -, -, hacking⟩ := h
    have hstate := (@executed_core s.dev command ackCi r).1
    exact (ppmState_complete (fun _ => hreset) fun ha => hstate ▸ hacking ha).2
  | @alerted lpmId hunlocked =>
    refine h.signal hunlocked rfl id (fun _ => rfl) (fun port hbit => ?_) rfl
    show (s.dev.alertedConnectorsMap ||| (1#8 <<< (lpmId - 1))).getLsbD port = true
    rw [getLsbD_or_alert, hbit]
    rfl
  | ignored => exact h
  | refused => exact h
  | accepted => exact h
  | written hunlocked => exact h.signal hunlocked rfl (fun _ => rfl) id (fun _ hbit => hbit) rfl
  | registered =>
    show At { s.dev with opmNotify := true } s.pc
    cases hpc : s.pc with
    | _ =>
      rw [hpc] at h
      exact h

theorem place_run {l : List (State × Action)} (h : Run (step numPorts) start l s) : At s.dev s.pc :=
  have hstart : At start.dev start.pc := rfl
  h.holds (P := fun s => At s.dev s.pc) hstart fun _ _ _ hplace hstep => place_step hplace hstep

end ChromeEc.Ucsi
