import ChromeEc.Ucsi.Model

/- What a turn of ppm_common_taskloop comes to.

  Alerts depend on six fields of the device, its `Core`, and on its state. Most of what commands do
  is about the CCI and errors and leaves the core alone.

  What is proved: a turn is one of a few (`Turn`), wherever the PPM thread was (`taskloop_turn`). -/
namespace ChromeEc.Ucsi

def PpmState.notifies : PpmState → Bool
  | .notReady | .idle => false
  | _ => true

structure Core where
  asyncEvent : Bool
  perPortStatus : Nat → BitVec 16
  lastConnectorChanged : Nat
  alertedConnectorsMap : BitVec 8
  changeMask : BitVec 16
  reported : List Nat

def Device.core (dev : Device) : Core :=
  ⟨dev.asyncEvent, dev.perPortStatus, dev.lastConnectorChanged, dev.alertedConnectorsMap, dev.changeMask, dev.reported⟩

/-- PPM_RESET -/
def Core.reset (c : Core) : Core := ⟨false, fun _ => 0, 0, 0, 0, c.reported⟩

def Core.acknowledged (c : Core) : Core :=
  { c with
    asyncEvent := true
    perPortStatus := Function.update c.perPortStatus (c.lastConnectorChanged - 1) 0
    lastConnectorChanged := 0 }

variable {dev : Device} {numPorts : Nat}

/-! ## What commands do -/

@[simp] theorem core_notify : (ppmCommonOpmNotify dev).core = dev.core := by
  unfold ppmCommonOpmNotify
  split <;> rfl

@[simp] theorem ppmState_notify : (ppmCommonOpmNotify dev).ppmState = dev.ppmState := by
  unfold ppmCommonOpmNotify
  split <;> rfl

@[simp] theorem core_invalidAckNotify : (invalidAckNotify dev).core = dev.core := by simp [invalidAckNotify]; rfl

@[simp] theorem ppmState_invalidAckNotify : (invalidAckNotify dev).ppmState = dev.ppmState := by
  simp [invalidAckNotify]; rfl

theorem core_clearProcessed : (clearProcessed dev).core = dev.core := by
  unfold clearProcessed
  split <;> rfl

theorem core_completeAck {nextCommand : BitVec 8} {ok : Bool} : (completeAck dev nextCommand ok).core = dev.core := by
  unfold completeAck
  split
  · rw [core_notify]
    rfl
  · split
    · rw [core_notify]
      rfl
    · rw [core_notify]

theorem core_completeProcessing {nextCommand : BitVec 8} {ok : Bool} :
    (completeProcessing dev nextCommand ok).core = dev.core := by
  unfold completeProcessing
  split
  · rw [core_notify]
    rfl
  · split
    · rw [core_notify]
      rfl
    · split
      · rw [core_notify]
        rfl
      · rw [core_notify]
        rfl

theorem core_complete {nextCommand : BitVec 8} {acking ok : Bool} :
    (complete dev nextCommand acking ok).core = dev.core := by
  unfold complete
  rw [core_clearProcessed]
  cases acking
  · exact core_completeProcessing
  · exact core_completeAck

/-! ## Where the PPM thread is -/

def At (dev : Device) : Pc → Prop
  | .starting => dev.ppmState = .notReady
  | .loop | .woken => dev.ppmState ≠ .processingCommand
  | .waiting => dev.ppmState ≠ .processingCommand ∧ dev.command = false ∧
      (dev.ppmState.upToIdleNotify = true → dev.asyncEvent = false)
  | .readStatus port => dev.ppmState = .idleNotify ∧ dev.asyncEvent = true ∧ dev.alertedConnectorsMap.getLsbD port = true
  | .executing command ackCi acking => dev.command = true ∧ command ≠ ucsiPpmReset ∧
      (ackCi = true → dev.lastConnectorChanged ≠ 0) ∧
      (acking = false → dev.ppmState = .processingCommand) ∧
      (acking = true → dev.ppmState = .waitingCcAck ∨ dev.ppmState = .waitingAsyncEvAck)

/-- What a turn of ppm_common_taskloop comes to. -/
inductive Turn (numPorts : Nat) (dev : Device) : Device → Pc → Prop where
  /-- Nothing that alerts depend on happens. -/
  | rest {dev' : Device} (hstate : dev'.ppmState = dev.ppmState) (hcore : dev'.core = dev.core) :
      Turn numPorts dev dev' .loop
  /-- Nobody is to be told of the asynchronous event. -/
  | dropped (hstate : dev.ppmState = .idle) : Turn numPorts dev (clearAsyncEvent dev) .loop
  | reset {dev' : Device} (hstate : dev.ppmState ≠ .notReady) (hcommand : matchPendingCommand dev ucsiPpmReset = true)
    (hcore : dev'.core = dev.core.reset) (hstate' : dev'.ppmState = .idle) : Turn numPorts dev dev' .loop
  | enabled {dev' : Device} (mask : BitVec 16) (hstate : dev.ppmState ≠ .notReady)
      (hcommand : matchPendingCommand dev ucsiSetNotificationEnable = true)
    (hcore : dev'.core = { dev.core with changeMask := mask })
    (hstate' : dev'.ppmState = .waitingCcAck ∨ dev'.ppmState = .idleNotify) :
    Turn numPorts dev dev' .loop
  | served {dev' : Device} (hstate : dev.ppmState.notifies = true) (hcore : dev'.core = dev.core)
    (hstate' : dev'.ppmState.notifies = true ∧ dev'.ppmState ≠ .processingCommand) : Turn numPorts dev dev' .loop
  | called {dev' : Device} {command : BitVec 8} {ackCi acking : Bool} (hstate : dev.ppmState.notifies = true)
    (hcore : dev'.core = dev.core) (hat : At dev' (.executing command ackCi acking)) :
    Turn numPorts dev dev' (.executing command ackCi acking)
  | reading (hstate : dev.ppmState = .idleNotify) (hasync : dev.asyncEvent = true) (hmap : dev.alertedConnectorsMap ≠ 0) :
    Turn numPorts dev (statusWritten dev (findLsbSet dev.alertedConnectorsMap - 1) 0)
      (.readStatus (findLsbSet dev.alertedConnectorsMap - 1))
  | finished (hstate : dev.ppmState = .idleNotify) (hasync : dev.asyncEvent = true) (hmap : dev.alertedConnectorsMap = 0) :
    Turn numPorts dev (finishAsyncEvent numPorts dev none) .loop

theorem ppmState_clearProcessed : (clearProcessed dev).ppmState = dev.ppmState := by
  unfold clearProcessed
  split <;> rfl

theorem ppmState_complete {nextCommand : BitVec 8} {acking ok : Bool} (hreset : ok = true → nextCommand ≠ ucsiPpmReset)
    (hacking : acking = true → dev.ppmState = .waitingCcAck ∨ dev.ppmState = .waitingAsyncEvAck) :
    (complete dev nextCommand acking ok).ppmState.notifies = true ∧
      (complete dev nextCommand acking ok).ppmState ≠ .processingCommand := by
  unfold complete
  rw [ppmState_clearProcessed]
  cases acking
  · unfold completeProcessing
    cases ok
    · simp [PpmState.notifies]
    · have hne : nextCommand ≠ ucsiPpmReset := hreset rfl
      by_cases hack : nextCommand = ucsiAckCcCi
      · simp [hack, ucsiAckCcCi, ucsiPpmReset, PpmState.notifies, setAcknowledged, clearCciExceptConnector]
      · simp [hne, hack, PpmState.notifies]
  · unfold completeAck
    cases ok
    · obtain h | h := hacking rfl
      · simp [h, PpmState.notifies]
      · simp [h, PpmState.notifies]
    · have hne : nextCommand ≠ ucsiPpmReset := hreset rfl
      simp [hne, PpmState.notifies, setAcknowledged, clearCciExceptConnector]

theorem ppmState_complete_reset {acking : Bool} : (complete dev ucsiPpmReset acking true).ppmState = .idle := by
  unfold complete
  rw [ppmState_clearProcessed]
  cases acking
  · simp [completeProcessing, clearLastError]
  · simp [completeAck]

/-- SET_NOTIFICATION_ENABLE is acknowledged, or it was taken for an acknowledgement. -/
theorem ppmState_complete_enable {acking : Bool} :
    (complete dev ucsiSetNotificationEnable acking true).ppmState = .waitingCcAck ∨
      (complete dev ucsiSetNotificationEnable acking true).ppmState = .idleNotify := by
  unfold complete
  rw [ppmState_clearProcessed]
  cases acking
  · simp [completeProcessing, ucsiSetNotificationEnable, ucsiPpmReset, ucsiAckCcCi]
  · simp [completeAck, ucsiSetNotificationEnable, ucsiPpmReset, setAcknowledged, clearCciExceptConnector]

theorem executePendingCmd_done {dev' : Device} {ok : Bool} (h : executePendingCmd dev = .done ok dev') :
    dev'.ppmState = dev.ppmState ∧
      ((dev.control.command ≠ ucsiPpmReset ∧ dev.control.command ≠ ucsiSetNotificationEnable ∧ dev'.core = dev.core) ∨
        (dev.control.command = ucsiPpmReset ∧ ok = true ∧ dev'.core = dev.core.reset) ∨
        (dev.control.command = ucsiSetNotificationEnable ∧ ok = true ∧
          ∃ mask, dev'.core = { dev.core with changeMask := mask })) := by
  unfold executePendingCmd at h
  dsimp only at h
  split at h
  case isTrue hinvalid =>
    cases h
    refine ⟨rfl, .inl ⟨?_, ?_, rfl⟩⟩
    · rintro heq
      rw [heq] at hinvalid
      exact absurd hinvalid (by decide)
    · rintro heq
      rw [heq] at hinvalid
      exact absurd hinvalid (by decide)
  case isFalse =>
    split at h
    · cases h
    · split at h
      case isTrue herror =>
        cases h
        refine ⟨rfl, .inl ⟨?_, ?_, rfl⟩⟩
        · rw [herror.1]
          decide
        · rw [herror.1]
          decide
      case isFalse =>
        split at h
        case isTrue hreset =>
          cases h
          exact ⟨rfl, .inr (.inl ⟨hreset, rfl, rfl⟩)⟩
        case isFalse hreset =>
          split at h
          case isTrue henable =>
            cases h
            exact ⟨rfl, .inr (.inr ⟨henable, rfl, _, rfl⟩)⟩
          case isFalse henable =>
            split at h
            · cases h
              exact ⟨rfl, .inl ⟨hreset, henable, rfl⟩⟩
            · cases h

theorem executePendingCmd_call {ackCi : Bool} (h : executePendingCmd dev = .call ackCi) :
    dev.control.command ≠ ucsiPpmReset ∧ dev.control.command ≠ ucsiSetNotificationEnable ∧
      (ackCi = true → dev.control.command = ucsiAckCcCi ∧ dev.control.connectorChangeAck = true) := by
  unfold executePendingCmd at h
  dsimp only at h
  split at h
  · cases h
  · split at h
    case isTrue hack =>
      cases h
      rw [hack]
      exact ⟨by decide, by decide, fun hset => ⟨rfl, hset⟩⟩
    case isFalse =>
      split at h
      · cases h
      · split at h
        · cases h
        · split at h
          · cases h
          · split at h
            · cases h
            case isFalse hreset henable _ =>
              cases h
              exact ⟨hreset, henable, fun hset => by cases hset⟩

/-- What executing a command comes to. `dev` is at the command and `before` is as `dev` was before that. -/
theorem execute_turn {before : Device} {acking : Bool} (hcore : dev.core = before.core)
    (hcontrol : dev.control = before.control) (hcommand : before.command = true) (hdev : dev.command = true)
    (hready : before.ppmState ≠ .notReady)
    (hprocessing : acking = false → dev.ppmState = .processingCommand)
    (hacking : acking = true → dev.ppmState = .waitingCcAck ∨ dev.ppmState = .waitingAsyncEvAck)
    (hack : before.control.command = ucsiAckCcCi → before.control.connectorChangeAck = true →
      before.lastConnectorChanged ≠ 0)
    (hnotifies : before.control.command ≠ ucsiPpmReset → before.control.command ≠ ucsiSetNotificationEnable →
      before.ppmState.notifies = true) :
    Turn numPorts before (execute dev acking).1 (execute dev acking).2 := by
  have hmatch : ∀ {command}, dev.control.command = command → matchPendingCommand before command = true := by
    intro command heq
    simp [matchPendingCommand, hcommand, ← hcontrol, heq]
  unfold execute
  rcases hexecute : executePendingCmd dev with ⟨ok, dev'⟩ | ackCi
  · obtain ⟨hstate, ⟨hreset, henable, hsame⟩ | ⟨hreset, rfl, hzero⟩ | ⟨henable, rfl, mask, hmask⟩⟩ :=
      executePendingCmd_done hexecute
    · dsimp only
      rw [hcontrol] at hreset henable ⊢
      have hafter := @ppmState_complete dev' before.control.command _ ok (fun _ => hreset) (fun h => hstate ▸ hacking h)
      exact .served (hnotifies hreset henable) (core_complete.trans (hsame.trans hcore)) hafter
    · dsimp only
      rw [hreset]
      refine .reset hready (hmatch hreset) ?_ ppmState_complete_reset
      rw [core_complete, hzero, hcore]
    · dsimp only
      rw [henable]
      refine .enabled mask hready (hmatch henable) ?_ ppmState_complete_enable
      rw [core_complete, hmask, hcore]
  · obtain ⟨hreset, henable, hset⟩ := executePendingCmd_call hexecute
    have hlast : dev.lastConnectorChanged = before.lastConnectorChanged := congrArg Core.lastConnectorChanged hcore
    dsimp only
    refine .called ?_ hcore ⟨hdev, hreset, ?_, hprocessing, hacking⟩
    · rw [hcontrol] at hreset henable
      exact hnotifies hreset henable
    · intro hack'
      obtain ⟨hcc, hci⟩ := hset hack'
      rw [hcontrol] at hcc hci
      rw [hlast]
      exact hack hcc hci

theorem handlePendingCommand_turn (hcommand : dev.command = true) (hready : dev.ppmState ≠ .notReady)
    (hack : matchPendingCommand dev ucsiAckCcCi = true → isInvalidAck dev = false)
    (hidle : dev.ppmState = .idle →
      matchPendingCommand dev ucsiSetNotificationEnable = true ∨ matchPendingCommand dev ucsiPpmReset = true) :
    Turn numPorts dev (handlePendingCommand dev).1 (handlePendingCommand dev).2 := by
  have hvalid : dev.control.command = ucsiAckCcCi → dev.control.connectorChangeAck = true →
      dev.lastConnectorChanged ≠ 0 := by
    intro hcc hci hzero
    have hok := hack (by simp [matchPendingCommand, hcommand, hcc])
    simp [isInvalidAck, hci, hzero] at hok
  have hnotifies : dev.control.command ≠ ucsiPpmReset → dev.control.command ≠ ucsiSetNotificationEnable →
      dev.ppmState.notifies = true := by
    intro hreset henable
    cases hstate : dev.ppmState with
    | notReady => exact absurd hstate hready
    | idle =>
      obtain h | h := hidle hstate
      · simp [matchPendingCommand, henable] at h
      · simp [matchPendingCommand, hreset] at h
    | idleNotify => rfl
    | processingCommand => rfl
    | waitingCcAck => rfl
    | waitingAsyncEvAck => rfl
  unfold handlePendingCommand
  rw [hcommand]
  cases hstate : dev.ppmState with
  | notReady => exact absurd hstate hready
  | idle =>
    exact @execute_turn _ _ dev _ rfl rfl hcommand rfl hready (fun _ => rfl) (fun h => by cases h) hvalid hnotifies
  | idleNotify =>
    exact @execute_turn _ _ dev _ rfl rfl hcommand rfl hready (fun _ => rfl) (fun h => by cases h) hvalid hnotifies
  | processingCommand =>
    exact @execute_turn _ _ dev _ rfl rfl hcommand hcommand hready (fun _ => hstate) (fun h => by cases h) hvalid hnotifies
  | waitingCcAck =>
    exact @execute_turn _ _ dev _ rfl rfl hcommand hcommand hready (fun h => by cases h)
      (fun _ => .inl hstate) hvalid hnotifies
  | waitingAsyncEvAck =>
    exact @execute_turn _ _ dev _ rfl rfl hcommand hcommand hready (fun h => by cases h)
      (fun _ => .inr hstate) hvalid hnotifies

theorem handleAsyncEvent_turn (hasync : dev.asyncEvent = true)
    (hstate : dev.ppmState = .idle ∨ dev.ppmState = .idleNotify) :
    Turn numPorts dev (handleAsyncEvent numPorts dev).1 (handleAsyncEvent numPorts dev).2 := by
  unfold handleAsyncEvent
  rw [hasync]
  obtain hidle | hnotify := hstate
  · rw [hidle]
    exact .dropped hidle
  · rw [hnotify]
    by_cases hmap : dev.alertedConnectorsMap = 0
    · simp only [hmap]
      exact .finished hnotify hasync hmap
    · dsimp only
      rw [if_neg (by decide), if_neg (by decide), if_pos hmap]
      exact .reading hnotify hasync hmap

theorem not_reset_of_ack (hack : matchPendingCommand dev ucsiAckCcCi = true) :
    matchPendingCommand dev ucsiPpmReset = false := by
  rw [matchPendingCommand, Bool.and_eq_true, beq_iff_eq] at hack
  rw [matchPendingCommand, hack.2]
  exact Bool.and_false _

theorem taskloop_turn (hstate : dev.ppmState ≠ .processingCommand) :
    Turn numPorts dev (taskloop numPorts dev).1 (taskloop numPorts dev).2 := by
  unfold taskloop
  cases hcase : dev.ppmState with
  | notReady => exact .rest rfl rfl
  | idle =>
    dsimp only
    split
    case isTrue hcommand =>
      split
      case isTrue hmatch =>
        have hready : dev.ppmState ≠ .notReady := by simp [hcase]
        refine handlePendingCommand_turn hcommand hready ?_ fun _ => (Bool.or_eq_true _ _).mp hmatch
        -- only the two commands are handled
        intro hack
        simp [matchPendingCommand, hcommand, ucsiSetNotificationEnable, ucsiPpmReset, ucsiAckCcCi] at hmatch hack
        rw [hack] at hmatch
        exact absurd hmatch (by decide)
      case isFalse => exact .rest rfl rfl
    case isFalse =>
      split
      case isTrue hasync => exact handleAsyncEvent_turn hasync (.inl hcase)
      case isFalse => exact .rest rfl rfl
  | idleNotify =>
    dsimp only
    split
    case isTrue => exact .rest ppmState_invalidAckNotify core_invalidAckNotify
    case isFalse hvalid =>
      split
      case isTrue hcommand =>
        have hready : dev.ppmState ≠ .notReady := by simp [hcase]
        refine handlePendingCommand_turn hcommand hready ?_ fun h => by simp [hcase] at h
        intro hack
        simpa [hack] using hvalid
      case isFalse =>
        split
        case isTrue hasync => exact handleAsyncEvent_turn hasync (.inr hcase)
        case isFalse => exact .rest rfl rfl
  | processingCommand => exact absurd hcase hstate
  | waitingCcAck =>
    dsimp only
    split
    case isTrue hcommand =>
      split
      case isTrue => exact .rest ppmState_invalidAckNotify core_invalidAckNotify
      case isFalse hvalid =>
        have hready : dev.ppmState ≠ .notReady := by simp [hcase]
        refine handlePendingCommand_turn hcommand hready ?_ fun h => by simp [hcase] at h
        intro hack
        simpa [hack, not_reset_of_ack hack] using hvalid
    case isFalse => exact .rest rfl rfl
  | waitingAsyncEvAck =>
    dsimp only
    split
    case isTrue hcommand =>
      split
      case isTrue => exact .rest ppmState_invalidAckNotify core_invalidAckNotify
      case isFalse hvalid =>
        split
        case isTrue hack =>
          have hready : dev.ppmState ≠ .notReady := by simp [hcase]
          refine handlePendingCommand_turn hcommand hready ?_ fun h => by simp [hcase] at h
          intro _
          simpa [hack, not_reset_of_ack hack] using hvalid
        case isFalse hack =>
          -- the command is handled as in PPM_STATE_IDLE_NOTIFY
          have hready : dev.ppmState ≠ .notReady := by simp [hcase]
          have hother : dev.control.command ≠ ucsiAckCcCi := by simpa [matchPendingCommand, hcommand] using hack
          unfold handlePendingCommand
          dsimp only
          rw [hcommand]
          refine @execute_turn _ _ dev _ rfl rfl hcommand rfl hready (fun _ => rfl) (fun h => by cases h) ?_ ?_
          · exact fun h => absurd h hother
          · intro _ _
            rw [hcase]
            rfl
    case isFalse => exact .rest rfl rfl

/-! ## Steps -/

/-- What a step of the system comes to. -/
inductive Moves (numPorts : Nat) (s : State) : Action → State → Prop where
  | waits (hpc : s.pc = .loop) (hwait : mustWait s.dev = true) : Moves numPorts s .run { s with pc := .waiting }
  | turns (hpc : s.pc = .loop ∧ mustWait s.dev = false ∨ s.pc = .woken) :
    Moves numPorts s .run ⟨(taskloop numPorts s.dev).1, (taskloop numPorts s.dev).2, s.opm⟩
  | started {r : DriverResult} {status : BitVec 16} (hpc : s.pc = .starting) :
    Moves numPorts s (.driverReturn r status) { s with dev := started s.dev r, pc := .loop }
  | statusRead {r : DriverResult} {status : BitVec 16} {port : Nat} (hpc : s.pc = .readStatus port) :
    Moves numPorts s (.driverReturn r status) { s with dev := statusRead numPorts s.dev port status, pc := .loop }
  | executed {r : DriverResult} {status : BitVec 16} {command : BitVec 8} {ackCi acking : Bool}
    (hpc : s.pc = .executing command ackCi acking) :
    Moves numPorts s (.driverReturn r status)
      { s with
        dev := complete (executed s.dev command ackCi r).2 command acking (executed s.dev command ackCi r).1
        pc := .loop }
  | alerted {lpmId : Nat} (hunlocked : s.pc.unlocked = true) (hpos : lpmId ≠ 0) (hle : lpmId ≤ numPorts) :
    Moves numPorts s (.lpmAlert lpmId) { s with dev := lpmAlert s.dev lpmId, pc := s.pc.signal }
  | ignored {lpmId : Nat} (hunlocked : s.pc.unlocked = true) (hinvalid : ¬(lpmId ≠ 0 ∧ lpmId ≤ numPorts)) :
    Moves numPorts s (.lpmAlert lpmId) s
  | refused {c : Control} (hunlocked : s.pc.unlocked = true) (hopm : s.opm = none)
    (hbusy : (s.dev.command || s.dev.cci.busy) ≠ (c.command == ucsiCancel)) : Moves numPorts s (.check c) s
  | accepted {c : Control} (hunlocked : s.pc.unlocked = true) (hopm : s.opm = none)
    (hbusy : (s.dev.command || s.dev.cci.busy) = (c.command == ucsiCancel)) :
    Moves numPorts s (.check c) { s with opm := some c }
  | written {c : Control} (hunlocked : s.pc.unlocked = true) (hopm : s.opm = some c) :
    Moves numPorts s .write { dev := { s.dev with control := c, command := true }, pc := s.pc.signal, opm := none }
  | registered : Moves numPorts s .registerNotify { s with dev := { s.dev with opmNotify := true } }

theorem step_moves {s s' : State} {a : Action} (hstep : step numPorts a s = some s') : Moves numPorts s a s' := by
  cases a with
  | run =>
    simp only [step] at hstep
    split at hstep
    case h_1 hpc =>
      split at hstep
      case isTrue hwait =>
        cases hstep
        exact .waits hpc hwait
      case isFalse hawake =>
        cases hstep
        exact .turns (.inl ⟨hpc, Bool.eq_false_iff.mpr hawake⟩)
    case h_2 hpc =>
      cases hstep
      exact .turns (.inr hpc)
    case h_3 => cases hstep
  | driverReturn r status =>
    simp only [step] at hstep
    split at hstep
    case h_1 hpc =>
      cases hstep
      exact .started hpc
    case h_2 port hpc =>
      cases hstep
      exact .statusRead hpc
    case h_3 command ackCi acking hpc =>
      cases hstep
      exact .executed hpc
    case h_4 => cases hstep
  | lpmAlert lpmId =>
    simp only [step] at hstep
    split at hstep
    case isTrue hunlocked =>
      split at hstep
      case isTrue hvalid =>
        cases hstep
        exact .alerted hunlocked hvalid.1 hvalid.2
      case isFalse hinvalid =>
        cases hstep
        exact .ignored hunlocked hinvalid
    case isFalse => cases hstep
  | check c =>
    simp only [step] at hstep
    split at hstep
    case isTrue hguard =>
      split at hstep
      case isTrue hbusy =>
        cases hstep
        exact .refused hguard.1 hguard.2 hbusy
      case isFalse hfree =>
        cases hstep
        exact .accepted hguard.1 hguard.2 (not_not.mp hfree)
    case isFalse => cases hstep
  | write =>
    simp only [step] at hstep
    split at hstep
    case h_1 c hopm =>
      split at hstep
      case isTrue hunlocked =>
        cases hstep
        exact .written hunlocked hopm
      case isFalse => cases hstep
    case h_2 => cases hstep
  | registerNotify =>
    cases hstep
    exact .registered

end ChromeEc.Ucsi
