import ChromeEc.Ucsi.Cancel

/- The CCI and the indices of per_port_status.

  The CCI is written by many functions. While a command is processed it is busy and nothing else,
  and otherwise its connector change is last_connector_changed, which only the end of an
  asynchronous event sets. Ports are found in the map of alerts, which only has bits of
  connectors that there are, or in a scan of per_port_status.

  What is proved: in every run the CCI is consistent and every index is that of a port
  (`cci_consistent`). -/
namespace ChromeEc.Ucsi
open Lib Steps

variable {dev dev' : Device} {numPorts : Nat} {s s' : State}

/-! ## The CCI -/

/-- What the CCI is when it is not busy. -/
structure Settled (dev : Device) : Prop where
  idle : dev.cci.busy = false
  connector : dev.cci.connectorChange = dev.lastConnectorChanged % 128

/-- The CCI while the PPM thread is at a place. -/
def CciAt (dev : Device) : Pc → Prop
  | .starting => Settled dev ∧ dev.lastConnectorChanged = 0
  | .executing _ _ false => dev.cci = { Cci.zero with busy := true }
  | _ => Settled dev

theorem Settled.congr (h : Settled dev) (hcci : dev'.cci = dev.cci)
    (hlast : dev'.lastConnectorChanged = dev.lastConnectorChanged) :
    Settled dev' := by
  refine ⟨?_, ?_⟩
  · rw [hcci]
    exact h.idle
  · rw [hcci, hlast]
    exact h.connector

@[simp] theorem last_notify : (ppmCommonOpmNotify dev).lastConnectorChanged = dev.lastConnectorChanged :=
  congrArg Core.lastConnectorChanged core_notify

theorem Settled.notify (h : Settled dev) : Settled (ppmCommonOpmNotify dev) := h.congr cci_notify last_notify

theorem settled_setAcknowledged : Settled (setAcknowledged dev) := ⟨rfl, rfl⟩

theorem settled_setCciError : Settled (setCciError dev) := ⟨rfl, rfl⟩

theorem settled_setCciNotSupported : Settled (setCciNotSupported dev) := ⟨rfl, rfl⟩

theorem settled_completedCci {ucsiCommand : BitVec 8} {ret : Int} :
    Settled { dev with cci := completedCci dev ucsiCommand ret } := by
  unfold completedCci
  dsimp only
  split
  · exact ⟨rfl, rfl⟩
  · split
    · exact ⟨rfl, rfl⟩
    · exact ⟨rfl, rfl⟩

theorem settled_succeed {ucsiCommand : BitVec 8} {ackCi : Bool} {ret : Int} :
    Settled (succeed dev ucsiCommand ackCi ret) := by
  cases ackCi
  · exact settled_completedCci
  · exact @settled_completedCci (connectorAcknowledged dev) _ _

theorem settled_invalidAckNotify : Settled (invalidAckNotify dev) := by
  apply Settled.notify
  exact settled_setCciError.congr rfl rfl

theorem settled_executed {command : BitVec 8} {ackCi : Bool} {r : DriverResult} :
    Settled (executed dev command ackCi r).2 := by
  unfold executed
  cases r with
  | ok ret => exact settled_succeed
  | error e =>
    dsimp only
    split
    · exact settled_setCciError
    · exact settled_setCciError

theorem settled_done {ok : Bool} (h : executePendingCmd dev = .done ok dev') : Settled dev' := by
  unfold executePendingCmd at h
  dsimp only at h
  split at h
  · cases h
    exact settled_setCciNotSupported
  · split at h
    · cases h
    · split at h
      · cases h
        exact settled_succeed
      · split at h
        · cases h
          exact settled_succeed
        · split at h
          · cases h
            exact settled_succeed
          · split at h
            · cases h
              exact settled_succeed
            · cases h

theorem Settled.complete (h : Settled dev) {nextCommand : BitVec 8} {acking ok : Bool} :
    Settled (complete dev nextCommand acking ok) := by
  have hprocessed : ∀ d : Device, Settled d → Settled (clearProcessed d) := by
    intro d hd
    unfold clearProcessed
    split
    · exact hd.congr rfl rfl
    · exact hd
  apply hprocessed
  cases acking
  · unfold completeProcessing
    simp only [Bool.false_eq_true, if_false]
    split
    · exact (h.congr rfl rfl : Settled { dev with ppmState := .waitingCcAck }).notify
    · split
      · exact (h.congr rfl rfl : Settled (clearLastError { dev with ppmState := .idle })).notify
      · split
        · exact settled_setAcknowledged.notify
        · exact (h.congr rfl rfl : Settled { dev with ppmState := .waitingCcAck }).notify
  · unfold completeAck
    simp only [if_true]
    split
    · exact (h.congr rfl rfl : Settled { dev with ppmState := .idle }).notify
    · split
      · exact settled_setAcknowledged.notify
      · exact h.notify

theorem cci_execute {acking : Bool} (hbusy : acking = false → dev.cci = { Cci.zero with busy := true })
    (hidle : acking = true → Settled dev) : CciAt (execute dev acking).1 (execute dev acking).2 := by
  unfold execute
  cases hexecute : executePendingCmd dev with
  | done ok dev' =>
    exact (settled_done hexecute).complete
  | call ackCi =>
    cases acking
    · exact hbusy rfl
    · exact hidle rfl

theorem cci_handlePendingCommand (h : Settled dev) (hstate : dev.ppmState ≠ .processingCommand) :
    CciAt (handlePendingCommand dev).1 (handlePendingCommand dev).2 := by
  unfold handlePendingCommand
  split
  · exact h
  · cases hcase : dev.ppmState with
    | notReady => exact h.congr rfl rfl
    | idle => exact cci_execute (fun _ => rfl) (fun ha => Bool.noConfusion ha)
    | idleNotify => exact cci_execute (fun _ => rfl) (fun ha => Bool.noConfusion ha)
    | processingCommand => exact absurd hcase hstate
    | waitingCcAck => exact cci_execute (fun ha => Bool.noConfusion ha) (fun _ => h)
    | waitingAsyncEvAck => exact cci_execute (fun ha => Bool.noConfusion ha) (fun _ => h)

theorem Settled.finishAsyncEvent (h : Settled dev) {alertPort : Option Nat} :
    Settled (finishAsyncEvent numPorts dev alertPort) := by
  unfold Ucsi.finishAsyncEvent
  split
  · rename_i port _
    have htold : Settled (ppmCommonOpmNotify (setConnectorChange dev port)) := by
      apply Settled.notify
      exact ⟨h.idle, rfl⟩
    exact htold.congr rfl rfl
  · exact h.congr rfl rfl

theorem cci_handleAsyncEvent (h : Settled dev) :
    CciAt (handleAsyncEvent numPorts dev).1 (handleAsyncEvent numPorts dev).2 := by
  unfold handleAsyncEvent
  split
  · exact h
  · split
    · exact h.congr rfl rfl
    · split
      · exact h.congr rfl rfl
      · exact h.finishAsyncEvent

theorem cci_taskloop (h : Settled dev) (hstate : dev.ppmState ≠ .processingCommand) :
    CciAt (taskloop numPorts dev).1 (taskloop numPorts dev).2 := by
  unfold taskloop
  cases hcase : dev.ppmState with
  | notReady => exact h
  | idle =>
    dsimp only
    split
    · split
      · exact cci_handlePendingCommand h hstate
      · exact h.congr rfl rfl
    · split
      · exact cci_handleAsyncEvent h
      · exact h
  | idleNotify =>
    dsimp only
    split
    · exact settled_invalidAckNotify
    · split
      · exact cci_handlePendingCommand h hstate
      · split
        · exact cci_handleAsyncEvent h
        · exact h
  | processingCommand => exact absurd hcase hstate
  | waitingCcAck =>
    dsimp only
    split
    · split
      · exact settled_invalidAckNotify
      · exact cci_handlePendingCommand h hstate
    · exact h
  | waitingAsyncEvAck =>
    dsimp only
    split
    · split
      · exact settled_invalidAckNotify
      · split
        · exact cci_handlePendingCommand h hstate
        · refine cci_handlePendingCommand (h.congr rfl rfl) ?_
          exact PpmState.noConfusion
    · exact h

/-! ## Ports -/

/-- Every port that is named is a port. -/
structure InRange (numPorts : Nat) (c : Core) : Prop where
  last : c.lastConnectorChanged = 0 ∨ ∃ port, c.reported.getLast? = some port ∧ c.lastConnectorChanged = port + 1
  last_le : c.lastConnectorChanged ≤ numPorts ∧ c.lastConnectorChanged ≤ 8
  status : ∀ port, c.perPortStatus port ≠ 0 → port < numPorts ∧ port < 8
  map : ∀ port, c.alertedConnectorsMap.getLsbD port = true → port < numPorts

variable {c : Core}

theorem inRange_reset : InRange numPorts c.reset :=
  ⟨.inl rfl, ⟨Nat.zero_le _, Nat.zero_le _⟩, fun _ hne => absurd rfl hne, fun port hbit => by simp [Core.reset] at hbit⟩

theorem InRange.written (h : InRange numPorts c) {port : Nat} (hport : port < numPorts ∧ port < 8) (status : BitVec 16) :
    InRange numPorts { c with perPortStatus := Function.update c.perPortStatus port status } := by
  refine ⟨h.last, h.last_le, fun p hne => ?_, h.map⟩
  obtain rfl | hp := eq_or_ne p port
  · exact hport
  · dsimp only at hne
    rw [Function.update_of_ne hp] at hne
    exact h.status p hne

theorem InRange.acknowledged (h : InRange numPorts c) (hlast : c.lastConnectorChanged ≠ 0) :
    InRange numPorts c.acknowledged := by
  have hport : c.lastConnectorChanged - 1 < numPorts ∧ c.lastConnectorChanged - 1 < 8 := by
    have hle := h.last_le
    omega
  have hwritten := h.written hport 0
  exact ⟨.inl rfl, ⟨Nat.zero_le _, Nat.zero_le _⟩, hwritten.status, h.map⟩

theorem InRange.told (h : InRange numPorts c) {port : Nat} (hport : port < numPorts ∧ port < 8) :
    InRange numPorts (c.told port) :=
  ⟨.inr ⟨port, by simp [Core.told], rfl⟩, ⟨hport.1, hport.2⟩, h.status, h.map⟩

/-- Only a port whose status shows a change is told of, or the one that is awaited anyway. -/
theorem portToAlert_lt (h : InRange numPorts dev.core) {alertPort : Option Nat} {port : Nat}
    (halert : alertPort = some port → port < numPorts ∧ port < 8)
    (hport : portToAlert numPorts dev alertPort = some port) :
    port < numPorts ∧ port < 8 := by
  unfold portToAlert at hport
  split at hport
  · have hchanged : changed dev port = true := by
      have hfound := List.find?_some hport
      exact hfound
    refine h.status port ?_
    show dev.perPortStatus port ≠ 0
    intro hzero
    simp [changed, hzero] at hchanged
  · exact halert hport

theorem InRange.finishAsyncEvent (h : InRange numPorts dev.core) {alertPort : Option Nat}
    (halert : ∀ port, alertPort = some port → port < numPorts ∧ port < 8) :
    InRange numPorts (finishAsyncEvent numPorts dev alertPort).core := by
  cases hport : portToAlert numPorts dev alertPort with
  | some port =>
    rw [(finishAsyncEvent_some hport).1]
    exact h.told (portToAlert_lt h (halert port) hport)
  | none =>
    rw [finishAsyncEvent_none hport]
    exact ⟨h.last, h.last_le, h.status, h.map⟩

theorem InRange.bit (h : InRange numPorts c) {port : Nat} (hbit : c.alertedConnectorsMap.getLsbD port = true) :
    port < numPorts ∧ port < 8 := ⟨h.map port hbit, BitVec.lt_of_getLsbD hbit⟩

theorem Turn.inRange {pc : Pc} (hturn : Turn numPorts dev dev' pc) (h : InRange numPorts dev.core) :
    InRange numPorts dev'.core := by
  cases hturn with
  | rest _ hcore =>
    rw [hcore]
    exact h
  | dropped => exact ⟨h.last, h.last_le, h.status, h.map⟩
  | reset _ _ hcore =>
    rw [hcore]
    exact inRange_reset
  | enabled mask _ _ hcore =>
    rw [hcore]
    exact ⟨h.last, h.last_le, h.status, h.map⟩
  | served _ hcore =>
    rw [hcore]
    exact h
  | called _ hcore =>
    rw [hcore]
    exact h
  | reading _ _ hmap => exact h.written (h.bit (findLsbSet_bit hmap)) 0
  | finished => exact h.finishAsyncEvent fun _ hnone => by cases hnone

/-! ## Accesses -/

/-- The indices that the scan for a change reads. -/
def scanAccesses (numPorts : Nat) (dev : Device) : List Int :=
  if dev.lastConnectorChanged = 0 then
    (List.range (((List.range numPorts).find? (changed dev)).elim numPorts (· + 1))).map Int.ofNat
  else []

/-- Those of ppm_common_handle_async_event up to the driver call, or to its end if there is none. -/
def asyncEventAccesses (numPorts : Nat) (dev : Device) : List Int :=
  if !dev.asyncEvent then []
  else if dev.ppmState = .notReady ∨ dev.ppmState = .idle then []
  else if dev.alertedConnectorsMap ≠ 0 then [(findLsbSet dev.alertedConnectorsMap : Int) - 1]
  else scanAccesses numPorts dev

/-- The event is handled if no command is pending. -/
def taskloopAccesses (numPorts : Nat) (dev : Device) : List Int :=
  match dev.ppmState with
  | .idle | .idleNotify => if dev.command then [] else asyncEventAccesses numPorts dev
  | _ => []

/-- Those from the driver call on: the driver writes the status of the port. -/
def statusReadAccesses (numPorts : Nat) (dev : Device) (port : Nat) (status : BitVec 16) : List Int :=
  (port : Int) :: scanAccesses numPorts (clearAlert (statusWritten dev port status) port)

/-- That of an acknowledgement of a connector change. -/
def executedAccesses (dev : Device) (ackCi : Bool) (r : DriverResult) : List Int :=
  match r with
  | .ok _ => if ackCi then [(dev.lastConnectorChanged : Int) - 1] else []
  | .error _ => []

/-- The indices of per_port_status that a step uses in the asynchronous event and for acknowledgements. -/
def accesses (numPorts : Nat) (s : State) (a : Action) : List Int :=
  match a, s.pc with
  | .run, .loop => if mustWait s.dev then [] else taskloopAccesses numPorts s.dev
  | .run, .woken => taskloopAccesses numPorts s.dev
  | .driverReturn _ status, .readStatus port => statusReadAccesses numPorts s.dev port status
  | .driverReturn r _, .executing _ ackCi _ => executedAccesses s.dev ackCi r
  | _, _ => []

def IsPort (numPorts : Nat) (i : Int) : Prop := 0 ≤ i ∧ i < numPorts

theorem isPort_scan : ∀ i ∈ scanAccesses numPorts dev, IsPort numPorts i := by
  intro i hi
  unfold scanAccesses at hi
  split at hi
  · obtain ⟨port, hport, rfl⟩ := List.mem_map.mp hi
    have hlt := List.mem_range.mp hport
    refine ⟨Int.natCast_nonneg port, Int.ofNat_lt.mpr ?_⟩
    cases hfind : (List.range numPorts).find? (changed dev) with
    | none =>
      rw [hfind] at hlt
      exact hlt
    | some found =>
      rw [hfind] at hlt
      have hfound := List.mem_range.mp (List.mem_of_find?_eq_some hfind)
      exact Nat.lt_of_lt_of_le hlt hfound
  · cases hi

theorem findLsbSet_pos {map : BitVec 8} (h : map ≠ 0) : 0 < findLsbSet map := by
  unfold findLsbSet
  cases hfind : (List.range 8).find? (map.getLsbD ·) with
  | some j => exact Nat.succ_pos j
  | none =>
    rw [List.find?_eq_none] at hfind
    refine absurd (BitVec.eq_of_getLsbD_eq fun i hi => ?_) h
    simpa using hfind i (List.mem_range.mpr hi)

theorem isPort_asyncEvent (h : InRange numPorts dev.core) : ∀ i ∈ asyncEventAccesses numPorts dev, IsPort numPorts i := by
  intro i hi
  unfold asyncEventAccesses at hi
  split at hi
  · cases hi
  · split at hi
    · cases hi
    · split at hi
      case isTrue hmap =>
        obtain rfl := List.mem_singleton.mp hi
        have hlt : findLsbSet dev.alertedConnectorsMap - 1 < numPorts := (h.bit (findLsbSet_bit hmap)).1
        have hpos := findLsbSet_pos hmap
        exact ⟨by omega, by omega⟩
      case isFalse => exact isPort_scan i hi

theorem isPort_taskloop (h : InRange numPorts dev.core) : ∀ i ∈ taskloopAccesses numPorts dev, IsPort numPorts i := by
  intro i hi
  unfold taskloopAccesses at hi
  split at hi
  · split at hi
    · cases hi
    · exact isPort_asyncEvent h i hi
  · split at hi
    · cases hi
    · exact isPort_asyncEvent h i hi
  · cases hi

/-! ## Runs -/

structure Consistent (numPorts : Nat) (s : State) : Prop where
  place : At s.dev s.pc
  cci : CciAt s.dev s.pc
  range : InRange numPorts s.dev.core

theorem CciAt.signal (h : CciAt dev s.pc) (hcci : dev'.cci = dev.cci)
    (hlast : dev'.lastConnectorChanged = dev.lastConnectorChanged) : CciAt dev' s.pc.signal := by
  cases hpc : s.pc with
  | starting =>
    rw [hpc] at h
    exact ⟨h.1.congr hcci hlast, hlast.trans h.2⟩
  | executing command ackCi acking =>
    rw [hpc] at h
    cases acking with
    | false => exact hcci.trans h
    | true => exact Settled.congr h hcci hlast
  | _ =>
    rw [hpc] at h
    exact Settled.congr h hcci hlast

theorem CciAt.turns (h : CciAt s.dev s.pc) (hpc : s.pc = .loop ∧ mustWait s.dev = false ∨ s.pc = .woken) :
    Settled s.dev := by
  obtain ⟨hpc, -⟩ | hpc := hpc
  · rw [hpc] at h
    exact h
  · rw [hpc] at h
    exact h

theorem CciAt.started (h : CciAt dev .starting) {r : DriverResult} : Settled (started dev r) := by
  obtain ⟨hsettled, hzero⟩ := h
  cases r with
  | ok ret =>
    refine ⟨rfl, ?_⟩
    show 0 = dev.lastConnectorChanged % 128
    rw [hzero]
  | error e => exact hsettled

theorem InRange.started (h : InRange numPorts dev.core) {r : DriverResult} : InRange numPorts (started dev r).core := by
  cases r with
  | ok ret => exact h
  | error e => exact h

theorem InRange.statusRead (h : InRange numPorts dev.core) {port : Nat}
    (hbit : dev.alertedConnectorsMap.getLsbD port = true)
    (status : BitVec 16) : InRange numPorts (statusRead numPorts dev port status).core := by
  have hport := h.bit hbit
  have hwritten := h.written hport status
  have hcleared : InRange numPorts (clearAlert (statusWritten dev port status) port).core := by
    refine ⟨hwritten.last, hwritten.last_le, hwritten.status, fun p hbit => h.map p ?_⟩
    have hboth : (dev.alertedConnectorsMap &&& ~~~(1#8 <<< port)).getLsbD p = true := hbit
    rw [BitVec.getLsbD_and] at hboth
    exact (Bool.and_eq_true _ _ ▸ hboth).1
  refine hcleared.finishAsyncEvent fun p hp => ?_
  split at hp
  · cases hp
    exact hport
  · cases hp

theorem InRange.executed (h : InRange numPorts dev.core) {command : BitVec 8} {ackCi acking : Bool} {r : DriverResult}
    (hack : ackCi = true → dev.lastConnectorChanged ≠ 0) :
    InRange numPorts (complete (executed dev command ackCi r).2 command acking (executed dev command ackCi r).1).core := by
  rw [core_complete]
  obtain ⟨-, hcore | ⟨hacked, hcore⟩⟩ := @executed_core dev command ackCi r
  · rw [hcore]
    exact h
  · rw [hcore]
    exact h.acknowledged (hack hacked)

theorem InRange.alerted (h : InRange numPorts c) {lpmId : Nat} (hle : lpmId ≤ numPorts) (hpos : lpmId ≠ 0) :
    InRange numPorts { c with
      asyncEvent := true
      alertedConnectorsMap := c.alertedConnectorsMap ||| (1#8 <<< (lpmId - 1)) } := by
  refine ⟨h.last, h.last_le, h.status, fun port hbit => ?_⟩
  dsimp only at hbit
  rw [getLsbD_or_alert, Bool.or_eq_true] at hbit
  obtain hbit | hnew := hbit
  · exact h.map port hbit
  · simp only [Bool.and_eq_true, beq_iff_eq] at hnew
    omega

theorem consistent_step {a : Action} (h : Consistent numPorts s) (hstep : step numPorts a s = some s') :
    Consistent numPorts s' := by
  have hplace := h.place
  have hcci := h.cci
  have hrange := h.range
  suffices hkept : CciAt s'.dev s'.pc ∧ InRange numPorts s'.dev.core from ⟨place_step hplace hstep, hkept.1, hkept.2⟩
  cases step_moves hstep with
  | waits hpc =>
    rw [hpc] at hcci
    exact ⟨hcci, hrange⟩
  | turns hpc =>
    have hstate := hplace.turns hpc
    exact ⟨cci_taskloop (hcci.turns hpc) hstate, (taskloop_turn hstate).inRange hrange⟩
  | started hpc =>
    rw [hpc] at hcci
    exact ⟨hcci.started, hrange.started⟩
  | @statusRead _ status port hpc =>
    rw [hpc] at hplace hcci
    have hsettled : Settled (clearAlert (statusWritten s.dev port status) port) := Settled.congr hcci rfl rfl
    exact ⟨hsettled.finishAsyncEvent, hrange.statusRead hplace.2.2 status⟩
  | executed hpc =>
    rw [hpc] at hplace
    exact ⟨settled_executed.complete, hrange.executed hplace.2.2.1⟩
  | alerted _ hpos hle => exact ⟨hcci.signal rfl rfl, hrange.alerted hle hpos⟩
  | ignored => exact ⟨hcci, hrange⟩
  | refused => exact ⟨hcci, hrange⟩
  | accepted => exact ⟨hcci, hrange⟩
  | written => exact ⟨hcci.signal rfl rfl, hrange⟩
  | registered =>
    refine ⟨?_, hrange⟩
    show CciAt { s.dev with opmNotify := true } s.pc
    cases hpc : s.pc with
    | starting =>
      rw [hpc] at hcci
      exact ⟨hcci.1.congr rfl rfl, hcci.2⟩
    | executing command ackCi acking =>
      rw [hpc] at hcci
      cases acking with
      | false => exact hcci
      | true => exact Settled.congr hcci rfl rfl
    | _ =>
      rw [hpc] at hcci
      exact Settled.congr hcci rfl rfl

theorem consistent_run {l : List (State × Action)} (h : Run (step numPorts) start l s) : Consistent numPorts s := by
  have hstart : Consistent numPorts start := by
    refine ⟨rfl, ⟨⟨rfl, rfl⟩, rfl⟩, .inl rfl, ⟨Nat.zero_le _, Nat.zero_le _⟩, fun _ hne => absurd rfl hne, ?_⟩
    intro port hbit
    simp [start, Device.core] at hbit
  exact h.holds hstart fun _ _ _ hinv hstep => consistent_step hinv hstep

theorem isPort_accesses (h : Consistent numPorts s) (a : Action) : ∀ i ∈ accesses numPorts s a, IsPort numPorts i := by
  intro i hi
  have hplace := h.place
  have hrange := h.range
  unfold accesses at hi
  split at hi
  · split at hi
    · cases hi
    · exact isPort_taskloop hrange i hi
  · exact isPort_taskloop hrange i hi
  · rename_i status port hpc
    rw [hpc] at hplace
    obtain rfl | hscan := List.mem_cons.mp hi
    · exact ⟨Int.natCast_nonneg port, Int.ofNat_lt.mpr (hrange.map port hplace.2.2)⟩
    · exact isPort_scan i hscan
  · rename_i r status command ackCi acking hpc
    rw [hpc] at hplace
    unfold executedAccesses at hi
    split at hi
    · split at hi
      case isTrue hack =>
        obtain rfl := List.mem_singleton.mp hi
        have hne : s.dev.lastConnectorChanged ≠ 0 := hplace.2.2.1 hack
        have hle : s.dev.lastConnectorChanged ≤ numPorts := hrange.last_le.1
        exact ⟨by omega, by omega⟩
      case isFalse => cases hi
    · cases hi
  · cases hi

/-- While the CCI is busy, it is nothing else. Otherwise its connector change is the connector reported last or 0, and
    there is such a connector. Every index of per_port_status is that of a port, and a connector change is only
    acknowledged while one is outstanding. -/
theorem cci_consistent (numPorts : Nat) (l : List (State × Action)) (s : State) (h : Run (step numPorts) start l s) :
    (s.dev.cci.busy = true → s.dev.cci = { Cci.zero with busy := true }) ∧
      (s.dev.cci.busy = false →
        (s.dev.cci.connectorChange = 0 ∨
          ∃ port, s.dev.reported.getLast? = some port ∧ s.dev.cci.connectorChange = port + 1) ∧
        s.dev.cci.connectorChange ≤ numPorts) ∧
      (∀ a, ∀ i ∈ accesses numPorts s a, IsPort numPorts i) ∧
      ∀ command acking, s.pc = .executing command true acking → s.dev.lastConnectorChanged ≠ 0 := by
  have hinv := consistent_run h
  have hcci : Settled s.dev ∨ s.dev.cci = { Cci.zero with busy := true } := by
    have hcci := hinv.cci
    cases hpc : s.pc with
    | starting =>
      rw [hpc] at hcci
      exact .inl hcci.1
    | executing command ackCi acking =>
      rw [hpc] at hcci
      cases acking with
      | false => exact .inr hcci
      | true => exact .inl hcci
    | _ =>
      rw [hpc] at hcci
      exact .inl hcci
  refine ⟨fun hbusy => ?_, fun hidle => ?_, isPort_accesses hinv, fun command acking hpc => ?_⟩
  · obtain hsettled | hcci := hcci
    · exact Bool.noConfusion (hsettled.idle.symm.trans hbusy)
    · exact hcci
  · obtain hsettled | hcci := hcci
    · have hle : s.dev.lastConnectorChanged ≤ numPorts ∧ s.dev.lastConnectorChanged ≤ 8 := hinv.range.last_le
      have hconnector : s.dev.cci.connectorChange = s.dev.lastConnectorChanged :=
        hsettled.connector.trans (Nat.mod_eq_of_lt (by omega))
      rw [hconnector]
      exact ⟨hinv.range.last, hle.1⟩
    · rw [hcci] at hidle
      cases hidle
  · have hplace := hinv.place
    rw [hpc] at hplace
    exact hplace.2.2.1 rfl

/-- Port 0 alerts and is told of, and its acknowledgement executes. -/
def acknowledging : List Action :=
  [.driverReturn (.ok 0) 0, .registerNotify, .run, .check ⟨ucsiSetNotificationEnable, 0x4000⟩, .write, .run, .run,
    .check ⟨ucsiAckCcCi, 2⟩, .write, .run, .driverReturn (.ok 0) 0, .run, .lpmAlert 1, .run,
      .driverReturn (.ok 9) 0x4000, .run,
    .check ⟨ucsiAckCcCi, 1⟩, .write, .run]

theorem cci_consistent_acknowledging : ∃ l s, Run (step 2) start l s ∧ l.map Prod.snd = acknowledging ∧
    accesses 2 s (.driverReturn (.ok 0) 0) = [0] ∧ s.dev.cci.connectorChange ≤ 2 := by
  have hsome : (trace (step 2) acknowledging ([], start)).any fun r =>
      decide (accesses 2 r.2 (.driverReturn (.ok 0) 0) = [0] ∧ r.2.dev.cci.busy = false) := by decide +kernel
  obtain ⟨l, s, run, hlabels, haccess, hidle⟩ := exists_run hsome
  exact ⟨l, s, run, hlabels, haccess, ((cci_consistent 2 l s run).2.1 hidle).2⟩

end ChromeEc.Ucsi
