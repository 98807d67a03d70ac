import ChromeEc.Ucsi.Place

/- Alerts of the LPMs, from ucsi_ppm_lpm_alert to the CCI.

  An alert is recorded in a map, and a flag says that the map is to be looked at. The PPM thread
  takes up one port at a time and clears the flag when it is done with that port. What it has
  not told the OPM of then is taken up when the OPM acknowledges what it was told of.

  What is proved (`no_alert_lost`): while notifications are enabled a recorded alert has the
  flag set or an acknowledgement to come, and no alert is forgotten before the OPM is told of
  its port or there is nothing to tell. This needs steps that are `Sound`: if nothing is to be
  told of the port that was read and no acknowledgement is awaited, then the flag is cleared with
  the alerts of other ports in the map (`alert_forgotten`). -/
namespace ChromeEc.Ucsi
open Lib Steps

variable {dev : Device} {numPorts : Nat}

/-! ## The end of an asynchronous event -/

def Core.changed (c : Core) (port : Nat) : Bool := c.changeMask &&& c.perPortStatus port != 0

/-- Nothing is to be told of when nobody waits for an acknowledgement. -/
theorem portToAlert_none {alertPort : Option Nat} (h : portToAlert numPorts dev alertPort = none)
    (hlast : dev.lastConnectorChanged = 0) : ∀ q, q < numPorts → changed dev q = false := by
  unfold portToAlert at h
  rw [if_pos hlast, List.find?_eq_none] at h
  intro q hq
  simpa using h q (List.mem_range.mpr hq)

/-! ## Alerts that the OPM has to be told of -/

/-- What an observer knows. -/
structure Watch where
  /-- The port has alerted, and the OPM is to be told. -/
  owed : Nat → Bool
  again : Bool

def nothing : Watch := ⟨fun _ => false, false⟩

/-- The OPM was told of the port, or there is nothing to tell it: its status shows no change that the OPM wants to
    hear of, the PPM was reset or the OPM wants to hear of other changes. -/
def settled (s s' : State) (a : Action) (again : Bool) (port : Nat) : Bool :=
  s'.dev.reported == s.dev.reported ++ [port] ||
    match a, s.pc with
    | .driverReturn _ status, .readStatus p => p == port && !again && s.dev.changeMask &&& status == 0
    | .run, _ =>
      (matchPendingCommand s.dev ucsiPpmReset && s.dev.ppmState != .notReady) ||
        (s'.dev.changeMask != s.dev.changeMask && !s.dev.alertedConnectorsMap.getLsbD port && !changed s'.dev port)
    | _, _ => false

def watchStep (numPorts : Nat) (o : Watch) (s s' : State) (a : Action) : Watch :=
  match a with
  | .lpmAlert lpmId =>
    if lpmId ≠ 0 ∧ lpmId ≤ numPorts then
      { owed := Function.update o.owed (lpmId - 1) true, again := o.again || s.pc == .readStatus (lpmId - 1) }
    else o
  | .run | .driverReturn _ _ => { owed := fun port => o.owed port && !settled s s' a o.again port, again := false }
  | _ => o

def watch (numPorts : Nat) (o : Watch) (x : State × Action) : Watch :=
  match step numPorts x.2 x.1 with
  | some s' => watchStep numPorts o x.1 s' x.2
  | none => o

/-- The status of a port was read. If no port has a change to tell of and no acknowledgement is awaited, then no other
    connector has alerted. If the port has alerted again meanwhile, then there is something to tell of it. -/
def SoundRead (numPorts : Nat) (again : Bool) (dev : Device) (port : Nat) : Prop :=
  (dev.lastConnectorChanged = 0 → (∀ q ∈ List.range numPorts, changed dev q = false) → dev.alertedConnectorsMap = 0) ∧
    (again = true → changed dev port = true ∨ port + 1 = dev.lastConnectorChanged)

instance {again : Bool} {port : Nat} : Decidable (SoundRead numPorts again dev port) :=
  inferInstanceAs (Decidable (_ ∧ _))

/-- The map has a bit for the connector, no alert from before is left over when notifications get enabled, and a read
    of a port's status is sound. -/
def Sound (numPorts : Nat) (o : Watch) (x : State × Action) : Prop :=
  match x.2, x.1.pc with
  | .lpmAlert lpmId, _ => lpmId ≤ 8
  | .run, _ =>
    x.1.dev.ppmState = .idle → matchPendingCommand x.1.dev ucsiSetNotificationEnable = true →
      x.1.dev.alertedConnectorsMap ≠ 0 → x.1.dev.asyncEvent = true
  | .driverReturn _ status, .readStatus port =>
    SoundRead numPorts o.again (clearAlert (statusWritten x.1.dev port status) port) port
  | _, _ => True

instance (o : Watch) : ∀ x : State × Action, Decidable (Sound numPorts o x)
  | (_, .lpmAlert lpmId) => inferInstanceAs (Decidable (lpmId ≤ 8))
  | (s, .run) =>
    inferInstanceAs (Decidable (s.dev.ppmState = .idle → matchPendingCommand s.dev ucsiSetNotificationEnable = true →
      s.dev.alertedConnectorsMap ≠ 0 → s.dev.asyncEvent = true))
  | (⟨dev, .readStatus port, _⟩, .driverReturn _ status) =>
    inferInstanceAs (Decidable (SoundRead numPorts o.again (clearAlert (statusWritten dev port status) port) port))
  | (⟨_, .starting, _⟩, .driverReturn _ _) => isTrue trivial
  | (⟨_, .loop, _⟩, .driverReturn _ _) => isTrue trivial
  | (⟨_, .waiting, _⟩, .driverReturn _ _) => isTrue trivial
  | (⟨_, .woken, _⟩, .driverReturn _ _) => isTrue trivial
  | (⟨_, .executing _ _ _, _⟩, .driverReturn _ _) => isTrue trivial
  | (_, .check _) => isTrue trivial
  | (_, .write) => isTrue trivial
  | (_, .registerNotify) => isTrue trivial

/-- No alert is forgotten. -/
structure Good (numPorts : Nat) (c : Core) (notifies : Bool) (owed : Nat → Bool) : Prop where
  quiet : notifies = false → c.changeMask = 0
  wake : notifies = true → c.alertedConnectorsMap ≠ 0 → c.asyncEvent = true ∨ c.lastConnectorChanged ≠ 0
  ports : ∀ port, owed port = true → port < numPorts
  kept : ∀ port, owed port = true →
    c.alertedConnectorsMap.getLsbD port = true ∨ (c.changed port = true ∧ c.lastConnectorChanged ≠ port + 1)
  answered : ∀ port, owed port = true → notifies = true → c.asyncEvent = true ∨ c.lastConnectorChanged ≠ 0

variable {c : Core} {notifies : Bool} {owed owed' : Nat → Bool}

theorem Good.mono (h : Good numPorts c notifies owed) (hle : ∀ port, owed' port = true → owed port = true) :
    Good numPorts c notifies owed' :=
  ⟨h.quiet, h.wake, fun p hp => h.ports p (hle p hp), fun p hp => h.kept p (hle p hp), fun p hp => h.answered p (hle p hp)⟩

theorem Good.reset (hnone : ∀ port, owed' port = false) : Good numPorts c.reset false owed' := by
  have hno : ∀ port, owed' port = true → False := fun port h => Bool.noConfusion ((hnone port).symm.trans h)
  exact ⟨fun _ => rfl, fun h => Bool.noConfusion h, fun p hp => (hno p hp).elim,
    fun p hp => (hno p hp).elim, fun p hp => (hno p hp).elim⟩

theorem Good.dropped (h : Good numPorts c false owed) : Good numPorts { c with asyncEvent := false } false owed :=
  ⟨h.quiet, fun hn => Bool.noConfusion hn, h.ports, h.kept, fun _ _ hn => Bool.noConfusion hn⟩

theorem ne_zero_of_getLsbD {map : BitVec 8} {port : Nat} (h : map.getLsbD port = true) : map ≠ 0 := by
  rintro rfl
  simp at h

theorem Good.enabled (h : Good numPorts c notifies owed) (mask : BitVec 16)
    (hmap : notifies = false → c.alertedConnectorsMap ≠ 0 → c.asyncEvent = true)
    (howed : ∀ port, owed' port = true → owed port = true ∧
      (mask ≠ c.changeMask → c.alertedConnectorsMap.getLsbD port = true ∨ mask &&& c.perPortStatus port ≠ 0)) :
    Good numPorts { c with changeMask := mask } true owed' := by
  have hwake : c.alertedConnectorsMap ≠ 0 → c.asyncEvent = true ∨ c.lastConnectorChanged ≠ 0 := by
    intro hne
    cases notifies
    · exact .inl (hmap rfl hne)
    · exact h.wake rfl hne
  refine ⟨fun hn => Bool.noConfusion hn, fun _ => hwake, fun p hp => h.ports p (howed p hp).1, ?_, ?_⟩
  · intro p hp
    obtain ⟨hbefore, hwanted⟩ := howed p hp
    obtain hbit | ⟨hchanged, hne⟩ := h.kept p hbefore
    · exact .inl hbit
    · by_cases hmask : mask = c.changeMask
      · subst hmask
        exact .inr ⟨hchanged, hne⟩
      · obtain hbit | hnow := hwanted hmask
        · exact .inl hbit
        · exact .inr ⟨by simpa [Core.changed] using hnow, hne⟩
  · intro p hp _
    obtain ⟨hbefore, -⟩ := howed p hp
    cases hn : notifies
    · -- nothing is changed with an empty mask, so the alert is in the map
      rw [hn] at h hmap
      obtain hbit | ⟨hchanged, -⟩ := h.kept p hbefore
      · exact .inl (hmap rfl (ne_zero_of_getLsbD hbit))
      · simp [Core.changed, h.quiet rfl] at hchanged
    · exact h.answered p hbefore hn

theorem Good.reading (h : Good numPorts c notifies owed) {port : Nat} (hbit : c.alertedConnectorsMap.getLsbD port = true) :
    Good numPorts { c with perPortStatus := Function.update c.perPortStatus port 0 } notifies owed := by
  refine ⟨h.quiet, h.wake, h.ports, ?_, h.answered⟩
  intro p hp
  obtain rfl | hne := eq_or_ne p port
  · exact .inl hbit
  · obtain hmap | ⟨hchanged, hlast⟩ := h.kept p hp
    · exact .inl hmap
    · refine .inr ⟨?_, hlast⟩
      unfold Core.changed
      dsimp only
      rw [Function.update_of_ne hne]
      exact hchanged

theorem Good.acknowledged (h : Good numPorts c true owed) (hlast : c.lastConnectorChanged ≠ 0) :
    Good numPorts c.acknowledged true owed := by
  refine ⟨fun hn => Bool.noConfusion hn, fun _ _ => .inl rfl, h.ports, ?_, fun _ _ _ => .inl rfl⟩
  intro p hp
  obtain hmap | ⟨hchanged, hne⟩ := h.kept p hp
  · exact .inl hmap
  · have hother : p ≠ c.lastConnectorChanged - 1 := by omega
    refine .inr ⟨?_, (Nat.succ_ne_zero p).symm⟩
    unfold Core.changed Core.acknowledged
    dsimp only
    rw [Function.update_of_ne hother]
    exact hchanged

theorem Good.told (h : ∀ port, owed port = true → port < numPorts) {port : Nat}
    (hkept : ∀ p, owed p = true → p ≠ port ∧ (c.alertedConnectorsMap.getLsbD p = true ∨ c.changed p = true)) :
    Good numPorts (c.told port) true owed := by
  refine ⟨fun hn => Bool.noConfusion hn, fun _ _ => .inr (Nat.succ_ne_zero port), h, ?_,
    fun _ _ _ => .inr (Nat.succ_ne_zero port)⟩
  intro p hp
  obtain ⟨hne, hmap | hchanged⟩ := hkept p hp
  · exact .inl hmap
  · exact .inr ⟨hchanged, fun heq => hne (Nat.succ.inj heq.symm)⟩

theorem Good.untold (hports : ∀ port, owed port = true → port < numPorts)
    (hkept : ∀ p, owed p = true →
      c.alertedConnectorsMap.getLsbD p = true ∨ (c.changed p = true ∧ c.lastConnectorChanged ≠ p + 1))
    (hlast : c.lastConnectorChanged = 0 → c.alertedConnectorsMap = 0 ∧ ∀ q, q < numPorts → c.changed q = false) :
    Good numPorts { c with asyncEvent := false } true owed := by
  refine ⟨fun hn => Bool.noConfusion hn, ?_, hports, hkept, ?_⟩
  · intro _ hmap
    refine .inr fun hzero => ?_
    exact hmap (hlast hzero).1
  · intro p hp _
    refine .inr fun hzero => ?_
    obtain ⟨hmap, hchanged⟩ := hlast hzero
    obtain hbit | ⟨hset, -⟩ := hkept p hp
    · exact ne_zero_of_getLsbD hbit hmap
    · exact Bool.noConfusion ((hchanged p (hports p hp)).symm.trans hset)

theorem Good.alerted (h : Good numPorts c notifies owed) {lpmId : Nat} (hpos : lpmId ≠ 0) (hle : lpmId ≤ numPorts)
    (hbits : lpmId ≤ 8) :
    Good numPorts { c with
      asyncEvent := true
      alertedConnectorsMap := c.alertedConnectorsMap ||| (1#8 <<< (lpmId - 1)) } notifies
      (Function.update owed (lpmId - 1) true) := by
  refine ⟨h.quiet, fun _ _ => .inl rfl, ?_, ?_, fun _ _ _ => .inl rfl⟩
  · intro p hp
    obtain rfl | hne := eq_or_ne p (lpmId - 1)
    · omega
    · rw [Function.update_of_ne hne] at hp
      exact h.ports p hp
  · intro p hp
    dsimp only
    rw [getLsbD_or_alert]
    obtain rfl | hne := eq_or_ne p (lpmId - 1)
    · have hlt : lpmId - 1 < 8 := by omega
      simp [hlt]
    · rw [Function.update_of_ne hne] at hp
      obtain hmap | hchanged := h.kept p hp
      · exact .inl (by rw [hmap]; rfl)
      · exact .inr hchanged

/-! ## Runs -/

structure Inv (numPorts : Nat) (s : State) (o : Watch) : Prop where
  place : At s.dev s.pc
  good : Good numPorts s.dev.core s.dev.ppmState.notifies o.owed

variable {s s' : State} {o : Watch} {opm : Option Control}

/-- The OPM is told of a port or of none at the end of an asynchronous event. -/
theorem good_finish {alertPort : Option Nat} {kept : Nat → Bool} (hstate : dev.ppmState.notifies = true)
    (hports : ∀ p, kept p = true → p < numPorts)
    (hkept : ∀ p, kept p = true → portToAlert numPorts dev alertPort ≠ some p →
      dev.alertedConnectorsMap.getLsbD p = true ∨ (changed dev p = true ∧ dev.lastConnectorChanged ≠ p + 1))
    (hlast : portToAlert numPorts dev alertPort = none → dev.lastConnectorChanged = 0 → dev.alertedConnectorsMap = 0)
    (htold : ∀ p, portToAlert numPorts dev alertPort = some p → kept p = false) :
    Good numPorts (finishAsyncEvent numPorts dev alertPort).core
      (finishAsyncEvent numPorts dev alertPort).ppmState.notifies kept := by
  cases hport : portToAlert numPorts dev alertPort with
  | some port =>
    obtain ⟨hcore, hafter⟩ := finishAsyncEvent_some hport
    rw [hcore, hafter]
    refine Good.told hports fun p hp => ?_
    have hne : p ≠ port := by
      rintro rfl
      exact Bool.noConfusion ((htold p hport).symm.trans hp)
    refine ⟨hne, ?_⟩
    obtain hmap | ⟨hchanged, -⟩ := hkept p hp fun h => hne (Option.some.inj (hport.symm.trans h)).symm
    · exact .inl hmap
    · exact .inr hchanged
  | none =>
    rw [finishAsyncEvent_none hport]
    show Good numPorts { dev.core with asyncEvent := false } dev.ppmState.notifies kept
    rw [hstate]
    refine Good.untold hports (fun p hp => hkept p hp fun h => ?_) fun hzero =>
      ⟨hlast hport hzero, portToAlert_none hport hzero⟩
    cases hport.symm.trans h

/-- The settled alerts are those that the OPM was just told of. -/
theorem settled_of_told {a : Action} {again : Bool} {port : Nat} {alertPort : Option Nat}
    (hdev : s'.dev = finishAsyncEvent numPorts dev alertPort) (hreported : dev.reported = s.dev.reported)
    (hport : portToAlert numPorts dev alertPort = some port) : settled s s' a again port = true := by
  have hcore := (finishAsyncEvent_some hport).1
  have htold : s'.dev.reported = s.dev.reported ++ [port] := by
    rw [hdev, ← hreported]
    exact congrArg Core.reported hcore
  unfold settled
  rw [htold]
  simp

theorem owed_watchStep {a : Action} {again : Bool} {port : Nat}
    (h : (o.owed port && !settled s s' a again port) = true) : o.owed port = true ∧ settled s s' a again port = false := by
  simpa using h

theorem good_taskloop (h : Inv numPorts s o)
    (hsound : s.dev.ppmState = .idle → matchPendingCommand s.dev ucsiSetNotificationEnable = true →
      s.dev.alertedConnectorsMap ≠ 0 → s.dev.asyncEvent = true) {d : Device} {pc : Pc} (hturn : Turn numPorts s.dev d pc) :
    Good numPorts d.core d.ppmState.notifies (watchStep numPorts o s ⟨d, pc, opm⟩ .run).owed := by
  have hgood := h.good
  have hless : ∀ port, (watchStep numPorts o s ⟨d, pc, opm⟩ .run).owed port = true → o.owed port = true :=
    fun port hp => (owed_watchStep hp).1
  have hopen : ∀ port, (watchStep numPorts o s ⟨d, pc, opm⟩ .run).owed port = true →
      settled s ⟨d, pc, opm⟩ .run o.again port = false := fun port hp => (owed_watchStep hp).2
  cases hturn with
  | rest hstate hcore =>
    rw [hcore, hstate]
    exact hgood.mono hless
  | dropped hstate =>
    rw [hstate] at hgood
    show Good numPorts { s.dev.core with asyncEvent := false } s.dev.ppmState.notifies _
    rw [hstate]
    exact (hgood.mono hless).dropped
  | reset hstate hcommand hcore hstate' =>
    rw [hcore, hstate']
    refine Good.reset fun port => ?_
    have hsettled : settled s ⟨d, .loop, opm⟩ .run o.again port = true := by
      unfold settled
      simp [hcommand, hstate]
    simp [watchStep, hsettled]
  | enabled mask hready hcommand hcore hstate' =>
    have hnotifies : d.ppmState.notifies = true := by
      obtain h | h := hstate' <;> rw [h] <;> rfl
    rw [hcore, hnotifies]
    refine hgood.enabled mask ?_ ?_
    · intro hoff hmap
      refine hsound ?_ hcommand hmap
      cases hstate : s.dev.ppmState with
      | idle => rfl
      | notReady => exact absurd hstate hready
      | _ =>
        rw [hstate] at hoff
        cases hoff
    · intro port hp
      refine ⟨hless port hp, fun hmask => ?_⟩
      have hnot := hopen port hp
      have hchange : d.changeMask = mask := congrArg Core.changeMask hcore
      have hstatus : d.perPortStatus = s.dev.perPortStatus := congrArg Core.perPortStatus hcore
      show s.dev.alertedConnectorsMap.getLsbD port = true ∨ mask &&& s.dev.perPortStatus port ≠ 0
      by_contra hneither
      push Not at hneither
      unfold settled at hnot
      simp [hneither.1, changed, hchange, hstatus, hneither.2] at hnot
      exact hmask hnot.2.2
  | served hstate hcore hstate' =>
    rw [hstate] at hgood
    rw [hcore, hstate'.1]
    exact hgood.mono hless
  | called hstate hcore hat =>
    have hnotifies : d.ppmState.notifies = true := by
      obtain ⟨-, -, -, hprocessing, hacking⟩ := hat
      rename_i acking
      cases acking
      · rw [hprocessing rfl]
        rfl
      · obtain h | h := hacking rfl <;> rw [h] <;> rfl
    rw [hstate] at hgood
    rw [hcore, hnotifies]
    exact hgood.mono hless
  | reading hstate hasync hmap => exact (hgood.mono hless).reading (findLsbSet_bit hmap)
  | finished hstate hasync hmap =>
    rw [hstate] at hgood
    have hnotifies : s.dev.ppmState.notifies = true := by rw [hstate]; rfl
    refine good_finish hnotifies (fun p hp => hgood.ports p (hless p hp)) (fun p hp _ => hgood.kept p (hless p hp))
      (fun _ _ => hmap) fun p hport => ?_
    have hsettled : settled s ⟨finishAsyncEvent numPorts s.dev none, .loop, opm⟩ .run o.again p = true :=
      settled_of_told rfl rfl hport
    simp [watchStep, hsettled]

theorem getLsbD_clearAlert {map : BitVec 8} {port p : Nat} (hp : p ≠ port) :
    (map &&& ~~~(1#8 <<< port)).getLsbD p = map.getLsbD p := by
  by_cases hlt : p < 8
  · rw [BitVec.getLsbD_and, BitVec.getLsbD_not, BitVec.getLsbD_shiftLeft, BitVec.getLsbD_one]
    by_cases hbelow : p < port
    · simp [hlt, hbelow]
    · have hsub : p - port ≠ 0 := by omega
      simp [hlt, hsub]
  · have hge : 8 ≤ p := Nat.le_of_not_lt hlt
    rw [BitVec.getLsbD_of_ge _ _ hge, BitVec.getLsbD_of_ge _ _ hge]

theorem good_statusRead (h : Inv numPorts s o) {port : Nat} (hpc : s.pc = .readStatus port) {r : DriverResult}
    {status : BitVec 16} (hsound : Sound numPorts o (s, .driverReturn r status)) :
    Good numPorts (statusRead numPorts s.dev port status).core (statusRead numPorts s.dev port status).ppmState.notifies
      (watchStep numPorts o s ⟨statusRead numPorts s.dev port status, .loop, opm⟩ (.driverReturn r status)).owed := by
  have hgood := h.good
  have hplace := h.place
  rw [hpc] at hplace
  obtain ⟨hstate, -, -⟩ := hplace
  unfold Sound at hsound
  dsimp only at hsound
  rw [hpc] at hsound
  obtain ⟨hothers, hagain⟩ := hsound
  have hnotifies : s.dev.ppmState.notifies = true := by rw [hstate]; rfl
  rw [hnotifies] at hgood
  -- what the end of the event sees
  let dev := clearAlert (statusWritten s.dev port status) port
  let alertPort := if port + 1 = s.dev.lastConnectorChanged then some port else none
  have hresend : s.dev.lastConnectorChanged = port + 1 → portToAlert numPorts dev alertPort = some port := by
    intro heq
    show (if s.dev.lastConnectorChanged = 0 then _ else alertPort) = some port
    rw [if_neg (by omega)]
    exact if_pos heq.symm
  refine good_finish hnotifies (fun p hp => hgood.ports p (owed_watchStep hp).1) ?_ ?_ ?_
  · intro p hp huntold
    obtain ⟨howed, hopen⟩ := owed_watchStep hp
    obtain rfl | hne := eq_or_ne p port
    · -- its status shows a change, or it has alerted again
      have hlast : s.dev.lastConnectorChanged ≠ p + 1 := fun heq => huntold (hresend heq)
      refine .inr ⟨?_, hlast⟩
      unfold settled at hopen
      rw [hpc] at hopen
      obtain ⟨-, hshown⟩ := (Bool.or_eq_false_iff).mp hopen
      cases hcase : o.again
      · have hstatus : s.dev.changeMask &&& status ≠ 0 := by simpa [hcase] using hshown
        simpa [changed, dev, clearAlert, statusWritten] using hstatus
      · obtain hchanged | heq := hagain hcase
        · exact hchanged
        · exact absurd heq.symm hlast
    · obtain hmap | ⟨hchanged, hlast⟩ := hgood.kept p howed
      · exact .inl ((getLsbD_clearAlert hne).trans hmap)
      · refine .inr ⟨?_, hlast⟩
        show s.dev.changeMask &&& Function.update s.dev.perPortStatus port status p != 0
        rw [Function.update_of_ne hne]
        exact hchanged
  · intro hport hzero
    refine hothers hzero fun q hq => portToAlert_none hport hzero q (List.mem_range.mp hq)
  · intro p hport
    have hsettled : settled s ⟨statusRead numPorts s.dev port status, .loop, opm⟩
        (.driverReturn r status) o.again p = true :=
      settled_of_told rfl rfl hport
    simp [watchStep, hsettled]

theorem good_executed (h : Inv numPorts s o) {command : BitVec 8} {ackCi acking : Bool}
    (hpc : s.pc = .executing command ackCi acking)
    {r : DriverResult} {status : BitVec 16} {ok : Bool} (hexecuted : executed s.dev command ackCi r = (ok, dev)) :
    Good numPorts (complete dev command acking ok).core (complete dev command acking ok).ppmState.notifies
      (watchStep numPorts o s ⟨complete dev command acking ok, .loop, opm⟩ (.driverReturn r status)).owed := by
  have hgood := h.good
  have hplace := h.place
  rw [hpc] at hplace
  obtain ⟨-, hreset, hlast, hprocessing, hacking⟩ := hplace
  have hcore := @executed_core s.dev command ackCi r
  rw [hexecuted] at hcore
  obtain ⟨hstate, hcore⟩ := hcore
  dsimp only at hstate hcore
  have hnotifies : s.dev.ppmState.notifies = true := by
    cases acking
    · rw [hprocessing rfl]
      rfl
    · obtain h | h := hacking rfl <;> rw [h] <;> rfl
  have hafter := @ppmState_complete dev command acking ok (fun _ => hreset)
    fun ha => hstate ▸ hacking ha
  rw [core_complete, hafter.1]
  rw [hnotifies] at hgood
  have hless := @Good.mono _ _ _ _ ((watchStep numPorts o s ⟨complete dev command acking ok, .loop, opm⟩
    (.driverReturn r status)).owed) hgood fun p hp => (owed_watchStep hp).1
  obtain hsame | ⟨hack, hacknowledged⟩ := hcore
  · rw [hsame]
    exact hless
  · rw [hacknowledged]
    exact hless.acknowledged (hlast hack)

theorem good_started (h : Inv numPorts s o) (hpc : s.pc = .starting) {r : DriverResult} {status : BitVec 16} :
    Good numPorts (started s.dev r).core (started s.dev r).ppmState.notifies
      (watchStep numPorts o s ⟨started s.dev r, .loop, opm⟩ (.driverReturn r status)).owed := by
  have hgood := h.good
  have hplace := h.place
  rw [hpc] at hplace
  have hoff : s.dev.ppmState.notifies = false := by
    rw [show s.dev.ppmState = .notReady from hplace]
    rfl
  rw [hoff] at hgood
  have hless := @Good.mono _ _ _ _
    (watchStep numPorts o s ⟨started s.dev r, .loop, opm⟩ (.driverReturn r status)).owed hgood
    fun p hp => (owed_watchStep hp).1
  cases r with
  | ok n => exact hless
  | error e =>
    show Good numPorts s.dev.core s.dev.ppmState.notifies _
    rw [hoff]
    exact hless

theorem inv_step {a : Action} (h : Inv numPorts s o) (hsound : Sound numPorts o (s, a))
    (hstep : step numPorts a s = some s') :
    Inv numPorts s' (watch numPorts o (s, a)) := by
  refine ⟨place_step h.place hstep, ?_⟩
  unfold watch
  rw [hstep]
  dsimp only
  have hgood := h.good
  cases step_moves hstep with
  | waits => exact hgood.mono fun p hp => (owed_watchStep hp).1
  | turns hpc => exact good_taskloop h hsound (taskloop_turn (h.place.turns hpc))
  | started hpc => exact good_started h hpc
  | statusRead hpc => exact good_statusRead h hpc hsound
  | executed hpc => exact good_executed h hpc rfl
  | alerted _ hpos hle =>
    unfold watchStep
    dsimp only
    rw [if_pos ⟨hpos, hle⟩]
    exact hgood.alerted hpos hle hsound
  | ignored _ hinvalid =>
    unfold watchStep
    dsimp only
    rw [if_neg hinvalid]
    exact hgood
  | refused => exact hgood
  | accepted => exact hgood
  | written => exact hgood
  | registered => exact hgood

theorem inv_run {l : List (State × Action)} (h : Run (step numPorts) start l s)
    (hok : Always (watch numPorts) (Sound numPorts) nothing l) : Inv numPorts s (l.foldl (watch numPorts) nothing) := by
  have hnone : ∀ port, nothing.owed port = true → False := fun port hp => Bool.noConfusion hp
  have hstart : Inv numPorts start nothing :=
    ⟨rfl, ⟨fun _ => rfl, fun hn => Bool.noConfusion hn, fun p hp => (hnone p hp).elim, fun p hp => (hnone p hp).elim,
      fun p hp => (hnone p hp).elim⟩⟩
  exact h.observed hstart (fun _ _ _ _ hinv hsound hstep => inv_step hinv hsound hstep) hok

/-! ## Acknowledgements -/

end ChromeEc.Ucsi
