import ChromeEc.UsbPrl.Invariant

/- Whether chunked Rx gets done with a message.

  Message reception takes no message from the TCPM as long as chunked Rx has not
  looked at the last one. So chunked Rx has to look at every message. It does, with
  one exception: a message that is not extended and comes while a chunk is waited for
  is left where it is, the flag stays set, and the branch that tests the timer is not
  reached any more.

  What is proved: a message that chunked Rx is told of is served within a bounded
  number of runs if and only if it is not of that kind (`message_served_iff`). -/
namespace ChromeEc.UsbPrl
open Lib

/-! ## Runs -/

def runs (es : Nat → RunEnv) (s : St) : Nat → St
  | 0 => s
  | k + 1 => prlRun (es k) true (runs es s k)

/-- In this run chunked Rx clears the flag of the message, or goes to another state. -/
def Served (e : RunEnv) (s : St) : Prop :=
  ∃ t, rchSees e s = some t ∧ ((rchRun (e .rch) t).rch.flags.msgReceived = false ∨
    (rchRun (e .rch) t).rch.state ≠ t.rch.state)

/-- A message that is not extended, where a chunk is waited for. -/
def Overlooked (t : St) : Prop := t.rch.state = .waitingChunk ∧ t.rxEmsg.header.ext = false

/-! ## A message that is served -/

theorem rchRun_serves (e : Env) {t : St} (ht : Inv t) (hf : t.rch.flags.msgReceived = true)
    (hlook : ¬Overlooked t) :
    (rchRun e t).rch.flags.msgReceived = false ∨ (rchRun e t).rch.state ≠ t.rch.state := by
  have hruns := rchRun_runs e ht.notPassUp
  generalize rchRun e t = t' at hruns ⊢
  cases hruns with
  | idle h hf' =>
    rw [hf'] at hf
    cases hf
  | ignored h hf' hext => exact absurd ⟨h, hext⟩ hlook
  | first => exact .inl rfl
  | whole => exact .inl rfl
  | fail err u hu h hst hf' =>
    obtain ⟨v, hcalm, -, -, hvf, -⟩ := rchFail_spec e err (hu.clean ht.clean) (h ▸ hst)
    exact .inl (hcalm.rch_flag_false hvf)
  | reset => exact .inl rfl
  | last => exact .inl rfl
  | more timers h =>
    rw [h]
    exact .inr nofun
  | asked timers u hu h =>
    rw [h]
    exact .inr nofun
  | next => exact .inl rfl

/-! ## A message that is overlooked -/

theorem toRchWait_localState (s : St) : (toRchWait s).localState = s.localState := by
  unfold toRchWait rchGoto
  split
  · rfl
  · exact (rchExit_same s).localState

theorem toTchWait_localState (s : St) : (toTchWait s).localState = s.localState := by
  unfold toTchWait tchGoto
  split
  · rfl
  · exact (tchExit_same s).localState

theorem toTchWait_rch (s : St) : (toTchWait s).rch = s.rch := by
  unfold toTchWait tchGoto
  split
  · rfl
  · exact (tchExit_same s).rch

theorem setStatePrlHr_busy (e : Env) {new : PrlHrState}
    (hnew : new = .waitForPhyHardResetComplete ∨ new = .waitForPeHardResetComplete) (s : St) :
    (setStatePrlHr e new s).prlHr.state ≠ .waitForRequest := by
  unfold setStatePrlHr prlHrGoto
  split
  · next h =>
    rw [h]
    obtain rfl | rfl := hnew <;> decide
  · obtain rfl | rfl := hnew <;> exact nofun

/-- Hard reset makes way for the other machines without having called anybody. -/
theorem prlHrRun_localState (e : Env) {s : St} (hs : HrClean s)
    (h : (prlHrRun e s).prlHr.state = .waitForRequest) :
    (prlHrRun e s).localState = s.localState := by
  cases hst : s.prlHr.state with
  | waitForRequest =>
    obtain ⟨hpe, hpart⟩ := hs.idle hst
    simp [prlHrRun, hst, prlHrWaitForRequestRun, hpe, hpart]
  | resetLayer =>
    simp only [prlHrRun, hst, prlHrResetLayerRun] at h
    split at h
    · exact absurd h (setStatePrlHr_busy e (.inl rfl) _)
    · exact absurd h (setStatePrlHr_busy e (.inr rfl) _)
  | waitForPhyHardResetComplete =>
    simp only [prlHrRun, hst, prlHrWaitForPhyHardResetCompleteRun] at h
    split at h
    · exact absurd h (setStatePrlHr_busy e (.inr rfl) _)
    · rw [hst] at h
      cases h
  | waitForPeHardResetComplete =>
    simp only [prlHrRun, hst, prlHrWaitForPeHardResetCompleteRun]
    split
    · unfold setStatePrlHr prlHrGoto
      rw [if_neg (by rw [hst]; decide)]
      simp only [prlHrExit, hst, prlHrWaitForPeHardResetCompleteExit]
      exact (toTchWait_localState _).trans ((toRchWait_localState _).trans
        (toPrlTxPhyLayerReset_same e s).localState)
    · rfl

/-- Message reception that tells chunked Rx of a message has called nobody. -/
theorem prlRx_of_flag (e : Env) {s : St} (hs : HrClean s)
    (hf : (prlRxWaitForPhyMessage e s).rch.flags.msgReceived = true) :
    (prlRxWaitForPhyMessage e s).localState = s.localState ∧
      (prlRxWaitForPhyMessage e s).prlHr = s.prlHr := by
  have hruns := prlRx_runs e s
  generalize prlRxWaitForPhyMessage e s = s' at hruns hf ⊢
  cases hruns with
  | idle => exact ⟨rfl, rfl⟩
  | dropped _ m rest _ ht => exact ⟨ht.localState, ht.hr⟩
  | softReset hflag m rest =>
    exfalso
    have htake : HrClean (takeMessage m rest s) := ⟨hs.idle, hs.busy⟩
    have hc := ((prlResetMsgIds_same (takeMessage m rest s) m.header.sop).trans
      (toPrlTxPhyLayerReset_same e _)).calm.trans (toRchWait_calm _)
    have hcall := peCall_calm e .gotSoftReset (toTchWait_step (q := True) (hc.clean htake)).clean
    have hfl := (hcall.rch_flag hf).2
    rw [toTchWait_rch, hc.rch_flag_false hflag] at hfl
    cases hfl
  | toTch _ m rest _ ht => exact ⟨ht.localState, ht.hr⟩
  | toRch _ m rest _ ht _ => exact ⟨ht.localState, ht.hr⟩

def quietEnv : Env where
  peInLocalAms := false
  peInFrsMode := false
  powerRole := .sink
  dataRole := .dfp
  cablePlug := .fromDfpUfp
  pdIsConnected := true
  cc1 := .rp30
  cc2 := .open
  elapsed := fun _ => true
  react := fun _ => []

/-- Chunked Rx is told of a message that it will not look at. -/
structure Stalled (t : St) : Prop where
  inv : Inv t
  running : t.localState = .run
  hr : t.prlHr.state = .waitForRequest
  flag : t.rch.flags.msgReceived = true
  overlooked : Overlooked t

theorem Stalled.rchRun_eq {t : St} (h : Stalled t) (e : Env) :
    rchRun e t = setPdmsg (fun f => { f with txComplete := false }) t := by
  have hext : (setPdmsg (fun f => { f with txComplete := false }) t).rxEmsg.header.ext = false :=
    h.overlooked.2
  simp only [rchRun, h.overlooked.1, rchWaitingChunkRun, h.flag, if_true, hext]
  rfl

theorem Stalled.not_served {e : RunEnv} {s t : St} (ht : rchSees e s = some t) (h : Stalled t) :
    ¬Served e s := by
  rintro ⟨u, hu, hserved⟩
  rw [ht] at hu
  cases hu
  rw [h.rchRun_eq] at hserved
  obtain hf | hst := hserved
  · exact absurd (h.flag.symm.trans hf) nofun
  · exact hst rfl

theorem Stalled.afterRch {e : RunEnv} {t : St} (h : Stalled t) (htch : (e .tch).Silent)
    (hagain : (e .tchAgain).Silent) : Stalled (afterRch e (rchRun (e .rch) t)) := by
  have hst := h.overlooked.1
  have hnot : ∀ u, u.rch.state = .waitingChunk → RchServed u := by
    intro u hu hw
    rw [hu] at hw
    cases hw
  have hrun := rchRun_step (e .rch) h.inv
  have hinv₀ := hrun.inv h.inv
  have hundist₀ : Undisturbed t (rchRun (e .rch) t) := by
    rw [h.rchRun_eq]
    exact (setPdmsg_same t _).undisturbed
  have h₁ := tchRun_step (e .tch) hinv₀.clean hinv₀.chunkedTx (hnot _ (hundist₀.rch.trans hst))
  have hinv₁ := h₁.inv hinv₀
  have hundist₁ := hundist₀.trans (h₁.undisturbed htch)
  have h₂ := prlTxRun_same (e .tx) (tchRun (e .tch) (rchRun (e .rch) t))
  have hinv₂ := h₂.calm.inv hinv₁
  have hundist₂ := hundist₁.trans h₂.undisturbed
  have h₃ := tchRun_step (e .tchAgain) hinv₂.clean hinv₂.chunkedTx
    (hnot _ (hundist₂.rch.trans hst))
  have hundist := hundist₂.trans (h₃.undisturbed hagain)
  exact
    { inv := h₃.inv hinv₂
      running := hundist.localState.trans h.running
      hr := (congrArg ProtocolHardReset.state hundist.hr).trans h.hr
      flag := hundist.flag h.flag
      overlooked := ⟨hundist.rch.trans hst,
        (congrArg PdHeader.ext hundist.header).trans h.overlooked.2⟩ }

theorem Stalled.rchSees {s : St} (h : Stalled s) (e : RunEnv) : rchSees e s = some s := by
  obtain ⟨hpe, hpart⟩ := h.inv.clean.idle h.hr
  have hstart : started e s = s := by
    simp [started, h.running, prlHrRun, h.hr, prlHrWaitForRequestRun, hpe, hpart]
  rw [rchSees_eq_some, hstart]
  refine ⟨h.hr, ?_⟩
  simp [beforeRch, prlRxWaitForPhyMessage, h.flag]

/-- A message that is overlooked is never served, if the policy engine does not
step in. -/
theorem never_served (es : Nat → RunEnv) {s t : St} (ht : rchSees (es 0) s = some t) (h : Stalled t)
    (htch : ∀ k, (es k .tch).Silent) (hagain : ∀ k, (es k .tchAgain).Silent) (k : Nat) :
    ¬Served (es k) (runs es s k) := by
  have hseen : ∃ u, rchSees (es k) (runs es s k) = some u ∧ Stalled u := by
    induction k with
    | zero => exact ⟨t, ht, h⟩
    | succ k ih =>
      obtain ⟨u, hu, hstalled⟩ := ih
      have hnext := hstalled.afterRch (htch k) (hagain k)
      rw [← prlRun_of_rchSees hu] at hnext
      exact ⟨_, hnext.rchSees (es (k + 1)), hnext⟩
  obtain ⟨u, hu, hstalled⟩ := hseen
  exact hstalled.not_served hu

theorem stalled_of_rchSees {e : RunEnv} {s t : St} (hs : Inv s) (ht : rchSees e s = some t)
    (hf : t.rch.flags.msgReceived = true) (hlook : Overlooked t) : Stalled t := by
  have hinv := rchSees_inv hs ht
  obtain ⟨hidle, rfl⟩ := rchSees_eq_some.mp ht
  have hstart := started_inv e hs
  have hclean := ((prlHrRun_calm (e .hr) hstart.clean).inv hstart).clean
  obtain ⟨hlocal, hhr⟩ := prlRx_of_flag (e .rx) hclean hf
  have hrunning : (started e s).localState = .run := by
    rw [started, prlHrRun_localState (e .hr) hstart.clean hidle]
    split
    · assumption
    · rfl
  exact ⟨hinv, hlocal.trans hrunning, (congrArg ProtocolHardReset.state hhr).trans hidle, hf, hlook⟩

/-- A message that chunked Rx is told of is served within a bounded number of runs,
whatever happens around the protocol layer, unless it is one that is not extended
and comes while a chunk is waited for. -/
theorem message_served_iff {s t : St} (hs : Reachable s) (e : RunEnv) (ht : rchSees e s = some t)
    (hf : t.rch.flags.msgReceived = true) :
    (∃ n, ∀ es : Nat → RunEnv, rchSees (es 0) s = some t →
      ∃ k < n, Served (es k) (runs es s k)) ↔ ¬Overlooked t := by
  constructor
  · rintro ⟨n, hn⟩ hlook
    -- The environment of the first run up to chunked Rx, and silence from there on.
    let es : Nat → RunEnv := fun k p =>
      if k = 0 ∧ (p = .init ∨ p = .hr ∨ p = .rx) then e p else quietEnv
    have hsees : rchSees (es 0) s = some t := ht
    have hsilent : quietEnv.Silent := fun _ => rfl
    obtain ⟨k, -, hserved⟩ := hn es hsees
    refine never_served es hsees (stalled_of_rchSees hs.inv ht hf hlook) ?_ ?_ k hserved
    · intro k
      simpa [es] using hsilent
    · intro k
      simpa [es] using hsilent
  · intro hlook
    refine ⟨1, fun es hes => ⟨0, Nat.zero_lt_one, t, hes, ?_⟩⟩
    exact rchRun_serves (es 0 .rch) (rchSees_inv hs.inv ht) hf hlook

def firstOfTwoChunks : RxMessage where
  header := ⟨.sop, 0xf081⟩
  data := 0x1e :: 0x80 :: List.replicate 26 0x5a
  data_le := by decide

/-- `Not_Supported`, a control message. -/
def notSupported : RxMessage where
  header := ⟨.sop, 0x0290⟩
  data := []
  data_le := by decide

/-- The first chunk was received, the second one was asked for, and a control message
came instead. -/
def controlInsteadOfChunk : List Input :=
  let run : Input := .run (fun _ => quietEnv) true
  [.call quietEnv .prlSetDefaultPdRevision, run, .enqueueMessage firstOfTwoChunks, run, run,
    .call quietEnv (.pdTransmitComplete .success), run, run, .enqueueMessage notSupported]

theorem reachable_foldl (ins : List Input) {s : St} (hs : Reachable s) :
    Reachable (ins.foldl step s) := by
  induction ins generalizing s with
  | nil => exact hs
  | cons i ins ih => exact ih (.step i hs)

theorem controlInsteadOfChunk_seen :
    ∃ t, rchSees (fun _ => quietEnv) (controlInsteadOfChunk.foldl step boot) = some t ∧
      t.rch.flags.msgReceived = true ∧ Overlooked t := by
  have h : (rchSees (fun _ => quietEnv) (controlInsteadOfChunk.foldl step boot)).map
      (fun t => (t.rch.flags.msgReceived, t.rch.state, t.rxEmsg.header.ext)) =
      some (true, .waitingChunk, false) := by
    decide +kernel
  obtain ⟨t, ht, heq⟩ := Option.map_eq_some_iff.mp h
  simp only [Prod.mk.injEq] at heq
  exact ⟨t, ht, heq.1, heq.2⟩

/-- A control message in the place of a chunk stays for ever. -/
theorem control_message_never_served :
    ∃ t, Reachable (controlInsteadOfChunk.foldl step boot) ∧
      rchSees (fun _ => quietEnv) (controlInsteadOfChunk.foldl step boot) = some t ∧
      t.rch.flags.msgReceived = true ∧ t.rch.state = .waitingChunk ∧
      ¬∃ n, ∀ es : Nat → RunEnv, rchSees (es 0) (controlInsteadOfChunk.foldl step boot) = some t →
        ∃ k < n, Served (es k) (runs es (controlInsteadOfChunk.foldl step boot) k) := by
  have hreach := reachable_foldl controlInsteadOfChunk .boot
  obtain ⟨t, ht, hf, hlook⟩ := controlInsteadOfChunk_seen
  refine ⟨t, hreach, ht, hf, hlook.1, ?_⟩
  rintro ⟨n, hn⟩
  obtain ⟨k, -, hserved⟩ := hn (fun _ _ => quietEnv) ht
  have hsilent : quietEnv.Silent := fun _ => rfl
  exact never_served (fun _ _ => quietEnv) ht (stalled_of_rchSees hreach.inv ht hf hlook)
    (fun _ => hsilent) (fun _ => hsilent) k hserved

/-- The first chunk itself is served. -/
theorem message_served_iff_chunk :
    ∃ t, ¬Overlooked t ∧ ∃ n, ∀ es : Nat → RunEnv,
      rchSees (es 0) ((controlInsteadOfChunk.take 3).foldl step boot) = some t →
        ∃ k < n, Served (es k) (runs es ((controlInsteadOfChunk.take 3).foldl step boot) k) := by
  have h : (rchSees (fun _ => quietEnv) ((controlInsteadOfChunk.take 3).foldl step boot)).map
      (fun t => (t.rch.flags.msgReceived, t.rch.state)) =
      some (true, .waitForMessageFromProtocolLayer) := by
    decide +kernel
  obtain ⟨t, ht, heq⟩ := Option.map_eq_some_iff.mp h
  simp only [Prod.mk.injEq] at heq
  have hlook : ¬Overlooked t := by
    intro hlook
    exact absurd (heq.2.symm.trans hlook.1) nofun
  exact ⟨t, hlook,
    (message_served_iff (reachable_foldl _ .boot) _ ht heq.1).mpr hlook⟩

end ChromeEc.UsbPrl
