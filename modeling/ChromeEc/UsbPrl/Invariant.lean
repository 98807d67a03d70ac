import ChromeEc.UsbPrl.ChunkedRx
import ChromeEc.UsbPrl.ChunkedTx

/- An invariant of the protocol layer.

  The chunk that chunked Rx works on stays in `rx_chk_buf` for a whole run: it is
  taken from the TCPM in one run and may be processed in the next. Chunked Tx, which
  runs in between, writes past the end of `tx_chk_buf`. That is harmless because the
  two are never at work together: while chunked Tx sends chunks, chunked Rx waits and
  no message is on its way to it (`Inv.chunkedTx`). So the message in the buffer is
  the one that was taken last, whenever a machine is still to look at it
  (`Inv.held`).

  `asm` reads off the log of events which message was taken last and which chunks
  the message being received consists of so far.

  What is proved: every reachable state satisfies `Inv` (`Reachable.inv`). -/
namespace ChromeEc.UsbPrl
open Lib

/-! ## What the log tells -/

/-- The message that was taken last, and the chunks that were appended since the
first one, each with the number of bytes that were copied. -/
structure Asm where
  cur : Option RxMessage
  parts : List (RxMessage × Nat)

def Asm.next (a : Asm) : Event → Asm
  | .dequeue m => { a with cur := some m }
  | .firstChunk => { a with parts := [] }
  | .chunk _ n => { a with parts := a.parts ++ (a.cur.map fun m => (m, n)).toList }
  | _ => a

def asm (log : List Event) : Asm := log.foldl Asm.next ⟨none, []⟩

theorem asm_snoc (log : List Event) (ev : Event) : asm (log ++ [ev]) = (asm log).next ev := by
  rw [asm, List.foldl_append]
  rfl

theorem Quiet.asm {s s' : St} (h : Quiet s s') : asm s'.events = asm s.events := by
  obtain ⟨evs, heq, hin⟩ := h
  rw [heq]
  clear heq
  induction evs generalizing s with
  | nil => rw [List.append_nil]
  | cons ev evs ih =>
    have hev : (UsbPrl.asm s.events).next ev = UsbPrl.asm s.events := by
      have := hin ev List.mem_cons_self
      cases ev <;> first | rfl | exact this.elim
    have := ih (s := emit ev s) fun ev' h' => hin ev' (List.mem_cons_of_mem _ h')
    rw [List.append_cons]
    refine Eq.trans this ?_
    rw [← hev]
    exact asm_snoc s.events ev

/-- The message that was taken last is in `rx_chk_buf`, and its header in
`rx_emsg`. -/
def Held (s : St) : Prop :=
  ∃ m, (asm s.events).cur = some m ∧ s.rxEmsg.header = m.header ∧
    ∀ i < CHK_BUF_SIZE_BYTES, s.pdmsg.rxChkBuf i = m.payload i

theorem Held.of_eq {s s' : St} (h : Held s) (hasm : asm s'.events = asm s.events)
    (hh : s'.rxEmsg.header = s.rxEmsg.header) (hrx : s'.pdmsg.rxChkBuf = s.pdmsg.rxChkBuf) :
    Held s' := by
  unfold Held
  rw [hasm, hh, hrx]
  exact h

structure Inv (s : St) : Prop where
  clean : HrClean s
  notPassUp : s.rch.state ≠ .passUpMessage
  chunkedTx : s.tch.state.sendsChunks = true → RchIdle s
  held : Pending s → Held s

theorem Calm.inv {s s' : St} (h : Calm s s') (hs : Inv s) : Inv s' where
  clean := h.clean hs.clean
  notPassUp := by
    obtain heq | heq := h.rch_state
    · rw [heq]
      exact hs.notPassUp
    · rw [heq]
      decide
  chunkedTx := h.chunkedTx hs.chunkedTx
  held := fun hp => (hs.held (h.pending hp)).of_eq h.events.asm h.header h.rx

theorem TchStep.inv {q : Prop} {s s' : St} (h : TchStep q s s') (hs : Inv s) : Inv s' where
  clean := h.clean
  notPassUp := by
    obtain heq | heq := h.rch
    · rw [heq]
      exact hs.notPassUp
    · rw [heq]
      decide
  chunkedTx := h.chunkedTx hs.chunkedTx
  held := by
    intro hp
    obtain ⟨hp', hrx⟩ := h.pending hp
    exact (hs.held hp').of_eq h.events.asm h.header hrx

/-! ## Message reception -/

theorem prlRxDiscard_same (e : Env) (h : PdHeader) (s : St) : Same s (prlRxDiscard e h s) :=
  Same.ite (fun _ => setStatePrlTx_same e _ s) (fun _ => .refl s)

inductive RxRuns (e : Env) (s : St) : St → Prop
  /-- Chunked Rx has a message to look at, or there is none. -/
  | idle : RxRuns e s s
  /-- The message concerns neither of the chunking machines. -/
  | dropped (hf : s.rch.flags.msgReceived = false) (m : RxMessage) (rest : List RxMessage) (t : St)
      (ht : Same (takeMessage m rest s) t) : RxRuns e s t
  | softReset (hf : s.rch.flags.msgReceived = false) (m : RxMessage) (rest : List RxMessage) :
      RxRuns e s (prlRxSoftReset e m.header.sop (takeMessage m rest s))
  | toTch (hf : s.rch.flags.msgReceived = false) (m : RxMessage) (rest : List RxMessage) (t : St)
      (ht : Same (takeMessage m rest s) t) :
      RxRuns e s (setTch (fun f => { f with msgReceived := true }) t)
  | toRch (hf : s.rch.flags.msgReceived = false) (m : RxMessage) (rest : List RxMessage) (t : St)
      (ht : Same (takeMessage m rest s) t) (htch : t.tch.state = .waitForMessageRequestFromPe) :
      RxRuns e s (setRch (fun f => { f with msgReceived := true }) t)

theorem prlRxRoute_runs (e : Env) {s t : St} (hf : s.rch.flags.msgReceived = false) (m : RxMessage)
    (rest : List RxMessage) (ht : Same (takeMessage m rest s) t) :
    RxRuns e s (prlRxRoute m.header t) := by
  unfold prlRxRoute
  split
  · have hlen : Same t { t with rxEmsg := { t.rxEmsg with len := 0 } } := .silent rfl rfl
    exact .dropped hf m rest _ ((ht.trans hlen).trans (peMessageReceived_same _))
  · split
    · exact .toTch hf m rest t ht
    · next hroute =>
      refine .toRch hf m rest t ht ?_
      by_contra hne
      exact hroute (.inl hne)

theorem prlRx_runs (e : Env) (s : St) : RxRuns e s (prlRxWaitForPhyMessage e s) := by
  unfold prlRxWaitForPhyMessage
  split
  · exact .idle
  · next hf =>
    have hf := eq_false_of_ne_true hf
    split
    · exact .idle
    · next m rest _ =>
      unfold prlRxHandle
      split
      · exact .dropped hf m rest _ (.refl _)
      · split
        · exact .dropped hf m rest _ (emit_same _ .startErrorRecovery trivial)
        · split
          · exact .softReset hf m rest
          · split
            · exact .dropped hf m rest _ (.refl _)
            · have hstore : Same (prlRxDiscard e m.header (takeMessage m rest s))
                  (storeMsgId m.header (prlRxDiscard e m.header (takeMessage m rest s))) := .silent rfl rfl
              exact prlRxRoute_runs e hf m rest ((prlRxDiscard_same e m.header _).trans hstore)

section

variable (m : RxMessage) (rest : List RxMessage) (s : St)

theorem takeMessage_held : Held (takeMessage m rest s) := by
  refine ⟨m, ?_, rfl, ?_⟩
  · show (asm (s.events ++ [.dequeue m])).cur = some m
    rw [asm_snoc]
    rfl
  · intro i hi
    show blit s.pdmsg.chkBuf CHK_BUF_SIZE_BYTES m.payload CHK_BUF_SIZE_BYTES
      (CHK_BUF_SIZE_BYTES + i) = m.payload i
    rw [blit_apply_of_mem (by omega), Nat.add_sub_cancel_left]

theorem takeMessage_inv {s : St} (hs : Inv s) : Inv (takeMessage m rest s) where
  clean := ⟨hs.clean.idle, hs.clean.busy⟩
  notPassUp := hs.notPassUp
  chunkedTx := hs.chunkedTx
  held := fun _ => takeMessage_held m rest s

end

theorem Calm.held {s s' : St} (h : Calm s s') (hs : Held s) : Held s' :=
  hs.of_eq h.events.asm h.header h.rx

theorem prlRxSoftReset_inv (e : Env) (type : SopStar) {s : St} (hs : Inv s) :
    Inv (prlRxSoftReset e type s) := by
  have h := ((prlResetMsgIds_same s type).trans (toPrlTxPhyLayerReset_same e _)).calm.trans
    (toRchWait_calm _)
  have hinv := (toTchWait_step (q := False) (h.inv hs).clean).inv (h.inv hs)
  exact (peCall_calm e _ hinv.clean).inv hinv

theorem prlRxWaitForPhyMessage_inv (e : Env) {s : St} (hs : Inv s)
    (hhr : s.prlHr.state = .waitForRequest) : Inv (prlRxWaitForPhyMessage e s) := by
  have hruns := prlRx_runs e s
  generalize prlRxWaitForPhyMessage e s = s' at hruns ⊢
  cases hruns with
  | idle => exact hs
  | dropped _ m rest _ ht => exact ht.calm.inv (takeMessage_inv m rest hs)
  | softReset _ m rest => exact prlRxSoftReset_inv e _ (takeMessage_inv m rest hs)
  | toTch _ m rest t ht =>
    have hinv := ht.calm.inv (takeMessage_inv m rest hs)
    have hidle : t.prlHr.state = .waitForRequest := (congrArg ProtocolHardReset.state ht.hr).trans hhr
    exact
      { clean := ⟨hinv.clean.idle, fun hb => absurd hidle hb⟩
        notPassUp := hinv.notPassUp
        chunkedTx := hinv.chunkedTx
        held := fun _ => ht.calm.held (takeMessage_held m rest s) }
  | toRch _ m rest t ht htch =>
    have hinv := ht.calm.inv (takeMessage_inv m rest hs)
    have hidle : t.prlHr.state = .waitForRequest := (congrArg ProtocolHardReset.state ht.hr).trans hhr
    exact
      { clean := ⟨hinv.clean.idle, fun hb => absurd hidle hb⟩
        notPassUp := hinv.notPassUp
        chunkedTx := by
          intro hsend
          exact absurd (htch ▸ hsend) nofun
        held := fun _ => ht.calm.held (takeMessage_held m rest s) }

/-! ## Chunked Rx -/

/-- What one step of chunked Rx does to the other machines and to the message in the
buffer. -/
structure RchStep (s s' : St) : Prop where
  clean : HrClean s'
  notPassUp : s'.rch.state ≠ .passUpMessage
  tch : s'.tch.state = s.tch.state ∨ s'.tch.state = .waitForMessageRequestFromPe
  header : s'.rxEmsg.header = s.rxEmsg.header
  rx : s'.pdmsg.rxChkBuf = s.pdmsg.rxChkBuf
  cur : (asm s'.events).cur = (asm s.events).cur
  pending : Pending s' → Pending s
  served : s'.rch.state = .waitForMessageFromProtocolLayer → s'.rch.flags.msgReceived = false
  idle : RchIdle s → s' = s

theorem RchStep.inv {s s' : St} (h : RchStep s s') (hs : Inv s) : Inv s' where
  clean := h.clean
  notPassUp := h.notPassUp
  chunkedTx := by
    intro hst
    obtain heq | heq := h.tch
    · rw [heq] at hst
      have hidle := hs.chunkedTx hst
      rw [h.idle hidle]
      exact hidle
    · rw [heq] at hst
      cases hst
  held := by
    intro hp
    obtain ⟨m, hcur, hheader, hrx⟩ := hs.held (h.pending hp)
    refine ⟨m, h.cur.trans hcur, h.header.trans hheader, ?_⟩
    rw [h.rx]
    exact hrx

theorem cur_snoc_of_ne {log : List Event} {ev : Event} (h : ∀ m, ev ≠ .dequeue m) :
    (asm (log ++ [ev])).cur = (asm log).cur := by
  rw [asm_snoc]
  cases ev <;> first | rfl | exact absurd rfl (h _)

theorem rchFail_step (e : Env) (err : PeError) {s t : St} (ht : Calm s t) (hs : HrClean s)
    (hst : t.rch.state ≠ .reportError) (hidle : ¬RchIdle s) : RchStep s (rchFail e err t) := by
  obtain ⟨u, hcalm, hclean, hust, hf, htch, hheader, hrx, hev⟩ :=
    rchFail_spec e err (ht.clean hs) hst
  have hcur : (asm u.events).cur = (asm t.events).cur := by
    obtain hev | hev := hev
    · rw [hev]
    · rw [hev]
      exact cur_snoc_of_ne nofun
  exact
    { clean := hcalm.clean hclean
      notPassUp := by
        obtain heq | heq := hcalm.rch_state
        · rw [heq, hust]
          decide
        · rw [heq]
          decide
      tch := by
        obtain heq | heq := hcalm.tch_state
        · rw [heq, htch]
          exact ht.tch_state
        · exact .inr heq
      header := (hcalm.header.trans hheader).trans ht.header
      rx := (hcalm.rx.trans hrx).trans ht.rx
      cur := by rw [hcalm.events.asm, hcur, ht.events.asm]
      pending := by
        intro hp
        obtain hp | hp | hp := hcalm.pending hp
        · rw [hust] at hp
          cases hp
        · rw [hf] at hp
          cases hp
        · rw [htch] at hp
          exact .inr (.inr (ht.tch_flag hp))
      served := fun _ => hcalm.rch_flag_false hf
      idle := fun h => absurd h hidle }

theorem passedUp_step (timers : PrTimer → Bool) {s t : St} (hclean : HrClean t)
    (htch : t.tch = s.tch) (hheader : t.rxEmsg.header = s.rxEmsg.header)
    (hrx : t.pdmsg.rxChkBuf = s.pdmsg.rxChkBuf) (hcur : (asm t.events).cur = (asm s.events).cur)
    (hidle : ¬RchIdle s) : RchStep s (passedUp timers t) where
  clean := ⟨hclean.idle, fun hb => ⟨rfl, (hclean.busy hb).2⟩⟩
  notPassUp := nofun
  tch := .inl (congrArg TxChunked.state htch)
  header := hheader
  rx := hrx
  cur := by
    rw [← hcur]
    exact cur_snoc_of_ne nofun
  pending := by
    rintro (hp | hp | hp)
    · cases hp
    · cases hp
    · exact .inr (.inr (by rw [← htch]; exact hp))
  served := fun _ => rfl
  idle := fun h => absurd h hidle

theorem not_idle_of_state {s : St} (h : s.rch.state ≠ .waitForMessageFromProtocolLayer) :
    ¬RchIdle s := fun hidle => h hidle.1

theorem not_idle_of_flag {s : St} (h : s.rch.flags.msgReceived = true) : ¬RchIdle s := by
  intro hidle
  rw [hidle.2] at h
  cases h

theorem rchRun_step (e : Env) {s : St} (hs : Inv s) : RchStep s (rchRun e s) := by
  have hruns := rchRun_runs e hs.notPassUp
  generalize rchRun e s = s' at hruns ⊢
  cases hruns with
  | idle h hf =>
    exact
      { clean := hs.clean
        notPassUp := hs.notPassUp
        tch := .inl rfl
        header := rfl
        rx := rfl
        cur := rfl
        pending := id
        served := fun _ => hf
        idle := fun _ => rfl }
  | ignored h hf hext =>
    exact
      { clean := ⟨hs.clean.idle, hs.clean.busy⟩
        notPassUp := hs.notPassUp
        tch := .inl rfl
        header := rfl
        rx := rfl
        cur := rfl
        pending := id
        served := fun hw => absurd (h.symm.trans hw) (by decide)
        idle := fun hidle => absurd hidle (not_idle_of_flag hf) }
  | first timers h hf hext hchunked =>
    exact
      { clean := ⟨hs.clean.idle, fun hb => ⟨rfl, (hs.clean.busy hb).2⟩⟩
        notPassUp := nofun
        tch := .inl rfl
        header := rfl
        rx := rfl
        cur := cur_snoc_of_ne nofun
        pending := fun _ => .inr (.inl hf)
        served := nofun
        idle := fun hidle => absurd hidle (not_idle_of_flag hf) }
  | whole timers h hf =>
    apply passedUp_step
    · exact ⟨hs.clean.idle, fun hb => ⟨rfl, (hs.clean.busy hb).2⟩⟩
    · rfl
    · rfl
    · rfl
    · exact cur_snoc_of_ne nofun
    · exact not_idle_of_flag hf
  | fail err t ht h hst hf =>
    apply rchFail_step e err ht hs.clean
    · rw [h]
      exact hst
    · intro hidle
      exact not_idle_of_flag (hf hidle.1) hidle
  | reset timers h =>
    exact
      { clean := ⟨hs.clean.idle, fun hb => ⟨rfl, (hs.clean.busy hb).2⟩⟩
        notPassUp := nofun
        tch := .inl rfl
        header := rfl
        rx := rfl
        cur := rfl
        pending := by
          rintro (hp | hp | hp)
          · cases hp
          · cases hp
          · exact .inr (.inr hp)
        served := fun _ => rfl
        idle := fun hidle => absurd hidle (not_idle_of_state h) }
  | last timers h hnum hroom hlast =>
    apply passedUp_step
    · exact ⟨hs.clean.idle, hs.clean.busy⟩
    · rfl
    · rfl
    · rfl
    · exact cur_snoc_of_ne nofun
    · exact not_idle_of_state (by rw [h]; decide)
  | more timers h hnum hroom hmore =>
    exact
      { clean := ⟨hs.clean.idle, hs.clean.busy⟩
        notPassUp := nofun
        tch := .inl rfl
        header := rfl
        rx := by
          funext i
          exact rxChkBuf_blit (rchAppend s).pdmsg _ (by decide) i
        cur := cur_snoc_of_ne nofun
        pending := fun _ => .inl h
        served := nofun
        idle := fun hidle => absurd hidle (not_idle_of_state (by rw [h]; decide)) }
  | asked timers t ht h hrch =>
    have hclean := ht.clean hs.clean
    exact
      { clean := ⟨hclean.idle, hclean.busy⟩
        notPassUp := nofun
        tch := ht.tch_state
        header := ht.header
        rx := ht.rx
        cur := by
          show (asm t.events).cur = _
          rw [ht.events.asm]
        pending := by
          rintro (hp | hp | hp)
          · cases hp
          · exact .inr (.inl (ht.rch_flag hp).2)
          · exact .inr (.inr (ht.tch_flag hp))
        served := nofun
        idle := fun hidle => absurd hidle (not_idle_of_state (by rw [h]; decide)) }
  | next timers h hf hext hchunked =>
    exact
      { clean := ⟨hs.clean.idle, fun hb => ⟨rfl, (hs.clean.busy hb).2⟩⟩
        notPassUp := nofun
        tch := .inl rfl
        header := rfl
        rx := rfl
        cur := rfl
        pending := fun _ => .inr (.inl hf)
        served := nofun
        idle := fun hidle => absurd hidle (not_idle_of_flag hf) }

/-! ## Whole runs -/

theorem afterRch_steps (e : RunEnv) {s : St} (hs : Inv s)
    (hserved : s.rch.state = .waitForMessageFromProtocolLayer → s.rch.flags.msgReceived = false) :
    TchStep (e .tch).Silent s (tchRun (e .tch) s) ∧
      Same (tchRun (e .tch) s) (prlTxRun (e .tx) (tchRun (e .tch) s)) ∧
      TchStep (e .tchAgain).Silent (prlTxRun (e .tx) (tchRun (e .tch) s)) (afterRch e s) := by
  have hserved₀ : RchServed s := by
    intro hst hf
    rw [hserved hst] at hf
    cases hf
  have h₁ := tchRun_step (e .tch) hs.clean hs.chunkedTx hserved₀
  have hinv₁ := h₁.inv hs
  have hsame := prlTxRun_same (e .tx) (tchRun (e .tch) s)
  have h₂ := hsame.calm
  have hinv₂ := h₂.inv hinv₁
  have hserved₂ : RchServed (prlTxRun (e .tx) (tchRun (e .tch) s)) := by
    intro hst hf
    obtain ⟨heq, hf₁⟩ := h₂.rch_flag hf
    rw [h₂.tch_state_of_flag hf]
    obtain ⟨hst₀, hf₀⟩ | hmr := h₁.raised (heq ▸ hst) hf₁
    · rw [hserved hst₀] at hf₀
      cases hf₀
    · exact hmr
  exact ⟨h₁, hsame, tchRun_step (e .tchAgain) hinv₂.clean hinv₂.chunkedTx hserved₂⟩

theorem afterRch_inv (e : RunEnv) {s : St} (hs : Inv s)
    (hserved : s.rch.state = .waitForMessageFromProtocolLayer → s.rch.flags.msgReceived = false) :
    Inv (afterRch e s) := by
  obtain ⟨h₁, h₂, h₃⟩ := afterRch_steps e hs hserved
  exact h₃.inv (h₂.calm.inv (h₁.inv hs))

theorem prlRunning_inv (e : RunEnv) (en : Bool) {s : St} (hs : Inv s) : Inv (prlRunning e en s) := by
  simp only [prlRunning]
  split
  · have hemit := (emit_same s (.setRxEnable false) trivial).calm
    exact (hemit.trans (withLocalState_calm _ _)).inv hs
  · have hhr := (prlHrRun_calm (e .hr) hs.clean).inv hs
    split
    · next hidle =>
      have hrx := prlRxWaitForPhyMessage_inv (e .rx) hhr hidle
      have hstep := rchRun_step (e .rch) hrx
      exact afterRch_inv e (hstep.inv hrx) hstep.served
    · exact hhr

theorem prlInit_inv (e : Env) (s : St) : Inv { prlInit e s with localState := .run } where
  clean := ⟨fun _ => ⟨rfl, rfl⟩, fun _ => ⟨rfl, rfl⟩⟩
  notPassUp := nofun
  chunkedTx := nofun
  held := by
    rintro (hp | hp | hp) <;> cases hp

theorem prlRun_inv (e : RunEnv) (en : Bool) {s : St} (hs : Inv s) : Inv (prlRun e en s) := by
  unfold prlRun
  split
  · split
    · exact hs
    · exact prlRunning_inv e en (prlInit_inv _ s)
  · exact prlRunning_inv e en (prlInit_inv _ s)
  · exact prlRunning_inv e en hs

theorem boot_inv : Inv boot where
  clean := ⟨fun _ => ⟨rfl, rfl⟩, fun _ => ⟨rfl, rfl⟩⟩
  notPassUp := nofun
  chunkedTx := nofun
  held := by
    rintro (hp | hp | hp) <;> cases hp

theorem step_inv (i : Input) {s : St} (hs : Inv s) : Inv (step s i) := by
  cases i with
  | run e en => exact prlRun_inv e en hs
  | call e c => exact (prlCall_calm e c hs.clean).inv hs
  | enqueueMessage m =>
    have h : Same s (step s (.enqueueMessage m)) := Same.ite (fun _ => .refl s) (fun _ => .silent rfl rfl)
    exact h.calm.inv hs
  | clearPendingMessages =>
    have h : Same s (step s .clearPendingMessages) := .silent rfl rfl
    exact h.calm.inv hs

theorem Reachable.inv {s : St} (h : Reachable s) : Inv s := by
  induction h with
  | boot => exact boot_inv
  | step i _ ih => exact step_inv i ih

/-! ## Where a run comes to chunked Rx -/

/-- `prl_run` has initialized the machines if it had to, and run hard reset. -/
def started (e : RunEnv) (s : St) : St :=
  prlHrRun (e .hr)
    (if s.localState = .run then s else { prlInit (e .init) s with localState := .run })

/-- The state in which `prl_run` comes to chunked Rx, if it does. -/
def rchSees (e : RunEnv) (s : St) : Option St :=
  if (started e s).prlHr.state = .waitForRequest then some (beforeRch e (started e s)) else none

theorem rchSees_eq_some {e : RunEnv} {s t : St} :
    rchSees e s = some t ↔ (started e s).prlHr.state = .waitForRequest ∧ beforeRch e (started e s) = t := by
  unfold rchSees
  split
  · next h => simp [h]
  · next h => simp [h]

theorem prlRun_eq (e : RunEnv) (s : St) : prlRun e true s =
    if (started e s).prlHr.state = .waitForRequest then
      afterRch e (rchRun (e .rch) (beforeRch e (started e s)))
    else started e s := by
  have hinit : s.localState ≠ .run →
      started e s = prlHrRun (e .hr) { prlInit (e .init) s with localState := .run } := by
    intro hst
    rw [started, if_neg hst]
  unfold prlRun
  split
  · next hst =>
    rw [hinit (by rw [hst]; decide)]
    rfl
  · next hst =>
    rw [hinit (by rw [hst]; decide)]
    rfl
  · next hst =>
    rw [started, if_pos hst]
    rfl

theorem prlRun_of_rchSees {e : RunEnv} {s t : St} (h : rchSees e s = some t) :
    prlRun e true s = afterRch e (rchRun (e .rch) t) := by
  obtain ⟨hidle, rfl⟩ := rchSees_eq_some.mp h
  rw [prlRun_eq, if_pos hidle]

theorem started_inv (e : RunEnv) {s : St} (hs : Inv s) :
    Inv (if s.localState = .run then s else { prlInit (e .init) s with localState := .run }) := by
  split
  · exact hs
  · exact prlInit_inv _ s

theorem rchSees_inv {e : RunEnv} {s t : St} (hs : Inv s) (ht : rchSees e s = some t) : Inv t := by
  obtain ⟨hidle, rfl⟩ := rchSees_eq_some.mp ht
  have hstart := started_inv e hs
  exact prlRxWaitForPhyMessage_inv (e .rx) ((prlHrRun_calm (e .hr) hstart.clean).inv hstart) hidle

/-- A step after which the message being received is as it was, or is given up. -/
structure Aside (s s' : St) : Prop where
  rch : s'.rch.state = s.rch.state ∨ s'.rch.state = .waitForMessageFromProtocolLayer
  buf : s'.rxEmsg.buf = s.rxEmsg.buf
  expected : s'.pdmsg.chunkNumberExpected = s.pdmsg.chunkNumberExpected
  received : s'.pdmsg.numBytesReceived = s.pdmsg.numBytesReceived
  events : Quiet s s'

theorem Calm.aside {s s' : St} (h : Calm s s') : Aside s s' :=
  ⟨h.rch_state, h.buf, h.expected, h.received, h.events⟩

theorem TchStep.aside {q : Prop} {s s' : St} (h : TchStep q s s') : Aside s s' :=
  ⟨h.rch, h.buf, h.expected, h.received, h.events⟩

structure RxProperty (P : St → Prop) : Prop where
  aside : ∀ {s s' : St}, Aside s s' → P s → P s'
  take : ∀ (m : RxMessage) (rest : List RxMessage) {s : St}, P s → P (takeMessage m rest s)

namespace RxProperty

variable {P : St → Prop} (hP : RxProperty P)

include hP

theorem reception (e : Env) {s : St} (hs : HrClean s) (h : P s) : P (prlRxWaitForPhyMessage e s) := by
  have hruns := prlRx_runs e s
  generalize prlRxWaitForPhyMessage e s = s' at hruns ⊢
  cases hruns with
  | idle => exact h
  | dropped _ m rest _ ht => exact hP.aside ht.calm.aside (hP.take m rest h)
  | softReset _ m rest =>
    have htake : HrClean (takeMessage m rest s) := ⟨hs.idle, hs.busy⟩
    have hc := ((prlResetMsgIds_same (takeMessage m rest s) m.header.sop).trans
      (toPrlTxPhyLayerReset_same e _)).calm.trans (toRchWait_calm _)
    have hwait := toTchWait_step (q := True) (hc.clean htake)
    have hcall := peCall_calm e .gotSoftReset hwait.clean
    exact hP.aside hcall.aside (hP.aside hwait.aside (hP.aside hc.aside (hP.take m rest h)))
  | toTch _ m rest t ht =>
    have hset : Aside t (setTch (fun f => { f with msgReceived := true }) t) :=
      ⟨.inl rfl, rfl, rfl, rfl, Quiet.of_eq rfl⟩
    exact hP.aside hset (hP.aside ht.calm.aside (hP.take m rest h))
  | toRch _ m rest t ht _ =>
    have hset : Aside t (setRch (fun f => { f with msgReceived := true }) t) :=
      ⟨.inl rfl, rfl, rfl, rfl, Quiet.of_eq rfl⟩
    exact hP.aside hset (hP.aside ht.calm.aside (hP.take m rest h))

omit hP in
theorem prlInit_events (e : Env) (s : St) : (prlInit e s).events =
    s.events ++ [.selectSrcCollisionRp true] ++ SopStar.all.map .resetMsgIds ++
      [.setRxEnable e.pdIsConnected] := rfl

theorem init (e : Env) {s : St} (h : P s) : P { prlInit e s with localState := .run } := by
  have hevents : Quiet s { prlInit e s with localState := .run } :=
    ⟨[.selectSrcCollisionRp true] ++ SopStar.all.map .resetMsgIds ++
        [.setRxEnable e.pdIsConnected], by simp [prlInit_events], by simp [SopStar.all, Event.Inert]⟩
  have haside : Aside s { prlInit e s with localState := .run } :=
    ⟨.inr rfl, rfl, rfl, rfl, hevents⟩
  exact hP.aside haside h

theorem started (e : RunEnv) {s : St} (hs : Inv s) (h : P s) : P (started e s) := by
  refine hP.aside (prlHrRun_calm (e .hr) (started_inv e hs).clean).aside ?_
  split
  · exact h
  · exact hP.init _ h

theorem rchSees {e : RunEnv} {s t : St} (hs : Inv s) (h : P s) (ht : rchSees e s = some t) : P t := by
  obtain ⟨-, rfl⟩ := rchSees_eq_some.mp ht
  have hstart := started_inv e hs
  exact hP.reception (e .rx) ((prlHrRun_calm (e .hr) hstart.clean).clean hstart.clean)
    (hP.started e hs h)

theorem afterRch (e : RunEnv) {t : St} (ht : Inv t) (h : P (rchRun (e .rch) t)) :
    P (afterRch e (rchRun (e .rch) t)) := by
  have hstep := rchRun_step (e .rch) ht
  obtain ⟨h₁, h₂, h₃⟩ := afterRch_steps e (hstep.inv ht) hstep.served
  exact hP.aside h₃.aside (hP.aside h₂.calm.aside (hP.aside h₁.aside h))

/-- A property of the message being received holds after a step if it does after
chunked Rx ran, in a step where it does. -/
theorem step {s : St} (i : Input) (hs : Inv s) (h : P s)
    (hrch : ∀ e t, i = .run e true → UsbPrl.rchSees e s = some t → P (rchRun (e .rch) t)) :
    P (step s i) := by
  have hstop : ∀ {e : RunEnv} {u : St}, P u → P (prlRunning e false u) := by
    intro e u hu
    have hemit := (emit_same u (.setRxEnable false) trivial).calm
    exact hP.aside (hemit.trans (withLocalState_calm _ _)).aside hu
  cases i with
  | run e en =>
    cases en with
    | false =>
      show P (prlRun e false s)
      unfold prlRun
      split
      · exact h
      · exact hstop (hP.init _ h)
      · exact hstop h
    | true =>
      show P (prlRun e true s)
      rw [prlRun_eq]
      split
      · next hidle =>
        have hsees : UsbPrl.rchSees e s = some (beforeRch e (UsbPrl.started e s)) :=
          rchSees_eq_some.mpr ⟨hidle, rfl⟩
        exact hP.afterRch e (rchSees_inv hs hsees) (hrch e _ rfl hsees)
      · exact hP.started e hs h
  | call e c => exact hP.aside (prlCall_calm e c hs.clean).aside h
  | enqueueMessage m =>
    have hsame : Same s (UsbPrl.step s (.enqueueMessage m)) :=
      Same.ite (fun _ => .refl s) (fun _ => .silent rfl rfl)
    exact hP.aside hsame.calm.aside h
  | clearPendingMessages =>
    have hsame : Same s (UsbPrl.step s .clearPendingMessages) := .silent rfl rfl
    exact hP.aside hsame.calm.aside h

end RxProperty

end ChromeEc.UsbPrl
