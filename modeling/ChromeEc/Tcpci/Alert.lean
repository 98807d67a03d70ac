import ChromeEc.Tcpci.Model

/- What the alert handler clears it has dealt with.

  What is proved: whatever happens between two accesses, each bit that one call clears is
  reported by the same call, apart from transmit alerts that rise after the first read of ALERT,
  each message that it gives up was read into the cache or had to go, and the call ends
  (`tcpciTcpcAlert_dealt`). If no access fails, all messages are well formed and the cache always
  has room then only BIST test mode costs a message. What is outside of this does happen
  (`cleared_unseen`).

  The writes to ALERT before the end clear nothing that is reported (`Minor`). The last one
  clears what the last read saw, and the events that follow are taken from the same word. -/
namespace ChromeEc.Tcpci

variable {cfg : Config} {w w' : World} {bistMode : Bool} {alert bits : Word} {cause : Cause} {n failed fuel : Nat}

/-! ## Accesses -/

theorem nextAccess_clears : (nextAccess w).2.clears = w.clears := by
  rw [nextAccess]
  split <;> rfl

theorem nextAccess_reports : (nextAccess w).2.reports = w.reports := by
  rw [nextAccess]
  split <;> rfl

theorem nextAccess_rx : w.rx <+: (nextAccess w).2.rx := by
  rw [nextAccess]
  split
  · exact List.prefix_refl _
  · exact List.prefix_append ..

/-- What can still happen, and what waits in the controller. -/
def remaining (w : World) : Nat := w.script.length + (w.script.map (·.received.length)).sum + w.rx.length

theorem remaining_nextAccess : remaining (nextAccess w).2 + (if w.script.isEmpty then 0 else 1) = remaining w := by
  rw [nextAccess]
  cases hscript : w.script with
  | nil => simp
  | cons x rest => simp [remaining, hscript]; omega

theorem remaining_nextAccess_le : remaining (nextAccess w).2 ≤ remaining w :=
  Nat.le_of_add_right_le remaining_nextAccess.le

/-- A message whose byte count the handler accepts. -/
def Message.WellFormed (m : Message) : Prop := 3 ≤ m.byteCount.toNat ∧ m.byteCount.toNat ≤ payloadSize + 3

/-- No access fails, and all messages are well formed. -/
structure Clean (w : World) : Prop where
  script : ∀ x ∈ w.script, x.fails = false ∧ ∀ m ∈ x.received, m.WellFormed
  rx : ∀ m ∈ w.rx, m.WellFormed
  alert : has w.alert alertRxStatus = false

theorem has_or_not {a b : Word} (h : has a alertRxStatus = false) :
    has (a ||| (b &&& ~~~alertRxStatus)) alertRxStatus = false := by
  simp only [has, bne_eq_false_iff_eq] at h ⊢
  rw [BitVec.and_comm, BitVec.and_or_distrib_left, BitVec.and_comm _ a, h, BitVec.zero_or, BitVec.and_comm b,
    ← BitVec.and_assoc]
  simp

theorem has_and {a b flags : Word} (h : has a flags = false) : has (a &&& b) flags = false := by
  simp only [has, bne_eq_false_iff_eq] at h ⊢
  rw [BitVec.and_assoc, BitVec.and_comm b, ← BitVec.and_assoc, h, BitVec.zero_and]

theorem Clean.next (h : Clean w) : (nextAccess w).1.fails = false ∧ Clean (nextAccess w).2 := by
  rw [nextAccess]
  cases hscript : w.script with
  | nil => exact ⟨rfl, h⟩
  | cons x rest =>
    obtain ⟨hfails, hreceived⟩ := h.script x (by simp [hscript])
    refine ⟨hfails, fun y hy => h.script y (by simp [hscript, hy]), fun m hm => ?_, has_or_not h.alert⟩
    exact (List.mem_append.mp hm).elim (h.rx m) (hreceived m)

/-- No write to ALERT, nothing that was reported is lost, and messages only arrive. -/
structure Silent (w w' : World) : Prop where
  clears : w'.clears = w.clears
  reports : w.reports <+: w'.reports
  rx : w.rx <+: w'.rx
  clean : Clean w → Clean w'
  remaining : remaining w' ≤ remaining w

theorem Silent.refl : Silent w w := ⟨rfl, List.prefix_refl _, List.prefix_refl _, id, Nat.le_refl _⟩

theorem Silent.trans {u : World} (h : Silent w w') (k : Silent w' u) : Silent w u :=
  ⟨k.clears.trans h.clears, h.reports.trans k.reports, h.rx.trans k.rx, k.clean ∘ h.clean,
    k.remaining.trans h.remaining⟩

theorem silent_report {r : Report} : Silent w (w.report r) :=
  ⟨rfl, List.prefix_append .., List.prefix_refl _, fun h => ⟨h.script, h.rx, h.alert⟩, Nat.le_refl _⟩

theorem silent_nextAccess : Silent w (nextAccess w).2 :=
  ⟨nextAccess_clears, nextAccess_reports ▸ List.prefix_refl _, nextAccess_rx, fun h => h.next.2, remaining_nextAccess_le⟩

theorem silent_of_eq (hclears : w'.clears = w.clears) (hreports : w'.reports = w.reports) (hrx : w'.rx = w.rx)
    (hscript : w'.script = w.script) (halert : w'.alert = w.alert) : Silent w w' :=
  ⟨hclears, hreports ▸ List.prefix_refl _, hrx ▸ List.prefix_refl _,
    fun h => ⟨hscript ▸ h.script, hrx ▸ h.rx, halert ▸ h.alert⟩, by rw [remaining, remaining, hscript, hrx]⟩

theorem silent_tcpcRead : Silent w (tcpcRead w).2.2 := silent_nextAccess
theorem silent_tcpcWrite : Silent w (tcpcWrite w).2 := silent_nextAccess
theorem silent_rxRead : Silent w (rxRead w).2.2 := silent_nextAccess
theorem silent_tcpmAlertStatus : Silent w (tcpmAlertStatus alert w).2.2 := silent_nextAccess

/-- A write to ALERT clears at most what is written, and gives up a message only with RX_STATUS. -/
theorem writeAlert_cases : Silent w (writeAlert cause bits w).2 ∨
    ∃ c, (writeAlert cause bits w).2.clears = w.clears ++ [c] ∧ (writeAlert cause bits w).2.reports = w.reports ∧
      c.cause = cause ∧ c.bits &&& bits = c.bits ∧
      c.dropped = if has bits alertRxStatus then (nextAccess w).2.rx.head? else none := by
  have hsame : ∀ a b : Word, a &&& b &&& b = a &&& b := fun a b => by rw [BitVec.and_assoc, BitVec.and_self]
  simp only [writeAlert]
  split
  · exact .inl silent_nextAccess
  · split
    · exact .inr ⟨_, by rw [nextAccess_clears], nextAccess_reports, rfl, hsame .., rfl⟩
    · exact .inr ⟨_, by rw [nextAccess_clears], nextAccess_reports, rfl, hsame .., rfl⟩

/-! ## Reading a message -/

/-- An attempt to read a message writes to ALERT at most once, and then only RX_STATUS. A message
    that is given up as read is the one in the cache. -/
def Attempt (cfg : Config) (w : World) (r : Rv × World) : Prop :=
  Silent w r.2 ∨ ∃ c, r.2.clears = w.clears ++ [c] ∧ w.reports <+: r.2.reports ∧ c.bits &&& alertRxStatus = c.bits ∧
    (c.cause = .unreadable ∨ ∃ slot, c.cause = .read slot ∧ r.1 = .success ∧
      r.2.cache.buffer (CachedMessages.slot r.2.cache.head) = slot ∧ ∀ m, c.dropped = some m → slot = m.cached cfg)

theorem Attempt.after {u : World} {r : Rv × World} (h : Attempt cfg w r) (hsilent : Silent u w) : Attempt cfg u r := by
  rcases h with h | ⟨c, hclears, hreports, hrest⟩
  · exact .inl (hsilent.trans h)
  · exact .inr ⟨c, hsilent.clears ▸ hclears, hsilent.reports.trans hreports, hrest⟩

theorem nextAccess_cache : (nextAccess w).2.cache.buffer = w.cache.buffer ∧
    (nextAccess w).2.cache.head = w.cache.head := by
  rw [nextAccess]
  split <;> exact ⟨rfl, rfl⟩

theorem writeAlert_cache : (writeAlert cause bits w).2.cache.buffer = w.cache.buffer ∧
    (writeAlert cause bits w).2.cache.head = w.cache.head := by
  simp only [writeAlert]
  split
  · exact nextAccess_cache
  · split <;> exact nextAccess_cache

theorem head_of_prefix {l k : List Message} {m : Message} (h : l <+: k) (hl : l.head? = some m) : k.head? = some m := by
  obtain ⟨t, rfl⟩ := h
  cases l with
  | nil => cases hl
  | cons x l => exact hl

theorem silent_store {slot : CachedTcpmMessage} : Silent w (w.store slot) := silent_of_eq rfl rfl rfl rfl rfl

theorem store_cell {slot : CachedTcpmMessage} :
    (w.store slot).cache.buffer (CachedMessages.slot (w.store slot).cache.head) = slot := Function.update_self ..

theorem attempt_finishRead {complete : Bool} {rv : Rv} {slot : CachedTcpmMessage}
    (h : complete = true → rv = .success ∧ ∃ m, w.rx.head? = some m ∧ slot = m.cached cfg) :
    Attempt cfg w (finishRead complete rv slot w) := by
  rcases @writeAlert_cases (w.store slot) alertRxStatus (if complete then .read slot else .unreadable) with
    hsilent | ⟨c, hclears, hreports, hcause, hbits, hdropped⟩
  · exact .inl (silent_store.trans hsilent)
  · have hgrows : w.reports <+: (finishRead complete rv slot w).2.reports := by
      rw [finishRead, hreports]
      exact List.prefix_refl _
    refine .inr ⟨c, hclears, hgrows, hbits, ?_⟩
    cases complete with
    | false => exact .inl hcause
    | true =>
      obtain ⟨hrv, m, hhead, hslot⟩ := h rfl
      obtain ⟨hbuffer, hcounter⟩ := @writeAlert_cache (w.store slot) alertRxStatus (.read slot)
      refine .inr ⟨slot, hcause, hrv, ?_, fun m' hm' => ?_⟩
      · exact (congrFun hbuffer _).trans ((congrArg (fun a => (w.store slot).cache.buffer (CachedMessages.slot a))
          hcounter).trans store_cell)
      · have hfirst : (nextAccess (w.store slot)).2.rx.head? = some m := head_of_prefix nextAccess_rx hhead
        rw [hdropped, if_pos (by decide), hfirst] at hm'
        exact Option.some.inj hm' ▸ hslot

theorem rxRead_spec {m : Message} (h : w.rx.head? = some m) :
    Silent w (rxRead w).2.2 ∧ (rxRead w).2.1 = some m ∧ (rxRead w).2.2.rx.head? = some m :=
  ⟨silent_rxRead, head_of_prefix nextAccess_rx h, head_of_prefix nextAccess_rx h⟩

theorem attempt_readPayload {header : BitVec 32} {cnt : Nat} {m : Message} (hhead : w.rx.head? = some m)
    (hheader : header = (m.cached cfg).header) (hcnt : cnt = m.byteCount.toNat - 3) :
    Attempt cfg w (readPayload header cnt w) := by
  rw [readPayload]
  split
  · rename_i hzero
    refine attempt_finishRead fun _ => ⟨rfl, m, hhead, ?_⟩
    have hempty : padded (block m (m.byteCount.toNat - 3)) = blank.payload := by
      rw [← hcnt, hzero]
      rfl
    rw [Message.cached, hempty, hheader]
    rfl
  · obtain ⟨hsilent, hvalue, hfirst⟩ := rxRead_spec hhead
    generalize rxRead w = r at hsilent hvalue hfirst
    obtain ⟨ok, x, u⟩ := r
    refine (attempt_finishRead fun hok => ⟨rfl, m, hfirst, ?_⟩).after hsilent
    have hx : x = some m := hvalue
    rw [if_pos hok, hx, Message.cached, ← hcnt, hheader]
    rfl

theorem head_of_count {x : Option Message} (h : ¬(x.getD noMessage).byteCount.toNat < 3) : ∃ m, x = some m := by
  cases x with
  | none => exact absurd (by decide) h
  | some m => exact ⟨m, rfl⟩

/-- An attempt to read a message fails, or it goes on to the data of the message that waits. -/
def ReadsFirst (cfg : Config) (w : World) (r : Rv × World) : Prop :=
  ∃ u, Silent w u ∧ ((∃ slot, r = finishRead false .errorUnknown slot u) ∨
    ∃ m, u.rx.head? = some m ∧ r = readPayload (m.cached cfg).header (m.byteCount.toNat - 3) u)

theorem ReadsFirst.fails {u : World} {slot : CachedTcpmMessage} (h : Silent w u) :
    ReadsFirst cfg w (finishRead false .errorUnknown slot u) := ⟨u, h, .inl ⟨slot, rfl⟩⟩

theorem ReadsFirst.payload {u : World} {m : Message} {header : BitVec 32} (h : Silent w u) (hhead : u.rx.head? = some m)
    (hheader : header = (m.cached cfg).header) : ReadsFirst cfg w (readPayload header (m.byteCount.toNat - 3) u) :=
  ⟨u, h, .inr ⟨m, hhead, by rw [hheader]⟩⟩

theorem rev10_cases (hrev : cfg.rev2 = false) : ReadsFirst cfg w (tcpciRev10TcpmGetMessageRaw cfg w) := by
  have hstart := silent_rxRead (w := w)
  have hsame : (rxRead w).2.1 = (rxRead w).2.2.rx.head? := rfl
  rw [tcpciRev10TcpmGetMessageRaw]
  generalize rxRead w = r at hstart hsame
  obtain ⟨ok, x, u⟩ := r
  dsimp only at hstart hsame ⊢
  split
  · exact .fails hstart
  · rename_i hcount
    obtain ⟨m, rfl⟩ := head_of_count (x := x) (by simp at hcount; omega)
    have hsop : ∃ ok frm v, (if cfg.decodeSop = true then rxRead u else (true, none, u)) = (ok, frm, v) ∧
        (cfg.decodeSop = true → frm = some m) ∧ Silent w v ∧ v.rx.head? = some m := by
      split
      · obtain ⟨hsilent, hvalue, hfirst⟩ := rxRead_spec hsame.symm
        exact ⟨_, _, _, rfl, fun _ => hvalue, hstart.trans hsilent, hfirst⟩
      · exact ⟨_, _, _, rfl, fun h => absurd h ‹_›, hstart, hsame.symm⟩
    obtain ⟨ok, frm, v, hread, hframe, hv, hhead⟩ := hsop
    rw [hread]
    dsimp only
    split
    · exact .fails hv
    · obtain ⟨hsilent, hvalue, hfirst⟩ := rxRead_spec hhead
      generalize rxRead v = r at hsilent hvalue hfirst
      obtain ⟨ok', hdr, x⟩ := r
      dsimp only at hsilent hvalue hfirst ⊢
      split
      · exact .fails (hv.trans hsilent)
      · refine .payload (hv.trans hsilent) hfirst ?_
        cases hsop : cfg.decodeSop <;> simp [Message.cached, hrev, hsop, hvalue, hframe]

theorem rev20_cases (hrev : cfg.rev2 = true) : ReadsFirst cfg w (tcpciRev20TcpmGetMessageRaw w) := by
  have hstart := silent_rxRead (w := w)
  have hsame : (rxRead w).2.1 = (rxRead w).2.2.rx.head? := rfl
  rw [tcpciRev20TcpmGetMessageRaw]
  generalize rxRead w = r at hstart hsame
  obtain ⟨ok, x, u⟩ := r
  dsimp only at hstart hsame ⊢
  split
  · exact .fails hstart
  · have hv := hstart.trans (silent_rxRead (w := u))
    have hhead : ∀ {m}, x = some m → (rxRead u).2.1 = some m ∧ (rxRead u).2.2.rx.head? = some m :=
      fun hx => (rxRead_spec (hsame.symm.trans hx)).2
    generalize rxRead u = r at hv hhead
    obtain ⟨ok', x', v⟩ := r
    dsimp only at hv hhead ⊢
    split
    · exact .fails hv
    · rename_i hcount
      obtain ⟨m, rfl⟩ := head_of_count (x := x) (by simp at hcount; omega)
      obtain ⟨rfl, hfirst⟩ := hhead rfl
      split
      · exact .payload hv hfirst (by simp [Message.cached, hrev])
      · split
        · exact .fails hv
        · exact .fails (hv.trans silent_rxRead)

theorem getMessageRaw_cases (cfg : Config) (w : World) : ReadsFirst cfg w (tcpciTcpmGetMessageRaw cfg w) := by
  rw [tcpciTcpmGetMessageRaw]
  split
  · exact rev20_cases ‹_›
  · exact rev10_cases (Bool.eq_false_iff.mpr ‹_›)

theorem attempt_getMessageRaw : Attempt cfg w (tcpciTcpmGetMessageRaw cfg w) := by
  obtain ⟨u, hsilent, ⟨slot, hr⟩ | ⟨m, hhead, hr⟩⟩ := getMessageRaw_cases cfg w
  · rw [hr]
    exact (attempt_finishRead fun h => Bool.noConfusion h).after hsilent
  · rw [hr]
    exact (attempt_readPayload hhead rfl rfl).after hsilent

/-! ## What the handler may clear before it is done -/

/-- A message is given up when it was read into the cache, when the cache is full, when an
    attempt to read it failed, or in BIST test mode. -/
def Accounted (cfg : Config) (reports : List Report) (c : Clear) : Prop :=
  ∀ m, c.dropped = some m →
    match c.cause with
    | .read slot => slot = m.cached cfg ∧ .enqueued slot ∈ reports
    | .unreadable => True
    | .full => True
    | .fault => False
    | .handled bistMode => bistMode = true

/-- The alerts that the handler reports are not among them. -/
def Minor (c : Clear) : Prop := c.bits &&& (alertRxStatus ||| alertRxBufOvf ||| alertFault) = c.bits

structure Underway (cfg : Config) (w : World) : Prop where
  accounted : ∀ c ∈ w.clears, Accounted cfg w.reports c
  minor : ∀ c ∈ w.clears, Minor c

theorem Accounted.mono {reports reports' : List Report} {c : Clear} (h : Accounted cfg reports c)
    (hgrows : reports <+: reports') : Accounted cfg reports' c := by
  intro m hm
  have hold := h m hm
  revert hold
  cases c.cause with
  | read slot => exact fun hold => ⟨hold.1, hgrows.subset hold.2⟩
  | _ => exact id

theorem Underway.silent (h : Underway cfg w) (hsilent : Silent w w') : Underway cfg w' where
  accounted := fun c hc => (h.accounted c (hsilent.clears ▸ hc)).mono hsilent.reports
  minor := fun c hc => h.minor c (hsilent.clears ▸ hc)

theorem Underway.snoc (h : Underway cfg w) {c : Clear} (hclears : w'.clears = w.clears ++ [c])
    (hreports : w.reports <+: w'.reports) (haccounted : Accounted cfg w'.reports c) (hminor : Minor c) :
    Underway cfg w' where
  accounted := by
    intro d hd
    rw [hclears] at hd
    rcases List.mem_append.mp hd with hd | hd
    · exact (h.accounted d hd).mono hreports
    · exact List.mem_singleton.mp hd ▸ haccounted
  minor := by
    intro d hd
    rw [hclears] at hd
    rcases List.mem_append.mp hd with hd | hd
    · exact h.minor d hd
    · exact List.mem_singleton.mp hd ▸ hminor

theorem minor_of {c : Clear} (h : c.bits &&& bits = c.bits)
    (hbits : bits &&& (alertRxStatus ||| alertRxBufOvf ||| alertFault) = bits) : Minor c := by
  rw [Minor, ← h, BitVec.and_assoc, hbits]

theorem Underway.write (h : Underway cfg w)
    (hbits : bits &&& (alertRxStatus ||| alertRxBufOvf ||| alertFault) = bits)
    (hcause : cause = .full ∨ has bits alertRxStatus = false) : Underway cfg (writeAlert cause bits w).2 := by
  rcases @writeAlert_cases w bits cause with
    hsilent | ⟨c, hclears, hreports, rfl, hsub, hdropped⟩
  · exact h.silent hsilent
  · refine h.snoc hclears (by rw [hreports]) (fun m hm => ?_) (minor_of hsub hbits)
    rcases hcause with hfull | hnone
    · rw [hfull]
      exact trivial
    · rw [hdropped, hnone] at hm
      cases hm

theorem silent_publishMessage : Silent w (publishMessage w) := by
  have hpublish : Silent w { w with cache := w.cache.publish } := silent_of_eq rfl rfl rfl rfl rfl
  exact (hpublish.trans silent_report).trans silent_report

theorem Underway.enqueue (h : Underway cfg w) :
    Underway cfg (tcpmEnqueueMessage cfg w).2 ∧ w.reports <+: (tcpmEnqueueMessage cfg w).2.reports := by
  rw [tcpmEnqueueMessage]
  split
  · exact ⟨h, List.prefix_refl _⟩
  · have hattempt := (@attempt_getMessageRaw cfg (w.store blank)).after silent_store
    generalize tcpciTcpmGetMessageRaw cfg (w.store blank) = r at hattempt
    obtain ⟨rv, u⟩ := r
    have hpublish : Silent u (publishMessage u) := silent_publishMessage
    dsimp only
    rcases hattempt with hsilent | ⟨c, hclears, hreports, hbits, hcause⟩
    · split
      · exact ⟨h.silent hsilent, hsilent.reports⟩
      · exact ⟨h.silent (hsilent.trans hpublish), (hsilent.trans hpublish).reports⟩
    · have hminor : Minor c := minor_of hbits (by decide)
      rcases hcause with hunreadable | ⟨slot, hread, hrv, hcell, hslot⟩
      · have hnext : Underway cfg u := h.snoc hclears hreports (fun m _ => by rw [hunreadable]; exact trivial) hminor
        split
        · exact ⟨hnext, hreports⟩
        · exact ⟨hnext.silent hpublish, hreports.trans hpublish.reports⟩
      · have hsuccess : rv = .success := hrv
        rw [if_neg (not_not.mpr hsuccess)]
        have hgrows := hreports.trans hpublish.reports
        refine ⟨h.snoc (hpublish.clears.trans hclears) hgrows (fun m hm => ?_) hminor, hgrows⟩
        rw [hread]
        refine ⟨hslot m hm, ?_⟩
        have hlogged : .enqueued (u.cache.buffer (CachedMessages.slot u.cache.head)) ∈ (publishMessage u).reports := by
          simp [publishMessage, World.report]
        exact hcell ▸ hlogged

/-! ## The loop -/

theorem Underway.pull (h : Underway cfg w) {p : Pulled}
    (hpull : pullMessages cfg bistMode fuel failed alert w = some (p, w')) :
    Underway cfg w' ∧ w.reports <+: w'.reports ∧ ∀ last, p = .finished last →
      has last alertRxStatus = false ∨ bistMode = true := by
  induction fuel generalizing failed alert w with
  | zero => cases hpull
  | succ fuel ih =>
    rw [pullMessages] at hpull
    split at hpull
    · rename_i hdone
      cases hpull
      refine ⟨h, List.prefix_refl _, fun last hlast => ?_⟩
      cases hlast
      simpa using hdone
    · obtain ⟨hnext, hreports⟩ := h.enqueue
      generalize tcpmEnqueueMessage cfg w = r at hpull hnext hreports
      obtain ⟨rv, u⟩ := r
      have hstatus : Silent u (tcpmAlertStatus alert u).2.2 := silent_tcpmAlertStatus
      dsimp only at hpull hnext hreports
      generalize tcpmAlertStatus alert u = r at hpull hstatus
      obtain ⟨ok, again, v⟩ := r
      have hlast : Underway cfg (if rv = .errorOverflow then
        (writeAlert .full (alertRxStatus ||| alertRxBufOvf) v).2 else v) ∧
          w.reports <+:
            (if rv = .errorOverflow then (writeAlert .full (alertRxStatus ||| alertRxBufOvf) v).2 else v).reports := by
        have hread := hnext.silent hstatus
        split
        · refine ⟨hread.write (by decide) (.inl rfl), (hreports.trans hstatus.reports).trans ?_⟩
          rcases @writeAlert_cases v (alertRxStatus ||| alertRxBufOvf) .full with
            hsilent | ⟨c, -, hsame, -⟩
          · exact hsilent.reports
          · rw [hsame]
        · exact ⟨hread, hreports.trans hstatus.reports⟩
      dsimp only at hpull
      generalize (if rv = .errorOverflow then (writeAlert .full (alertRxStatus ||| alertRxBufOvf) v).2 else v) = x
        at hpull hlast
      generalize (if ok = true then if rv ≠ .success then failed + 1 else failed
        else (if rv ≠ .success then failed + 1 else failed) + 1) = attempts at hpull
      split at hpull
      · cases hpull
        exact ⟨hlast.1.silent silent_report, hlast.2.trans silent_report.reports, fun last hlast => by cases hlast⟩
      · obtain ⟨hend, hgrows, hfinished⟩ := ih hlast.1 hpull
        exact ⟨hend, hlast.2.trans hgrows, hfinished⟩

theorem remaining_writeAlert : remaining (writeAlert cause bits w).2 ≤ remaining w := by
  have hnext := remaining_nextAccess_le (w := w)
  simp only [writeAlert]
  split
  · exact hnext
  · split
    · refine Nat.le_trans ?_ hnext
      simp only [remaining, List.length_tail]
      omega
    · exact hnext

/-- A write of RX_STATUS takes a message away, or it fails, and then the script is shorter. -/
theorem remaining_writeAlert_lt (hrx : w.rx ≠ []) : remaining (writeAlert cause alertRxStatus w).2 < remaining w := by
  have hnext := remaining_nextAccess (w := w)
  have hlength := nextAccess_rx (w := w).length_le
  have hpos := List.length_pos_iff.mpr hrx
  cases hscript : w.script with
  | nil =>
    have hquiet : nextAccess w = (quiet, w) := by rw [nextAccess, hscript]
    have hbit : has alertRxStatus alertRxStatus = true := by decide
    simp only [writeAlert, hquiet, quiet, hbit, Bool.false_eq_true, if_false, if_true, remaining, List.length_tail]
    omega
  | cons x rest =>
    rw [hscript] at hnext
    have hlt : remaining (nextAccess w).2 < remaining w := by
      simp at hnext
      omega
    refine Nat.lt_of_le_of_lt ?_ hlt
    simp only [writeAlert]
    split
    · exact Nat.le_refl _
    · split
      · simp only [remaining, List.length_tail]
        omega
      · exact Nat.le_refl _

theorem remaining_finishRead {complete : Bool} {rv : Rv} {slot : CachedTcpmMessage} :
    remaining (finishRead complete rv slot w).2 ≤ remaining w := remaining_writeAlert (w := w.store slot)

theorem remaining_finishRead_lt {complete : Bool} {rv : Rv} {slot : CachedTcpmMessage} (hrx : w.rx ≠ []) :
    remaining (finishRead complete rv slot w).2 < remaining w := remaining_writeAlert_lt (w := w.store slot) hrx

theorem ne_nil_of_head {m : Message} (h : w.rx.head? = some m) : w.rx ≠ [] := by
  intro hnil
  rw [hnil] at h
  cases h

theorem remaining_readPayload {header : BitVec 32} {cnt : Nat} {m : Message} (hhead : w.rx.head? = some m) :
    remaining (readPayload header cnt w).2 < remaining w := by
  rw [readPayload]
  split
  · exact remaining_finishRead_lt (ne_nil_of_head hhead)
  · obtain ⟨-, -, hfirst⟩ := rxRead_spec hhead
    have hle := (silent_rxRead (w := w)).remaining
    generalize rxRead w = r at hfirst hle
    exact Nat.lt_of_lt_of_le (remaining_finishRead_lt (ne_nil_of_head hfirst)) hle

theorem remaining_getMessageRaw : remaining (tcpciTcpmGetMessageRaw cfg w).2 ≤ remaining w ∧
    ((tcpciTcpmGetMessageRaw cfg w).1 = .success → remaining (tcpciTcpmGetMessageRaw cfg w).2 < remaining w) := by
  obtain ⟨u, hsilent, ⟨slot, hr⟩ | ⟨m, hhead, hr⟩⟩ := getMessageRaw_cases cfg w
  · rw [hr]
    exact ⟨Nat.le_trans remaining_finishRead hsilent.remaining, fun h => by cases h⟩
  · rw [hr]
    have hlt : ∀ header cnt, remaining (readPayload header cnt u).2 < remaining w :=
      fun header cnt => Nat.lt_of_lt_of_le (remaining_readPayload hhead) hsilent.remaining
    exact ⟨(hlt ..).le, fun _ => hlt ..⟩

theorem remaining_enqueue : remaining (tcpmEnqueueMessage cfg w).2 ≤ remaining w ∧
    ((tcpmEnqueueMessage cfg w).1 = .success → remaining (tcpmEnqueueMessage cfg w).2 < remaining w) := by
  have hraw := @remaining_getMessageRaw cfg (w.store blank)
  rw [tcpmEnqueueMessage]
  split
  · exact ⟨Nat.le_refl _, fun h => by cases h⟩
  · generalize tcpciTcpmGetMessageRaw cfg (w.store blank) = r at hraw
    obtain ⟨rv, u⟩ := r
    dsimp only
    split
    · exact hraw
    · rename_i hrv
      have hlt : remaining u < remaining w := hraw.2 (not_not.mp hrv)
      exact ⟨hlt.le, fun _ => hlt⟩

/-- The loop ends: each turn takes something away or is a failed attempt. -/
theorem pullMessages_ends (hfailed : failed < maxAllowFailedRxReads)
    (hfuel : remaining w + (maxAllowFailedRxReads - failed) < fuel) :
    (pullMessages cfg bistMode fuel failed alert w).isSome = true := by
  induction fuel generalizing failed alert w with
  | zero => exact absurd hfuel (Nat.not_lt_zero _)
  | succ fuel ih =>
    rw [pullMessages]
    split
    · rfl
    · obtain ⟨hle, hlt⟩ := @remaining_enqueue cfg w
      generalize tcpmEnqueueMessage cfg w = r at hle hlt
      obtain ⟨rv, u⟩ := r
      have hstatus := Nat.le_trans ((@silent_tcpmAlertStatus u alert).remaining) hle
      have hstatusLt := fun h => Nat.lt_of_le_of_lt ((@silent_tcpmAlertStatus u alert).remaining) (hlt h)
      dsimp only
      generalize tcpmAlertStatus alert u = r at hstatus hstatusLt
      obtain ⟨ok, again, v⟩ := r
      dsimp only at hstatus hstatusLt ⊢
      have hwrite : remaining (if rv = .errorOverflow then
        (writeAlert .full (alertRxStatus ||| alertRxBufOvf) v).2 else v) ≤
          remaining v := by
        split
        · exact remaining_writeAlert
        · exact Nat.le_refl _
      have hattempts : ∀ attempts, attempts = (if ok = true then if rv ≠ .success then failed + 1 else failed
          else (if rv ≠ .success then failed + 1 else failed) + 1) →
          failed ≤ attempts ∧ (rv ≠ .success → failed < attempts) := by
        rintro attempts rfl
        by_cases hrv : rv = .success
        · cases ok <;> simp [hrv]
        · cases ok
          · simp [hrv]
            omega
          · simp [hrv]
      obtain ⟨hge, hgt⟩ := hattempts _ rfl
      generalize (if ok = true then if rv ≠ .success then failed + 1 else failed
        else (if rv ≠ .success then failed + 1 else failed) + 1) = attempts at hge hgt
      split
      · rfl
      · rename_i hmore
        refine ih (Nat.lt_of_not_le hmore) ?_
        by_cases hrv : rv = .success
        · have hless := hstatusLt hrv
          omega
        · have hmoreFailed := hgt hrv
          omega

/-! ## Before and after the loop -/

theorem clearPendingFaults_cases : ∃ u, Silent w u ∧
    (clearPendingFaults cfg alert w = u ∨ clearPendingFaults cfg alert w = (writeAlert .fault alertFault u).2) := by
  have hread : Silent w (tcpcRead w).2.2 := silent_tcpcRead
  rw [clearPendingFaults]
  split
  · generalize tcpcRead w = r at hread
    obtain ⟨ok, fault, u⟩ := r
    dsimp only at hread ⊢
    split
    · have hhandle : Silent u (tcpciHandleFault cfg fault u).2 := by
        have hreport : Silent u (if cfg.ocpReporting && bit fault 3 then u.report .overcurrent else u) := by
          split
          · exact silent_report
          · exact .refl
        rw [tcpciHandleFault]
        split
        · exact hreport.trans silent_tcpcWrite
        · exact hreport
      generalize tcpciHandleFault cfg fault u = r at hhandle
      obtain ⟨ok, v⟩ := r
      have hv := hread.trans hhandle
      dsimp only at hv ⊢
      split
      · have hwrite : Silent v (tcpcWrite v).2 := silent_tcpcWrite
        rw [tcpciClearFault]
        generalize tcpcWrite v = r at hwrite
        obtain ⟨ok, x⟩ := r
        dsimp only at hwrite ⊢
        split
        · exact ⟨x, hv.trans hwrite, .inr rfl⟩
        · exact ⟨x, hv.trans hwrite, .inl rfl⟩
      · exact ⟨v, hv, .inl rfl⟩
    · exact ⟨u, hread, .inl rfl⟩
  · exact ⟨w, .refl, .inl rfl⟩

theorem Underway.clearPendingFaults (h : Underway cfg w) : Underway cfg (clearPendingFaults cfg alert w) := by
  obtain ⟨u, hsilent, heq | heq⟩ := @clearPendingFaults_cases cfg w alert
  · rw [heq]
    exact h.silent hsilent
  · rw [heq]
    exact (h.silent hsilent).write (by decide) (.inr (by decide))

theorem silent_pdTransmitComplete : Silent w (pdTransmitComplete alert w) := by
  rw [pdTransmitComplete]
  split
  · exact silent_report
  · exact .refl

theorem silent_tcpcGetBistTestMode : Silent w (tcpcGetBistTestMode cfg w).2 := by
  rw [tcpcGetBistTestMode]
  split
  · exact silent_tcpcRead
  · exact .refl

theorem silent_tcpciTcpmGetCc : Silent w (tcpciTcpmGetCc w).2 := by
  have hrole : Silent w (tcpcRead w).2.2 := silent_tcpcRead
  rw [tcpciTcpmGetCc]
  generalize tcpcRead w = r at hrole
  obtain ⟨ok, role, u⟩ := r
  dsimp only at hrole ⊢
  split
  · exact hrole
  · have hstatus : Silent u (tcpcRead u).2.2 := silent_tcpcRead
    generalize tcpcRead u = r at hstatus
    obtain ⟨ok, status, v⟩ := r
    dsimp only at hstatus ⊢
    split <;> exact hrole.trans hstatus

theorem checkCc_spec : Silent w (checkCc cfg alert w).2 ∧ (has alert alertCcStatus = true →
    (checkCc cfg alert w).1 = pdEventCc ∨
      cfg.dualRoleAutoToggle = true ∧ cfg.eventDrivenCcState = false ∧ .ccOpen ∈ (checkCc cfg alert w).2.reports) := by
  rw [checkCc]
  split
  · split
    · rename_i hauto
      have hcc : Silent w (tcpciTcpmGetCc w).2 := silent_tcpciTcpmGetCc
      generalize tcpciTcpmGetCc w = r at hcc
      obtain ⟨cc, u⟩ := r
      dsimp only at hcc ⊢
      split
      · exact ⟨hcc, fun _ => .inl rfl⟩
      · simp only [Bool.and_eq_true, Bool.not_eq_true'] at hauto
        exact ⟨hcc.trans silent_report, fun _ => .inr ⟨hauto.1, hauto.2, by simp [World.report]⟩⟩
    · exact ⟨.refl, fun _ => .inl rfl⟩
  · rename_i hnone
    exact ⟨.refl, fun h => absurd h hnone⟩

theorem silent_tcpciCheckVbusChanged : Silent w (tcpciCheckVbusChanged cfg alert w).2 := by
  have hsafe0v : Silent w (checkSafe0v cfg alert w) := by
    rw [checkSafe0v]
    split
    · have hread : Silent w (tcpcRead w).2.2 := silent_tcpcRead
      generalize tcpcRead w = r at hread
      obtain ⟨ok, extStatus, u⟩ := r
      dsimp only
      split
      · exact hread.trans (silent_of_eq rfl rfl rfl rfl rfl)
      · exact hread
    · exact .refl
  rw [tcpciCheckVbusChanged]
  generalize checkSafe0v cfg alert w = u at hsafe0v
  dsimp only
  split
  · have hread : Silent u (tcpcRead u).2.2 := silent_tcpcRead
    generalize tcpcRead u = r at hread
    obtain ⟨ok, pwrStatus, v⟩ := r
    dsimp only at hread ⊢
    refine (hsafe0v.trans hread).trans ?_
    have hvbus : Silent v (if (ok && bit pwrStatus 2) = true then { v with vbusPresent := true, vbusSafe0v := false }
        else if cfg.vsafe0v = true then { v with vbusPresent := false }
        else { v with vbusSafe0v := true, vbusPresent := false }) := by
      split
      · exact silent_of_eq rfl rfl rfl rfl rfl
      · split <;> exact silent_of_eq rfl rfl rfl rfl rfl
    generalize (if (ok && bit pwrStatus 2) = true then { v with vbusPresent := true, vbusSafe0v := false }
        else if cfg.vsafe0v = true then { v with vbusPresent := false }
        else { v with vbusSafe0v := true, vbusPresent := false }) = x at hvbus
    split
    · exact hvbus.trans silent_report
    · exact hvbus
  · exact hsafe0v

theorem checkHardReset_spec : Silent w (checkHardReset cfg alert w).2 ∧
    (has alert alertRxHardRst = true → (checkHardReset cfg alert w).1 = pdEventRxHardReset) := by
  rw [checkHardReset]
  split
  · refine ⟨?_, fun _ => rfl⟩
    rw [tcpmHardResetReinit]
    split
    · have hpower : Silent w (tcpcWrite w).2 := silent_tcpcWrite
      generalize (tcpcWrite w).2 = u at hpower
      have hmask : Silent u (tcpcWrite u).2 := silent_tcpcWrite
      dsimp only
      generalize tcpcWrite u = r at hmask
      obtain ⟨ok, v⟩ := r
      dsimp only at hmask ⊢
      split
      · exact (hpower.trans hmask).trans silent_tcpcWrite
      · exact hpower.trans hmask
    · exact .refl
  · rename_i hnone
    exact ⟨.refl, fun h => absurd h hnone⟩

theorem silent_checkReset : Silent w (checkReset bistMode w).2 := by
  rw [checkReset]
  split
  · exact .refl
  · have hmask : Silent w (tcpcRead w).2.2 := silent_tcpcRead
    have hreset : Silent w (registerMaskReset w).2 := by
      rw [registerMaskReset]
      generalize tcpcRead w = r at hmask
      obtain ⟨ok, mask, u⟩ := r
      dsimp only at hmask ⊢
      split
      · exact hmask
      · exact hmask.trans silent_tcpcRead
    exact hreset

/-! ## The whole handler -/

/-- What was cleared has been dealt with, where `first` is what ALERT read at the start. -/
structure Dealt (cfg : Config) (first : Word) (reports : List Report) (c : Clear) : Prop where
  cc : has c.bits alertCcStatus = true → (∃ events, .setEvent events ∈ reports ∧ events &&& pdEventCc = pdEventCc) ∨
    cfg.dualRoleAutoToggle = true ∧ cfg.eventDrivenCcState = false ∧ .ccOpen ∈ reports
  hardReset : has c.bits alertRxHardRst = true →
    ∃ events, .setEvent events ∈ reports ∧ events &&& pdEventRxHardReset = pdEventRxHardReset
  transmit : has (c.bits &&& first) alertTxComplete = true → .transmitComplete (txStatus first) ∈ reports
  accounted : Accounted cfg reports c

theorem has_of_and {a b flags : Word} (h : a &&& b = a) (hset : has a flags = true) : has b flags = true := by
  rw [has, bne_iff_ne] at hset ⊢
  intro hzero
  apply hset
  rw [← h, BitVec.and_assoc, hzero, BitVec.and_zero]

theorem has_of_and_right {a b flags : Word} (hset : has (a &&& b) flags = true) : has b flags = true := by
  apply has_of_and (a := a &&& b) ?_ hset
  rw [BitVec.and_assoc, BitVec.and_self]

theorem Minor.has {c : Clear} (h : Minor c) {flags : Word}
    (hflags : has (alertRxStatus ||| alertRxBufOvf ||| alertFault) flags = false) : has c.bits flags = false := by
  rw [Bool.eq_false_iff]
  intro hset
  exact Bool.noConfusion (hflags.symm.trans (has_of_and h hset))

theorem Underway.dealt (h : Underway cfg w) {first : Word}
    (htransmit : has first alertTxComplete = true → .transmitComplete (txStatus first) ∈ w.reports) :
    ∀ c ∈ w.clears, Dealt cfg first w.reports c := fun c hc =>
  { cc := fun hset => Bool.noConfusion (((h.minor c hc).has (by decide)).symm.trans hset)
    hardReset := fun hset => Bool.noConfusion (((h.minor c hc).has (by decide)).symm.trans hset)
    transmit := fun hset => htransmit (has_of_and_right hset)
    accounted := h.accounted c hc }

theorem or_keeps {x y a : Events} (h : x &&& a = a) : (x ||| y) &&& a = a := by
  rw [BitVec.and_comm, BitVec.and_or_distrib_left, BitVec.and_comm a x, h]
  ext k hk
  simp only [BitVec.getElem_or, BitVec.getElem_and]
  cases a[k] <;> simp

theorem or_keeps_right {x y a : Events} (h : y &&& a = a) : (x ||| y) &&& a = a := by
  rw [BitVec.or_comm]
  exact or_keeps h

theorem clearAlerts_cases {alertExt : Nat} : Silent w (clearAlerts bistMode alert alertExt w) ∨
    ∃ c, (clearAlerts bistMode alert alertExt w).clears = w.clears ++ [c] ∧
      w.reports <+: (clearAlerts bistMode alert alertExt w).reports ∧ c.cause = .handled bistMode ∧
      c.bits &&& alert = c.bits ∧ (has alert alertRxStatus = false → c.dropped = none) := by
  have hext : Silent w (if alertExt ≠ 0 then (tcpcWrite w).2 else w) := by
    split
    · exact silent_tcpcWrite
    · exact .refl
  rw [clearAlerts]
  generalize (if alertExt ≠ 0 then (tcpcWrite w).2 else w) = u at hext
  split
  · rcases @writeAlert_cases u alert (.handled bistMode) with
      hsilent | ⟨c, hclears, hreports, hcause, hbits, hdropped⟩
    · exact .inl (hext.trans hsilent)
    · refine .inr ⟨c, hext.clears ▸ hclears, hreports ▸ hext.reports, hcause, hbits, fun hnone => ?_⟩
      rw [hdropped, hnone]
      rfl
  · exact .inl hext

theorem handleAlerts_dealt (h : Underway cfg w) {alertExt : Nat} {first last : Word}
    (hlast : has last alertRxStatus = false ∨ bistMode = true)
    (htransmit : has first alertTxComplete = true → .transmitComplete (txStatus first) ∈ w.reports) :
    ∀ c ∈ (handleAlerts cfg bistMode last alertExt w).clears,
      Dealt cfg first (handleAlerts cfg bistMode last alertExt w).reports c := by
  have hclear := @clearAlerts_cases w bistMode last alertExt
  rw [handleAlerts]
  generalize clearAlerts bistMode last alertExt w = u at hclear
  obtain ⟨hcc, hccEvent⟩ := @checkCc_spec cfg u last
  dsimp only
  generalize checkCc cfg last u = r at hcc hccEvent
  obtain ⟨cc, v⟩ := r
  have hvbus : Silent v (tcpciCheckVbusChanged cfg last v).2 := silent_tcpciCheckVbusChanged
  dsimp only at hcc hccEvent ⊢
  generalize tcpciCheckVbusChanged cfg last v = r at hvbus
  obtain ⟨vbus, x⟩ := r
  obtain ⟨hreset, hresetEvent⟩ := @checkHardReset_spec cfg x last
  dsimp only at hvbus ⊢
  generalize checkHardReset cfg last x = r at hreset hresetEvent
  obtain ⟨hardReset, y⟩ := r
  have hfrs : Silent y (if (cfg.frsControl && bit alertExt 0) = true then y.report .frsSignal else y) := by
    split
    · exact silent_report
    · exact .refl
  dsimp only at hreset hresetEvent ⊢
  generalize (if (cfg.frsControl && bit alertExt 0) = true then y.report .frsSignal else y) = y' at hfrs
  have hmask : Silent y' (checkReset bistMode y').2 := silent_checkReset
  generalize checkReset bistMode y' = r at hmask
  obtain ⟨reset, z⟩ := r
  dsimp only at hmask ⊢
  have hbefore : Silent v z := ((hvbus.trans hreset).trans hfrs).trans hmask
  have hlater : Silent z (if cc ||| vbus ||| hardReset ||| reset ≠ 0 then
      z.report (.setEvent (cc ||| vbus ||| hardReset ||| reset)) else z) := by
    split
    · exact silent_report
    · exact .refl
  have hset : cc ||| vbus ||| hardReset ||| reset ≠ 0 → Report.setEvent (cc ||| vbus ||| hardReset ||| reset) ∈
      (if cc ||| vbus ||| hardReset ||| reset ≠ 0 then
        z.report (.setEvent (cc ||| vbus ||| hardReset ||| reset)) else z).reports := by
    intro hsome
    rw [if_pos hsome]
    simp [World.report]
  generalize (if cc ||| vbus ||| hardReset ||| reset ≠ 0 then
    z.report (.setEvent (cc ||| vbus ||| hardReset ||| reset)) else z) = end' at hlater hset
  have hafter : Silent u end' := (hcc.trans hbefore).trans hlater
  -- an event that is asked for is set, with the others
  have hevent : ∀ a : Events, a ≠ 0 → (cc ||| vbus ||| hardReset ||| reset) &&& a = a →
      ∃ events, .setEvent events ∈ end'.reports ∧ events &&& a = a := by
    intro a ha hkeeps
    refine ⟨_, hset fun hzero => ha ?_, hkeeps⟩
    rw [hzero] at hkeeps
    exact hkeeps.symm.trans BitVec.zero_and
  rcases hclear with hsilent | ⟨c, hclears, hreports, hcause, hbits, hdropped⟩
  · have hend := (h.silent hsilent).silent hafter
    exact hend.dealt fun hset => (hsilent.trans hafter).reports.subset (htransmit hset)
  · have hgrows := hreports.trans hafter.reports
    intro d hd
    rw [hafter.clears, hclears] at hd
    rcases List.mem_append.mp hd with hd | hd
    · have hdealt := h.dealt htransmit d hd
      exact ⟨fun hset => Bool.noConfusion (((h.minor d hd).has (by decide)).symm.trans hset),
        fun hset => Bool.noConfusion (((h.minor d hd).has (by decide)).symm.trans hset),
        fun hset => hgrows.subset (hdealt.transmit hset), hdealt.accounted.mono hgrows⟩
    · obtain rfl := List.mem_singleton.mp hd
      refine ⟨fun hset => ?_, fun hset => ?_, fun hset => ?_, fun m hm => ?_⟩
      · rcases hccEvent (has_of_and hbits hset) with heq | ⟨hauto, hdriven, hopen⟩
        · exact .inl (hevent _ (by decide) (or_keeps (or_keeps (or_keeps (by rw [heq, BitVec.and_self])))))
        · exact .inr ⟨hauto, hdriven, (hbefore.trans hlater).reports.subset hopen⟩
      · have heq := hresetEvent (has_of_and hbits hset)
        exact hevent _ (by decide) (or_keeps (or_keeps_right (by rw [heq, BitVec.and_self])))
      · exact hgrows.subset (htransmit (has_of_and_right hset))
      · rw [hcause]
        rcases hlast with hnone | hbist
        · rw [hdropped hnone] at hm
          cases hm
        · exact hbist

theorem silent_handleAlerts {alertExt : Nat} :
    Silent (clearAlerts bistMode alert alertExt w) (handleAlerts cfg bistMode alert alertExt w) := by
  have hfrs : ∀ u : World, Silent u (if (cfg.frsControl && bit alertExt 0) = true then u.report .frsSignal else u) := by
    intro u
    split
    · exact silent_report
    · exact .refl
  have hset : ∀ (u : World) (events : Events), Silent u (if events ≠ 0 then u.report (.setEvent events) else u) := by
    intro u events
    split
    · exact silent_report
    · exact .refl
  exact checkCc_spec.1.trans (silent_tcpciCheckVbusChanged.trans (checkHardReset_spec.1.trans ((hfrs _).trans
    (silent_checkReset.trans (hset ..)))))

/-! ## When nothing fails -/

theorem Clean.write (h : Clean w) : Clean (writeAlert cause bits w).2 ∧
    (has bits alertRxStatus = false → w.rx <+: (writeAlert cause bits w).2.rx) ∧
      ∃ c, (writeAlert cause bits w).2.clears = w.clears ++ [c] ∧ c.cause = cause := by
  obtain ⟨hok, hnext⟩ := h.next
  have hrx := nextAccess_rx (w := w)
  have hclears := nextAccess_clears (w := w)
  rw [writeAlert]
  generalize nextAccess w = r at hok hnext hrx hclears
  obtain ⟨x, u⟩ := r
  dsimp only at hok hnext hrx hclears ⊢
  rw [if_neg (by simp [hok]), ← hclears]
  split
  · rename_i hbit
    exact ⟨⟨hnext.script, fun m hm => hnext.rx m (List.mem_of_mem_tail hm), has_and hnext.alert⟩,
      fun hnone => Bool.noConfusion (hnone.symm.trans hbit), _, rfl, rfl⟩
  · exact ⟨⟨hnext.script, hnext.rx, has_and hnext.alert⟩, fun _ => hrx, _, rfl, rfl⟩

theorem Clean.rxHead (h : Clean w) {m : Message} (hhead : w.rx.head? = some m) :
    ∃ u, rxRead w = (true, some m, u) ∧ Silent w u ∧ u.rx.head? = some m := by
  obtain ⟨hsilent, hvalue, hfirst⟩ := rxRead_spec hhead
  have hok : (rxRead w).1 = true := by simp [rxRead, h.next.1]
  refine ⟨(rxRead w).2.2, ?_, hsilent, hfirst⟩
  exact Prod.ext hok (Prod.ext hvalue rfl)

theorem Clean.payload (h : Clean w) {header : BitVec 32} {cnt : Nat} {m : Message} (hhead : w.rx.head? = some m) :
    ∃ slot u, Silent w u ∧ readPayload header cnt w = finishRead true .success slot u := by
  rw [readPayload]
  split
  · exact ⟨_, w, .refl, rfl⟩
  · obtain ⟨u, hread, hsilent, -⟩ := h.rxHead hhead
    rw [hread]
    exact ⟨_, u, hsilent, rfl⟩

theorem Clean.rev10 (h : Clean w) {m : Message} (hhead : w.rx.head? = some m) (hwell : m.WellFormed) :
    ∃ slot u, Silent w u ∧ tcpciRev10TcpmGetMessageRaw cfg w = finishRead true .success slot u := by
  obtain ⟨u, hread, hsilent, hfirst⟩ := h.rxHead hhead
  rw [tcpciRev10TcpmGetMessageRaw, hread]
  have hcount : ¬((!true || decide (((some m).getD noMessage).byteCount.toNat < 3) ||
      decide (payloadSize < ((some m).getD noMessage).byteCount.toNat - 3)) = true) := by
    obtain ⟨hlow, hhigh⟩ := hwell
    simp
    omega
  dsimp only
  rw [if_neg hcount]
  have hsop : ∃ frm v, (if cfg.decodeSop = true then rxRead u else (true, none, u)) = (true, frm, v) ∧
      Silent u v ∧ v.rx.head? = some m := by
    split
    · obtain ⟨v, hframe, hv, hvfirst⟩ := (hsilent.clean h).rxHead hfirst
      exact ⟨_, v, hframe, hv, hvfirst⟩
    · exact ⟨none, u, rfl, .refl, hfirst⟩
  obtain ⟨frm, v, hframe, hv, hvfirst⟩ := hsop
  rw [hframe]
  dsimp only
  rw [if_neg (by decide)]
  obtain ⟨x, hheader, hx, hxfirst⟩ := ((hsilent.trans hv).clean h).rxHead hvfirst
  rw [hheader]
  dsimp only
  rw [if_neg (by decide)]
  obtain ⟨slot, y, hy, hpayload⟩ := @Clean.payload _ (((hsilent.trans hv).trans hx).clean h) _ _ _ hxfirst
  exact ⟨slot, y, ((hsilent.trans hv).trans hx).trans hy, hpayload⟩

theorem Clean.rev20 (h : Clean w) {m : Message} (hhead : w.rx.head? = some m) (hwell : m.WellFormed) :
    ∃ slot u, Silent w u ∧ tcpciRev20TcpmGetMessageRaw w = finishRead true .success slot u := by
  obtain ⟨u, hread, hsilent, hfirst⟩ := h.rxHead hhead
  obtain ⟨v, hheader, hv, hvfirst⟩ := (hsilent.clean h).rxHead hfirst
  have hcount : ¬((decide (((some m).getD noMessage).byteCount.toNat < 3) ||
      decide (payloadSize < ((some m).getD noMessage).byteCount.toNat - 3)) = true) := by
    obtain ⟨hlow, hhigh⟩ := hwell
    simp
    omega
  rw [tcpciRev20TcpmGetMessageRaw, hread]
  dsimp only
  rw [if_neg (by decide), hheader]
  dsimp only
  rw [if_neg hcount, if_pos rfl]
  obtain ⟨slot, y, hy, hpayload⟩ := @Clean.payload _ ((hsilent.trans hv).clean h) _ _ _ hvfirst
  exact ⟨slot, y, (hsilent.trans hv).trans hy, hpayload⟩

/-- A message that waits is read into the cache, if there is room. -/
theorem Clean.enqueue (h : Clean w) (hrx : w.rx ≠ []) : (tcpmEnqueueMessage cfg w = (.errorOverflow, w)) ∨
    Clean (tcpmEnqueueMessage cfg w).2 ∧ (tcpmEnqueueMessage cfg w).1 = .success ∧
      ∃ c slot, (tcpmEnqueueMessage cfg w).2.clears = w.clears ++ [c] ∧ c.cause = .read slot := by
  rw [tcpmEnqueueMessage]
  split
  · exact .inl rfl
  · obtain ⟨m, rest, hlist⟩ := List.exists_cons_of_ne_nil hrx
    have hstore : Silent w (w.store blank) := silent_store
    have hhead : (w.store blank).rx.head? = some m := by rw [World.store, hlist]; rfl
    have hwell : m.WellFormed := h.rx m (by simp [hlist])
    have hraw : ∃ slot u, Silent (w.store blank) u ∧
        tcpciTcpmGetMessageRaw cfg (w.store blank) = finishRead true .success slot u := by
      rw [tcpciTcpmGetMessageRaw]
      split
      · exact (hstore.clean h).rev20 hhead hwell
      · exact (hstore.clean h).rev10 hhead hwell
    obtain ⟨slot, u, hu, hraw⟩ := hraw
    have hclean : Clean (u.store slot) := silent_store.clean (hu.clean (hstore.clean h))
    obtain ⟨hafter, -, c, hclears, hcause⟩ := @Clean.write _ alertRxStatus (.read slot) hclean
    rw [hraw, finishRead]
    dsimp only
    rw [if_neg (by decide), if_pos rfl]
    refine .inr ⟨silent_publishMessage.clean hafter, rfl, c, slot, ?_, hcause⟩
    rw [silent_publishMessage.clears, hclears, (silent_store (w := u)).clears, hu.clears, hstore.clears]

/-- The cache was full, or all messages so far were read and RX_STATUS stands for one that waits. -/
def Orderly (w : World) (alert : Word) : Prop :=
  (∃ c ∈ w.clears, c.cause = .full) ∨
    (Clean w ∧ (∀ c ∈ w.clears, c.cause ≠ .unreadable) ∧ (has alert alertRxStatus = true → w.rx ≠ []))

theorem rx_of_alertWord (h : Clean w) (hbit : has w.alertWord alertRxStatus = true) : w.rx ≠ [] := by
  intro hnil
  rw [World.alertWord, hnil] at hbit
  exact Bool.noConfusion (h.alert.symm.trans hbit)

theorem writeAlert_clears : w.clears <+: (writeAlert cause bits w).2.clears := by
  rcases @writeAlert_cases w bits cause with hsilent | ⟨c, hclears, -⟩
  · rw [hsilent.clears]
  · rw [hclears]
    exact List.prefix_append ..

theorem enqueue_clears : w.clears <+: (tcpmEnqueueMessage cfg w).2.clears := by
  rw [tcpmEnqueueMessage]
  split
  · exact List.prefix_refl _
  · have hattempt := (@attempt_getMessageRaw cfg (w.store blank)).after silent_store
    generalize tcpciTcpmGetMessageRaw cfg (w.store blank) = r at hattempt
    have hgrows : w.clears <+: r.2.clears := by
      rcases hattempt with hsilent | ⟨c, hclears, -⟩
      · rw [hsilent.clears]
      · rw [hclears]
        exact List.prefix_append ..
    dsimp only
    split
    · exact hgrows
    · rw [silent_publishMessage.clears]
      exact hgrows

theorem Orderly.pull (h : Orderly w alert) {p : Pulled}
    (hpull : pullMessages cfg bistMode fuel failed alert w = some (p, w')) :
    (∃ c ∈ w'.clears, c.cause = .full) ∨ ∀ c ∈ w'.clears, c.cause ≠ .unreadable := by
  induction fuel generalizing failed alert w with
  | zero => cases hpull
  | succ fuel ih =>
    rw [pullMessages] at hpull
    split at hpull
    · cases hpull
      exact h.imp id fun h => h.2.1
    · rename_i hmore
      have hbit : has alert alertRxStatus = true := by
        cases hb : has alert alertRxStatus
        · exact absurd (by simp [hb]) hmore
        · rfl
      -- a turn of the loop keeps what it needs
      have hnext : ∀ u v rv ok again, tcpmEnqueueMessage cfg w = (rv, u) → tcpmAlertStatus alert u = (ok, again, v) →
          Orderly (if rv = .errorOverflow then (writeAlert .full (alertRxStatus ||| alertRxBufOvf) v).2 else v) again := by
        intro u v rv ok again hu hv
        have hgrows : w.clears <+: u.clears := by
          have hgrows := @enqueue_clears cfg w
          rw [hu] at hgrows
          exact hgrows
        have hstatus : Silent u v := by
          have hsilent := @silent_tcpmAlertStatus u alert
          rw [hv] at hsilent
          exact hsilent
        have hwrite : v.clears <+:
            (if rv = .errorOverflow then (writeAlert .full (alertRxStatus ||| alertRxBufOvf) v).2 else v).clears := by
          split
          · exact writeAlert_clears
          · exact List.prefix_refl _
        rcases h with ⟨c, hc, hfull⟩ | ⟨hclean, hread, hrx⟩
        · exact .inl ⟨c, hwrite.subset (hstatus.clears ▸ hgrows.subset hc), hfull⟩
        · rcases @Clean.enqueue cfg _ hclean (hrx hbit) with hoverflow | ⟨hu', hsuccess, c, slot, hclears, hcause⟩
          · rw [hu] at hoverflow
            cases hoverflow
            have hcleanU := hstatus.clean hclean
            obtain ⟨-, -, c, hclears, hcause⟩ := @Clean.write _ (alertRxStatus ||| alertRxBufOvf) .full hcleanU
            rw [if_pos rfl]
            exact .inl ⟨c, by simp [hclears], hcause⟩
          · rw [hu] at hu' hsuccess hclears
            dsimp only at hu' hsuccess hclears
            subst hsuccess
            rw [if_neg (by decide)]
            refine .inr ⟨hstatus.clean hu', fun d hd => ?_, fun hagain => ?_⟩
            · rw [hstatus.clears, hclears] at hd
              rcases List.mem_append.mp hd with hd | hd
              · exact hread d hd
              · rw [List.mem_singleton.mp hd, hcause]
                exact fun heq => by cases heq
            · have hvalue : again = v.alertWord := by
                have hok := hu'.next.1
                rw [tcpmAlertStatus] at hv
                generalize nextAccess u = r at hv hok
                obtain ⟨x, z⟩ := r
                dsimp only at hv hok
                rw [if_neg (by simp [hok])] at hv
                cases hv
                rfl
              exact rx_of_alertWord (hstatus.clean hu') (hvalue ▸ hagain)
      generalize htake : tcpmEnqueueMessage cfg w = r at hpull
      obtain ⟨rv, u⟩ := r
      dsimp only at hpull
      generalize hstatus : tcpmAlertStatus alert u = r at hpull
      obtain ⟨ok, again, v⟩ := r
      have horderly := hnext u v rv ok again htake hstatus
      dsimp only at hpull
      generalize (if rv = .errorOverflow then (writeAlert .full (alertRxStatus ||| alertRxBufOvf) v).2 else v) = x
        at hpull horderly
      generalize (if ok = true then if rv ≠ .success then failed + 1 else failed
        else (if rv ≠ .success then failed + 1 else failed) + 1) = attempts at hpull
      split at hpull
      · cases hpull
        rw [(silent_report (w := x)).clears]
        exact horderly.imp id fun h => h.2.1
      · exact ih horderly hpull

/-! ## From the start -/

def readAlertExt (alert : Word) (w : World) : Nat × World :=
  if has alert alertExtBit then
    let (ok, value, w) := tcpcRead w
    (if ok then value else 0, w)
  else (0, w)

/-- What the handler does with the first word before it pulls the messages. -/
def upToLoop (cfg : Config) (alert : Word) (w : World) : Bool × World :=
  tcpcGetBistTestMode cfg (pdTransmitComplete alert (clearPendingFaults cfg alert (readAlertExt alert w).2))

theorem tcpciTcpcAlert_eq {ok : Bool} {first : Word} {u : World} (hread : tcpmAlertStatus 0 w = (ok, first, u)) :
    tcpciTcpcAlert cfg fuel w =
      if !ok then some u
      else match pullMessages cfg (upToLoop cfg first u).1 fuel 0 first (upToLoop cfg first u).2 with
        | none => none
        | some (.suspended, v) => some v
        | some (.finished last, v) =>
          some (handleAlerts cfg (upToLoop cfg first u).1 last (readAlertExt first u).1 v) := by
  rw [tcpciTcpcAlert, hread]
  rfl

structure Prepared (cfg : Config) (first : Word) (u w : World) : Prop where
  underway : Underway cfg u → Underway cfg w
  transmit : has first alertTxComplete = true → .transmitComplete (txStatus first) ∈ w.reports
  orderly : Clean u → (∀ c ∈ u.clears, c.cause ≠ .unreadable) → (has first alertRxStatus = true → u.rx ≠ []) →
    Orderly w first
  remaining : remaining w ≤ remaining u

theorem ne_nil_of_prefix {l k : List Message} (h : l <+: k) (hl : l ≠ []) : k ≠ [] := by
  rintro rfl
  exact hl (List.prefix_nil.mp h)

theorem silent_readAlertExt : Silent w (readAlertExt alert w).2 := by
  rw [readAlertExt]
  split
  · exact silent_tcpcRead
  · exact .refl

theorem prepared_upToLoop {first : Word} : Prepared cfg first w (upToLoop cfg first w).2 := by
  obtain ⟨u, hu, hfaults⟩ := @clearPendingFaults_cases cfg ((readAlertExt first w).2) first
  have hext : Silent w (readAlertExt first w).2 := silent_readAlertExt
  rw [upToLoop]
  generalize (readAlertExt first w).2 = x at hu hfaults hext
  have hbefore : Silent w u := hext.trans hu
  have hcomplete : Silent (clearPendingFaults cfg first x) (pdTransmitComplete first (clearPendingFaults cfg first x)) :=
    silent_pdTransmitComplete
  have hbist := hcomplete.trans (@silent_tcpcGetBistTestMode cfg _)
  refine ⟨fun h => ((h.silent hext).clearPendingFaults).silent hbist, fun hset => ?_, fun hclean hread hrx => .inr ?_, ?_⟩
  · refine (@silent_tcpcGetBistTestMode cfg _).reports.subset ?_
    rw [pdTransmitComplete, if_pos hset]
    simp [World.report]
  · have hcleanU := hbefore.clean hclean
    rcases hfaults with heq | heq
    · rw [heq] at hbist ⊢
      refine ⟨hbist.clean hcleanU, fun c hc => ?_, fun hset => ?_⟩
      · rw [hbist.clears, hbefore.clears] at hc
        exact hread c hc
      · exact ne_nil_of_prefix (hbefore.trans hbist).rx (hrx hset)
    · obtain ⟨hafter, hkeeps, c, hclears, hcause⟩ := @Clean.write _ alertFault .fault hcleanU
      rw [heq] at hbist ⊢
      refine ⟨hbist.clean hafter, fun d hd => ?_, fun hset => ?_⟩
      · rw [hbist.clears, hclears, hbefore.clears] at hd
        rcases List.mem_append.mp hd with hd | hd
        · exact hread d hd
        · rw [List.mem_singleton.mp hd, hcause]
          exact fun heq => by cases heq
      · exact ne_nil_of_prefix ((hbefore.rx.trans (hkeeps (by decide))).trans hbist.rx) (hrx hset)
  · refine hbist.remaining.trans ?_
    rcases hfaults with heq | heq
    · rw [heq]
      exact hbefore.remaining
    · rw [heq]
      exact remaining_writeAlert.trans hbefore.remaining

/-- The handler has not written or reported anything yet. -/
structure Begun (w : World) : Prop where
  clears : w.clears = []
  reports : w.reports = []

/-- Every alert that the handler clears has been dealt with, and it ends. If nothing fails and
    there is always room in the cache, then every message was read. -/
theorem tcpciTcpcAlert_dealt (cfg : Config) (w : World) (h : Begun w) (fuel : Nat)
    (hfuel : remaining w + maxAllowFailedRxReads < fuel) :
    ∃ w', tcpciTcpcAlert cfg fuel w = some w' ∧
      (∀ c ∈ w'.clears, Dealt cfg (tcpmAlertStatus 0 w).2.1 w'.reports c) ∧
      (Clean w → (∀ c ∈ w'.clears, c.cause ≠ .full) → ∀ c ∈ w'.clears, c.cause ≠ .unreadable) := by
  have hstart : Underway cfg w := ⟨by simp [h.clears], by simp [h.clears]⟩
  have hstatus : Silent w (tcpmAlertStatus 0 w).2.2 := silent_tcpmAlertStatus
  have hfirst : Clean w → (tcpmAlertStatus 0 w).2.1 = (tcpmAlertStatus 0 w).2.2.alertWord := by
    intro hclean
    rw [tcpmAlertStatus]
    dsimp only
    rw [if_neg (by simp [hclean.next.1])]
  generalize hread : tcpmAlertStatus 0 w = r at hstatus hfirst
  obtain ⟨ok, first, u⟩ := r
  dsimp only at hstatus hfirst ⊢
  have hnone : u.clears = [] := hstatus.clears.trans h.clears
  rw [tcpciTcpcAlert_eq hread]
  cases ok with
  | false => exact ⟨u, rfl, by simp [hnone], by simp [hnone]⟩
  | true =>
    rw [if_neg (by decide)]
    have hloop := @prepared_upToLoop cfg u first
    generalize upToLoop cfg first u = r at hloop
    obtain ⟨bistMode, v⟩ := r
    dsimp only at hloop ⊢
    have horderly : Clean w → Orderly v first := fun hclean =>
      hloop.orderly (hstatus.clean hclean) (by simp [hnone])
        fun hset => rx_of_alertWord (hstatus.clean hclean) (hfirst hclean ▸ hset)
    have hfuelV : remaining v + (maxAllowFailedRxReads - 0) < fuel := by
      have hle := hloop.remaining.trans hstatus.remaining
      omega
    have hends := @pullMessages_ends cfg v bistMode first 0 fuel (by decide) hfuelV
    obtain ⟨⟨p, x⟩, hpull⟩ := Option.isSome_iff_exists.mp hends
    obtain ⟨hend, hgrows, hfinished⟩ := (hloop.underway (hstart.silent hstatus)).pull hpull
    have htransmit : has first alertTxComplete = true → .transmitComplete (txStatus first) ∈ x.reports :=
      fun hset => hgrows.subset (hloop.transmit hset)
    rw [hpull]
    cases p with
    | suspended =>
      refine ⟨x, rfl, hend.dealt htransmit, fun hclean hfull => ?_⟩
      rcases (horderly hclean).pull hpull with ⟨c, hc, hcause⟩ | hread
      · exact absurd hcause (hfull c hc)
      · exact hread
    | finished last =>
      refine ⟨_, rfl, handleAlerts_dealt hend (hfinished last rfl) htransmit, fun hclean hfull => ?_⟩
      have hclears := (@silent_handleAlerts cfg x bistMode last ((readAlertExt first u).1)).clears
      rw [hclears] at hfull ⊢
      rcases @clearAlerts_cases x bistMode last ((readAlertExt first u).1) with hsilent | ⟨c, hlast, -, hcause, -⟩
      · rw [hsilent.clears] at hfull ⊢
        rcases (horderly hclean).pull hpull with ⟨c, hc, hcause⟩ | hread
        · exact absurd hcause (hfull c hc)
        · exact hread
      · rw [hlast] at hfull ⊢
        intro d hd
        rcases List.mem_append.mp hd with hd | hd
        · rcases (horderly hclean).pull hpull with ⟨c', hc, hcause⟩ | hread
          · exact absurd hcause (hfull c' (by simp [hc]))
          · exact hread d hd
        · rw [List.mem_singleton.mp hd, hcause]
          exact fun heq => by cases heq

/-! ### What can happen -/

def plainConfig : Config where
  rev2 := false
  decodeSop := false
  dualRoleAutoToggle := false
  eventDrivenCcState := false
  vsafe0v := false
  vbusDetectTcpc := false
  usbCharger := false
  frsControl := false
  ocpReporting := false
  faultHandler := false
  bistSupport := true
  hardResetReinit := false

def shortMessage : Message := { byteCount := 3, frameType := 0, header := 0x0041, data := [] }

def oneMessage (script : List Interference) : World where
  alert := 0
  rx := [shortMessage]
  cache := { head := 0, tail := 0, buffer := fun _ => blank }
  vbusPresent := false
  vbusSafe0v := true
  script := script
  clears := []
  reports := []

def outcome (w : Option World) : Option (List Clear × List Report) := w.map fun w => (w.clears, w.reports)

/-- The CC lines change before the first read, and a hard reset arrives while the message is read. -/
def hardResetScript : List Interference :=
  [{ quiet with raised := alertCcStatus }, quiet, { quiet with raised := alertRxHardRst }]

theorem tcpciTcpcAlert_dealt_hardReset :
    ∃ w', tcpciTcpcAlert plainConfig 16 (oneMessage hardResetScript) = some w' ∧
      (∀ c ∈ w'.clears, Dealt plainConfig (alertRxStatus ||| alertCcStatus) w'.reports c) ∧
      ∀ c ∈ w'.clears, c.cause ≠ .unreadable := by
  have hclean : Clean (oneMessage hardResetScript) :=
    { script := by simp [oneMessage, hardResetScript, quiet]
      rx := by
        intro m hm
        rw [List.mem_singleton.mp hm]
        exact ⟨by decide, by decide⟩
      alert := by decide }
  obtain ⟨w', hrun, hdealt, hread⟩ :=
    tcpciTcpcAlert_dealt plainConfig (oneMessage hardResetScript) ⟨rfl, rfl⟩ 16 (by decide)
  refine ⟨w', hrun, hdealt, hread hclean ?_⟩
  have hcauses : (tcpciTcpcAlert plainConfig 16 (oneMessage hardResetScript)).map (fun w => w.clears.map (·.cause)) =
      some [.read (shortMessage.cached plainConfig), .handled false] := by decide +kernel
  rw [hrun] at hcauses
  have hlist : w'.clears.map (·.cause) = [.read (shortMessage.cached plainConfig), .handled false] :=
    Option.some.inj hcauses
  intro c hc heq
  have hmem : Cause.full ∈ w'.clears.map (·.cause) := heq ▸ List.mem_map_of_mem hc
  rw [hlist] at hmem
  simp at hmem

/-- In BIST test mode the message is given up unread, and when its byte count cannot be read, too. A transmission
    that completes while the message is read is cleared with the rest, and nobody hears of it. -/
theorem cleared_unseen :
    outcome (tcpciTcpcAlert plainConfig 16 (oneMessage [quiet, { quiet with value := 2 }])) =
        some ([{ cause := .handled true, bits := alertRxStatus, dropped := some shortMessage }], []) ∧
      outcome (tcpciTcpcAlert plainConfig 16 (oneMessage [quiet, quiet, { quiet with fails := true }])) =
        some ([{ cause := .unreadable, bits := alertRxStatus, dropped := some shortMessage }], []) ∧
      outcome (tcpciTcpcAlert plainConfig 16 (oneMessage [quiet, quiet, { quiet with raised := alertTxSuccess }])) =
        some ([{ cause := .read (shortMessage.cached plainConfig), bits := alertRxStatus, dropped := some shortMessage },
            { cause := .handled false, bits := alertTxSuccess, dropped := none }],
          [.enqueued (shortMessage.cached plainConfig), .setEvent taskEventWake]) := by
  refine ⟨?_, ?_, ?_⟩ <;> decide +kernel

end ChromeEc.Tcpci
