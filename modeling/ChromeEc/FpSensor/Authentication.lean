import Mathlib.Data.FinEnum
import Mathlib.Data.Fintype.Vector
import ChromeEc.FpSensor.Control

/- Modes that need the MAC of a trusted application.

  In a session a mode request that turns on FP_MODE_ENROLL_SESSION or FP_MODE_MATCH needs a
  MAC under the session key over the current user and a fresh challenge. Only flags that the
  request turns on are looked at, and only one operation is verified for each request.

  What is proved: a flag that is on in a session was turned on by a request with the MAC of
  its own operation, under the key and the user of now and under a challenge made at most
  5 s before, in every run in which no request turns on both flags with the MAC of one, and
  in which the session key and the user change only while both flags are off; and no
  challenge authorises two requests (`modes_authenticated`). `both_flags_one_mac` is a run in
  which one request turns on both. A request that fails may replace the session key, too:
  `establishSession_keeps_iff` says when a failure leaves everything as it was. -/
namespace ChromeEc.FpSensor

variable {cfg : Config} {s s' : State} {i : Label} {l : List (State × Label)} {flag : BitVec 32} {op : List UInt8}

/-! ## Requests and challenges -/

/-- A challenge that was given to the host in a session. -/
def Generates (x : State × Label) : Prop :=
  match x.2 with
  | .generateChallenge .. => fingerprintAuthEnabled x.1 = true
  | _ => False

def Generated (l : List (State × Label)) (challenge : Bytes 32) (ctime : Nat) : Prop :=
  ∃ x ∈ l, x.2 = .generateChallenge challenge ctime ∧ Generates x

/-- The flag is on since a request whose MAC is valid for the operation now, with a challenge at most 5 s old then. -/
def TurnedOnBy (cfg : Config) (l : List (State × Label)) (s : State) (flag : BitVec 32) (op : List UInt8) : Prop :=
  ∃ before t mode mac now after, l = before ++ (t, .mode mode (some mac) now) :: after ∧
    Accepts cfg mode (some mac) now t ∧ TurnsOn flag mode t ∧
    computeMessageSignature cfg s.sessionKey (context s.userId) senderFingerGuard op t.challenge = some mac ∧
    Generated before t.challenge t.challengeCtime ∧ now ≤ t.challengeCtime + 5 * second ∧
    ∀ y ∈ after, has y.1.sensorMode flag = true

/-- A request that is accepted for its MAC. -/
def Authorised (cfg : Config) (x : State × Label) : Prop :=
  match x.2 with
  | .mode mode mac now => fingerprintAuthEnabled x.1 = true ∧ Accepts cfg mode mac now x.1 ∧
      (TurnsOn fpModeEnrollSession mode x.1 ∨ TurnsOn fpModeMatch mode x.1)
  | .confirmTemplate .. => (exec cfg x.2 x.1).2.rv = .success
  | _ => False

/-! ## The condition -/

/-- One request does not turn on both flags with the MAC of one operation. -/
def OneFlag (cfg : Config) (mode : BitVec 32) (mac : Option (Bytes 32)) (now : Nat) (s : State) : Prop :=
  fingerprintAuthEnabled s = true → validateFpMode cfg mode s = .success → has mode fpModeDontChange = false →
    TurnsOn fpModeEnrollSession mode s → TurnsOn fpModeMatch mode s →
      ∀ given ∈ mac, ValidRequest cfg operationEnroll given now s → ValidRequest cfg operationAuth given now s

/-- While a flag is on, no session is established, and the session key is not replaced by another. -/
def SameKey (cfg : Config) (peerNonce : Bytes 32) (seed : Option (Bytes 32)) (s : State) : Prop :=
  has s.sensorMode fpModesWithAuthentication = true → s.encryptionStatus.sessionNonceSet = true →
    ∀ key ∈ generateSessionKey cfg s.sessionNonce peerNonce s.pairingKey,
      if fingerprintAuthEnabled s then key = s.sessionKey else seed = none

/-- The mode before a step, or what fp_task leaves of it before it resets the context. -/
def keptMode : State × Label → BitVec 32
  | (s, .updateConfig beginFails _) => (updateEnrollSession beginFails s).sensorMode
  | (s, _) => s.sensorMode

/-- In a session the user that requests are signed for does not change while a flag is on. -/
def SameUser (cfg : Config) (x : State × Label) : Prop :=
  fingerprintAuthEnabled x.1 = true → has (keptMode x) fpModesWithAuthentication = true →
    match event cfg x.2 x.1 with
    | .userSet userId => context userId = context x.1.userId
    | .reset _ => context x.1.userId = context (zeros 32)
    | _ => True

def Careful (cfg : Config) (x : State × Label) : Prop :=
  SameUser cfg x ∧
    match x.2 with
    | .mode mode mac now => OneFlag cfg mode mac now x.1
    | .establishSession peerNonce seed => SameKey cfg peerNonce seed x.1
    | _ => True

/-! ## Steps -/

theorem Guarded.any (h : Guarded flag op) {mode : BitVec 32} (hset : has mode flag = true) :
    has mode fpModesWithAuthentication = true := by
  rw [fpModesWithAuthentication, has_or, Bool.or_eq_true]
  cases h with
  | enroll => exact .inl hset
  | finger => exact .inr hset

theorem Generated.mono {x : State × Label} {challenge : Bytes 32} {ctime : Nat} (h : Generated l challenge ctime) :
    Generated (l ++ [x]) challenge ctime := by
  obtain ⟨y, hy, hlabel⟩ := h
  exact ⟨y, List.mem_append_left _ hy, hlabel⟩

theorem TurnedOnBy.snoc (h : TurnedOnBy cfg l s flag op) (hset : has s.sensorMode flag = true)
    (hkey : s'.sessionKey = s.sessionKey) (huser : context s'.userId = context s.userId) :
    TurnedOnBy cfg (l ++ [(s, i)]) s' flag op := by
  obtain ⟨before, t, mode, mac, now, after, rfl, haccepts, hon, hmac, hchallenge, hnow, hafter⟩ := h
  refine ⟨before, t, mode, mac, now, after ++ [(s, i)], by simp, haccepts, hon, ?_, hchallenge, hnow, fun y hy => ?_⟩
  · rw [hkey, huser]
    exact hmac
  · rcases List.mem_append.mp hy with hy | hy
    · exact hafter y hy
    · exact List.mem_singleton.mp hy ▸ hset

/-- The flags that are on after a step were kept by it, or a request turned them on. -/
theorem keptMode_of_relaxed (hrelaxed : Relaxed s (exec cfg i s).1) (hflag : Guarded flag op)
    (hset : has (exec cfg i s).1.sensorMode flag = true) : has (keptMode (s, i)) flag = true := by
  cases i with
  | updateConfig beginFails image =>
    have hsame : (updateEnrollSession beginFails { s with updateConfig := false }).sensorMode =
        (updateEnrollSession beginFails s).sensorMode := by
      simp only [updateEnrollSession]
      split <;> rfl
    rw [keptMode, ← hsame]
    exact relaxed_afterEnrollSession.mode flag op hflag hset
  | _ => exact hrelaxed.mode flag op hflag hset

theorem context_exec (hsession : fingerprintAuthEnabled s = true) (huser : SameUser cfg (s, i))
    (hkept : has (keptMode (s, i)) fpModesWithAuthentication = true) :
    context (exec cfg i s).1.userId = context s.userId := by
  have hslots : (exec cfg i s).1.userId = ((slots s).next (event cfg i s)).userId := congrArg Slots.userId slots_exec
  have hsame := huser hsession hkept
  rw [hslots]
  generalize event cfg i s = e at hsame
  cases e with
  | userSet userId => exact hsame
  | reset count => exact hsame.symm
  | _ => rfl

/-- What is known of the modes and of the challenge after a run. -/
structure Authenticated (cfg : Config) (l : List (State × Label)) (s : State) : Prop where
  challenge : s.encryptionStatus.challengeSet = true → Generated l s.challenge s.challengeCtime
  flags : fingerprintAuthEnabled s = true → ∀ flag op, Guarded flag op → has s.sensorMode flag = true →
    TurnedOnBy cfg l s flag op

/-- A request that is accepted in a session has the MAC of the flag it turns on. -/
theorem Accepts.validRequest {mode : BitVec 32} {mac : Option (Bytes 32)} {now : Nat}
    (haccepts : Accepts cfg mode mac now s) (hsession : fingerprintAuthEnabled s = true)
    (hone : OneFlag cfg mode mac now s) (hflag : Guarded flag op) (hon : TurnsOn flag mode s) :
    ∃ given, mac = some given ∧ ValidRequest cfg op given now s := by
  obtain ⟨henroll, hmatch⟩ := authenticateFpMode_snd hsession haccepts.2.2
  cases hflag with
  | enroll => exact henroll hon
  | finger =>
    by_cases hboth : TurnsOn fpModeEnrollSession mode s
    · obtain ⟨given, hmac, hvalid⟩ := henroll hboth
      exact ⟨given, hmac, hone hsession haccepts.1 haccepts.2.1 hboth hon given hmac hvalid⟩
    · exact hmatch hboth hon

theorem Authenticated.next (h : Authenticated cfg l s) (hok : Careful cfg (s, i)) :
    Authenticated cfg (l ++ [(s, i)]) (exec cfg i s).1 := by
  obtain ⟨hchallenge, hflags⟩ := h
  obtain ⟨huser, hlabel⟩ := hok
  rcases @control_exec cfg s i with ⟨mode, mac, now, rfl, haccepts, t, ht, hstate⟩ |
    ⟨peerNonce, seed, key, rfl, hnonce, hkey, hstate⟩ | ⟨challenge, now, rfl, hsession, hstate⟩ | hrelaxed
  · have hslots : slots (exec cfg (.mode mode mac now) s).1 = slots s := slots_exec
    have huserId : (exec cfg (.mode mode mac now) s).1.userId = s.userId := congrArg Slots.userId hslots
    rw [hstate] at huserId ⊢
    refine ⟨fun hset => ?_, fun hsession flag op hflag hset => ?_⟩
    · have hgenerated := (hchallenge (ht.challengeSet hset)).mono (x := (s, .mode mode mac now))
      rw [← ht.challenge, ← ht.challengeCtime] at hgenerated
      exact hgenerated
    · have hbefore : fingerprintAuthEnabled s = true := ht.session.symm.trans hsession
      cases hold : has s.sensorMode flag
      · -- the request turns the flag on
        obtain ⟨given, rfl, hset', hnow, hmac⟩ := haccepts.validRequest hbefore hlabel hflag ⟨hset, hold⟩
        refine ⟨l, s, mode, given, now, [], rfl, haccepts, ⟨hset, hold⟩, ?_, hchallenge hset', hnow,
          fun y hy => absurd hy List.not_mem_nil⟩
        rw [huserId]
        exact ht.sessionKey ▸ hmac
      · exact (hflags hbefore flag op hflag hold).snoc hold ht.sessionKey (congrArg context huserId)
  · have hmode : (exec cfg (.establishSession peerNonce seed) s).1.sensorMode = s.sensorMode :=
      congrArg Control.sensorMode hstate
    have hsame : context (exec cfg (.establishSession peerNonce seed) s).1.userId = context s.userId := by
      have hslots := @slots_exec cfg s (.establishSession peerNonce seed)
      rw [event] at hslots
      split at hslots <;> exact congrArg (fun v : Slots => context v.userId) hslots
    refine ⟨fun hset => ?_, fun hsession flag op hflag hset => ?_⟩
    · have hgenerated := (hchallenge ((congrArg Control.challengeSet hstate).symm.trans hset)).mono
        (x := (s, .establishSession peerNonce seed))
      have hold : (exec cfg (.establishSession peerNonce seed) s).1.challenge = s.challenge :=
        congrArg Control.challenge hstate
      have htime : (exec cfg (.establishSession peerNonce seed) s).1.challengeCtime = s.challengeCtime :=
        congrArg Control.challengeCtime hstate
      rw [hold, htime]
      exact hgenerated
    · rw [hmode] at hset
      have hkept := hlabel (hflag.any hset) hnonce key hkey
      cases hbefore : fingerprintAuthEnabled s
      · rw [hbefore] at hkept
        have hnone : seed = none := hkept
        have hafter : (exec cfg (.establishSession peerNonce seed) s).1.encryptionStatus.sessionEstablished =
            (fingerprintAuthEnabled s || seed.isSome) := congrArg Control.session hstate
        rw [hbefore, hnone] at hafter
        rw [hnone] at hsession
        exact Bool.noConfusion (hafter.symm.trans hsession)
      · rw [hbefore] at hkept
        have hkeySame : (exec cfg (.establishSession peerNonce seed) s).1.sessionKey = s.sessionKey :=
          (congrArg Control.sessionKey hstate).trans hkept
        exact (hflags hbefore flag op hflag hset).snoc hset hkeySame hsame
  · have hmode : (exec cfg (.generateChallenge challenge now) s).1.sensorMode = s.sensorMode :=
      congrArg Control.sensorMode hstate
    have huserId : (exec cfg (.generateChallenge challenge now) s).1.userId = s.userId :=
      congrArg Slots.userId (@slots_exec cfg s (.generateChallenge challenge now))
    refine ⟨fun _ => ⟨(s, .generateChallenge challenge now), by simp, ?_, hsession⟩, fun _ flag op hflag hset => ?_⟩
    · have hnew : (exec cfg (.generateChallenge challenge now) s).1.challenge = challenge :=
        congrArg Control.challenge hstate
      have htime : (exec cfg (.generateChallenge challenge now) s).1.challengeCtime = now :=
        congrArg Control.challengeCtime hstate
      rw [hnew, htime]
    · rw [hmode] at hset
      exact (hflags hsession flag op hflag hset).snoc hset (congrArg Control.sessionKey hstate) (congrArg context huserId)
  · refine ⟨fun hset => ?_, fun hsession flag op hflag hset => ?_⟩
    · rw [hrelaxed.challenge, hrelaxed.challengeCtime]
      exact (hchallenge (hrelaxed.challengeSet hset)).mono
    · have hbefore : fingerprintAuthEnabled s = true := hrelaxed.session.symm.trans hsession
      have hkept := keptMode_of_relaxed hrelaxed hflag hset
      have hold := hrelaxed.mode flag op hflag hset
      exact (hflags hbefore flag op hflag hold).snoc hold hrelaxed.sessionKey
        (context_exec hbefore huser (hflag.any hkept))

/-! ## No challenge is used twice -/

theorem Accepts.uses {mode : BitVec 32} {mac : Option (Bytes 32)} {now : Nat} (haccepts : Accepts cfg mode mac now s)
    (hsession : fingerprintAuthEnabled s = true)
    (hon : TurnsOn fpModeEnrollSession mode s ∨ TurnsOn fpModeMatch mode s) :
    s.encryptionStatus.challengeSet = true ∧
      (exec cfg (.mode mode mac now) s).1.encryptionStatus.challengeSet = false := by
  obtain ⟨henroll, hmatch⟩ := authenticateFpMode_snd hsession haccepts.2.2
  constructor
  · by_cases hfirst : TurnsOn fpModeEnrollSession mode s
    · obtain ⟨given, -, hvalid⟩ := henroll hfirst
      exact hvalid.1
    · obtain ⟨given, -, hvalid⟩ := hmatch hfirst (hon.resolve_left hfirst)
      exact hvalid.1
  · rcases @fpSetSensorMode_cases cfg s now mode mac with
      ⟨-, hstate⟩ | ⟨hrefused, -⟩
    · have hused : (exec cfg (.mode mode mac now) s).1 =
          { (authenticateFpMode cfg mode mac now s).1 with sensorMode := mode, updateConfig := true } := hstate
      rw [hused, authenticateFpMode_used hsession hon haccepts.2.2]
      rfl
    · exact absurd haccepts hrefused

theorem fpCommandConfirmTemplate_success {mac : Bytes 32} {now : Nat}
    (h : (fpCommandConfirmTemplate cfg mac now s).2.rv = .success) :
    s.templateNewlyEnrolled = s.templValid ∧ ValidRequest cfg operationEnrollFinish mac now s ∧
      (fpCommandConfirmTemplate cfg mac now s).1 = { removeChallenge s with templValid := increment s.templValid } := by
  have hstate := @validateRequest_fst cfg s operationEnrollFinish mac now
  have hvalid := @validateRequest_snd cfg s operationEnrollFinish mac now
  rw [fpCommandConfirmTemplate] at h ⊢
  split at h
  · cases h
  · rename_i hnewly
    rw [if_neg hnewly]
    generalize validateRequest cfg operationEnrollFinish mac now s = r at h hstate hvalid
    obtain ⟨t, rv⟩ := r
    subst hstate
    cases rv with
    | success => exact ⟨not_not.mp hnewly, hvalid.mp rfl, rfl⟩
    | _ => cases h

theorem Authorised.uses (h : Authorised cfg (s, i)) :
    s.encryptionStatus.challengeSet = true ∧ (exec cfg i s).1.encryptionStatus.challengeSet = false := by
  cases i with
  | mode mode mac now => exact h.2.1.uses h.1 h.2.2
  | confirmTemplate mac now =>
    obtain ⟨-, hvalid, hstate⟩ := fpCommandConfirmTemplate_success h
    have hafter : (exec cfg (.confirmTemplate mac now) s).1 = _ := hstate
    rw [hafter]
    exact ⟨hvalid.1, rfl⟩
  | _ => exact h.elim

theorem challengeSet_exec (h : (exec cfg i s).1.encryptionStatus.challengeSet = true) :
    s.encryptionStatus.challengeSet = true ∨ Generates (s, i) := by
  rcases @control_exec cfg s i with ⟨mode, mac, now, rfl, -, t, ht, hstate⟩ |
    ⟨peerNonce, seed, key, rfl, -, -, hstate⟩ | ⟨challenge, now, rfl, hsession, -⟩ | hrelaxed
  · rw [hstate] at h
    exact .inl (ht.challengeSet h)
  · exact .inl ((congrArg Control.challengeSet hstate).symm.trans h)
  · exact .inr hsession
  · exact .inl (hrelaxed.challengeSet h)

theorem generated_between (h : Run cfg l s) {before after : List (State × Label)} {x : State × Label}
    (hsplit : l = before ++ x :: after) (hx : Authorised cfg x) (hset : s.encryptionStatus.challengeSet = true) :
    ∃ z ∈ after, Generates z := by
  induction h generalizing after with
  | start => simp at hsplit
  | @step l s s' i run hstep ih =>
    obtain ⟨-, rfl⟩ := step_eq_some hstep
    rcases List.eq_nil_or_concat after with rfl | ⟨front, last, rfl⟩
    · obtain ⟨-, hlast⟩ := List.append_inj' hsplit rfl
      cases hlast
      exact absurd hset (by simp [hx.uses.2])
    · rw [List.concat_eq_append, ← List.cons_append, ← List.append_assoc] at hsplit
      obtain ⟨hl, hlast⟩ := List.append_inj' hsplit rfl
      cases hlast
      rcases challengeSet_exec hset with hbefore | hgenerates
      · obtain ⟨z, hz, hgenerates⟩ := ih hl hbefore
        exact ⟨z, by simp [hz], hgenerates⟩
      · exact ⟨(s, i), by simp, hgenerates⟩

/-- Every flag that is on in a session was turned on by its own operation, and every
    challenge authorises one request. -/
theorem modes_authenticated (h : Run cfg l s) (hok : ∀ x ∈ l, Careful cfg x) :
    (fingerprintAuthEnabled s = true → ∀ flag op, Guarded flag op → has s.sensorMode flag = true →
      TurnedOnBy cfg l s flag op) ∧
    ∀ before x between y after, l = before ++ x :: between ++ y :: after → Authorised cfg x → Authorised cfg y →
      ∃ z ∈ between, Generates z := by
  have hinv : Authenticated cfg l s := by
    induction h with
    | start => exact ⟨fun h => Bool.noConfusion h, fun h => Bool.noConfusion h⟩
    | step run hstep ih =>
      obtain ⟨-, rfl⟩ := step_eq_some hstep
      exact (ih fun x hx => hok x (List.mem_append_left _ hx)).next
        (hok _ (List.mem_append_right _ (List.mem_singleton_self _)))
  refine ⟨hinv.flags, ?_⟩
  rintro before x between ⟨t, j⟩ after rfl hx hy
  exact generated_between h.cut rfl hx hy.uses.1

/-! ## A session -/

instance (flag mode : BitVec 32) : Decidable (TurnsOn flag mode s) := by
  unfold TurnsOn
  infer_instance

instance (mode : BitVec 32) (mac : Option (Bytes 32)) (now : Nat) : Decidable (OneFlag cfg mode mac now s) := by
  unfold OneFlag
  infer_instance

instance (peerNonce : Bytes 32) (seed : Option (Bytes 32)) : Decidable (SameKey cfg peerNonce seed s) := by
  unfold SameKey
  infer_instance

instance (x : State × Label) : Decidable (SameUser cfg x) := by
  unfold SameUser
  split <;> infer_instance

instance (x : State × Label) : Decidable (Careful cfg x) := by
  unfold Careful
  split <;> infer_instance

/-- A session with zero nonces and the challenge for one request. -/
def session : List Label :=
  [.generateNonce (zeros 32), .establishSession (zeros 32) (some (digest 1)), .generateChallenge (zeros 32) 0]

def matchRequest : List Label := session ++ [.mode fpModeMatch (some (requestMac operationAuth)) second]

theorem modes_authenticated_matchRequest : ∃ l s, Run emulator l s ∧ fingerprintAuthEnabled s = true ∧
    has s.sensorMode fpModeMatch = true ∧ TurnedOnBy emulator l s fpModeMatch operationAuth := by
  have hrun : (Lib.Steps.trace (step emulator) matchRequest ([], boot)).any fun q =>
      decide ((fingerprintAuthEnabled q.2 = true ∧ has q.2.sensorMode fpModeMatch = true) ∧
        ∀ x ∈ q.1, Careful emulator x) := by decide +kernel
  obtain ⟨l, s, run, -, ⟨hsession, hmode⟩, hok⟩ := Lib.Steps.exists_run hrun
  exact ⟨l, s, run, hsession, hmode, (modes_authenticated run hok).1 hsession _ _ .finger hmode⟩

/-- The MAC of an enrolment comes with a mode that has both flags. -/
def bothFlags : List Label :=
  session ++ [.mode (fpModeEnrollSession ||| fpModeMatch) (some (requestMac operationEnroll)) second]

theorem both_flags_one_mac : ∃ l s, Run emulator l s ∧ fingerprintAuthEnabled s = true ∧
    has s.sensorMode fpModeMatch = true ∧ ¬TurnedOnBy emulator l s fpModeMatch operationAuth := by
  have hrun : (Lib.Steps.trace (step emulator) bothFlags ([], boot)).any fun q =>
      decide (fingerprintAuthEnabled q.2 = true ∧ has q.2.sensorMode fpModeMatch = true) := by decide +kernel
  have hmacs : (Lib.Steps.trace (step emulator) bothFlags ([], boot)).all fun q =>
      q.1.all fun x =>
        match x.2 with
        | .mode _ mac _ => mac.all fun given =>
          computeMessageSignature emulator q.2.sessionKey (context q.2.userId) senderFingerGuard operationAuth
            x.1.challenge != some given
        | _ => true := by decide +kernel
  obtain ⟨q, hq, hdone⟩ := (Option.any_eq_true _ _).mp hrun
  obtain ⟨hsession, hmode⟩ := of_decide_eq_true hdone
  refine ⟨q.1, q.2, .of_trace .start hq, hsession, hmode, ?_⟩
  rintro ⟨before, t, mode, mac, now, after, hsplit, -, -, hmac, -⟩
  rw [hq, Option.all_some, List.all_eq_true] at hmacs
  have hnever := hmacs (t, .mode mode (some mac) now) (by simp [hsplit])
  exact absurd hmac (bne_iff_ne.mp hnever)

/-! ## A session that is not established -/

/-- A request for a session that fails leaves the session, the seed, the status and the context as they
were. -/
def FailureKeeps (cfg : Config) (peerNonce : Bytes 32) (seed : Option (Bytes 32)) (s : State) : Prop :=
  (exec cfg (.establishSession peerNonce seed) s).2.rv ≠ .success → (exec cfg (.establishSession peerNonce seed) s).1 = s

/-- The request gets to a key that is not the one in use, and the seed does not open under it. -/
def ReplacesKey (cfg : Config) (peerNonce : Bytes 32) (seed : Option (Bytes 32)) (s : State) : Prop :=
  s.encryptionStatus.sessionNonceSet = true ∧ seed = none ∧
    ∃ key, generateSessionKey cfg s.sessionNonce peerNonce s.pairingKey = some key ∧ key ≠ s.sessionKey

theorem ReplacesKey.not_keeps {peerNonce : Bytes 32} {seed : Option (Bytes 32)} (h : ReplacesKey cfg peerNonce seed s) :
    ¬FailureKeeps cfg peerNonce seed s := by
  obtain ⟨hnonce, rfl, key, hkey, hne⟩ := h
  intro hkeeps
  simp only [FailureKeeps, exec, fpCommandEstablishSession, hnonce, hkey] at hkeeps
  have hsame : key = s.sessionKey := congrArg State.sessionKey (hkeeps fun h => by cases h)
  exact hne hsame

theorem FailureKeeps.of_not_replaces {peerNonce : Bytes 32} {seed : Option (Bytes 32)}
    (h : ¬ReplacesKey cfg peerNonce seed s) : FailureKeeps cfg peerNonce seed s := by
  simp only [FailureKeeps, exec, fpCommandEstablishSession]
  cases hnonce : s.encryptionStatus.sessionNonceSet with
  | false => simp
  | true =>
    cases hkey : generateSessionKey cfg s.sessionNonce peerNonce s.pairingKey with
    | none => simp
    | some key =>
      cases seed with
      | some seed => simp
      | none =>
        intro _
        by_cases heq : key = s.sessionKey
        · rw [heq]
          rfl
        · exact absurd ⟨hnonce, rfl, key, hkey, heq⟩ h

theorem establishSession_keeps_iff (cfg : Config) (peerNonce : Bytes 32) (seed : Option (Bytes 32)) (s : State) :
    FailureKeeps cfg peerNonce seed s ↔ ¬ReplacesKey cfg peerNonce seed s :=
  ⟨fun hkeeps hreplaces => hreplaces.not_keeps hkeeps, FailureKeeps.of_not_replaces⟩

def secondNonce : Config :=
  { emulator with
    hmacSha256 := fun key message =>
      if key = zeros 32 ∧ message = List.replicate 32 1 ++ List.replicate 32 0 then
        some (digest 0x0add0903848a486a7e382ce394eb036961ff12b73cc14b64844361a9e98e8d44)
      else zeroHmac key message }

def nonceInSession : List Label := session ++ [.generateNonce ⟨List.replicate 32 1, rfl⟩]

/-- A wrong tag takes the key from a session that is established. -/
theorem sessionKey_replaced : ∃ l s, Run secondNonce l s ∧ fingerprintAuthEnabled s = true ∧
    ¬FailureKeeps secondNonce (zeros 32) none s := by
  have hrun : (Lib.Steps.trace (step secondNonce) nonceInSession ([], boot)).any fun q =>
      decide (fingerprintAuthEnabled q.2 = true ∧ q.2.encryptionStatus.sessionNonceSet = true ∧
        (generateSessionKey secondNonce q.2.sessionNonce (zeros 32) q.2.pairingKey).any (· != q.2.sessionKey)) := by
    decide +kernel
  obtain ⟨l, s, run, -, hsession, hnonce, hkey⟩ := Lib.Steps.exists_run hrun
  obtain ⟨key, hgenerated, hne⟩ := (Option.any_eq_true _ _).mp hkey
  have hreplaces : ReplacesKey secondNonce (zeros 32) none s := ⟨hnonce, rfl, key, hgenerated, bne_iff_ne.mp hne⟩
  exact ⟨l, s, run, hsession, hreplaces.not_keeps⟩

end ChromeEc.FpSensor
