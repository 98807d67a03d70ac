import ChromeEc.FpSensor.IndexSafety

/- Where the valid templates of a session come from.

  In a session a new template waits in the slot at templ_valid until the host confirms it,
  and only its index is remembered. Uploads use the same slot: fp_commit_template clears it
  before it decrypts, also if it then fails.

  What is proved: with an observer that keeps what was decrypted or enrolled into each slot,
  every valid template of a session was decrypted, or enrolled and then confirmed without a
  change, in every run in which the slot is not written between an enrolment and its
  confirmation, a session starts with decrypted templates only, and an enrolment ends with
  a free slot (`templates_confirmed`). `erased_then_confirmed` is a run in which an upload
  clears the slot. -/
namespace ChromeEc.FpSensor

variable {cfg : Config} {s : State} {i : Label} {l : List (State × Label)}

/-! ## What was put into a slot -/

inductive Origin where
  | unknown
  | committed
  | enrolled
  | confirmed
  deriving DecidableEq

structure Origins where
  origin : Nat → Origin
  templ : Nat → Buffer
  /-- The slot at templ_valid was written since the last enrolment. -/
  touched : Bool

def noOrigins : Origins := { origin := fun _ => .unknown, templ := fun _ _ => 0, touched := false }

/-- The matcher updates the templates that it is handed. -/
def recordOrigin (cfg : Config) (o : Origins) (x : State × Label) : Origins :=
  match event cfg x.2 x.1 with
  | .erased | .enrollFailed _ => { o with touched := true }
  | .committed templ =>
    { o with
      origin := Function.update o.origin x.1.templValid .committed
      templ := Function.update o.templ x.1.templValid templ }
  | .enrolled templ _ =>
    { origin := Function.update o.origin x.1.templValid .enrolled
      templ := Function.update o.templ x.1.templValid templ
      touched := false }
  | .confirmed => { o with origin := Function.update o.origin x.1.templValid .confirmed }
  | .matched templates _ _ => { o with templ := fun i => if i < x.1.templValid then templates i else o.templ i }
  | _ => o

/-- The template at `idx` is the one that was decrypted, or the one that was enrolled and confirmed. -/
def Trusted (s : State) (o : Origins) (idx : Nat) : Prop :=
  (o.origin idx = .committed ∨ o.origin idx = .confirmed) ∧ s.fpTemplate idx = o.templ idx

/-- No slot is written between an enrolment and its confirmation, and a session starts with
    templates that were decrypted. -/
def Untouched (cfg : Config) (o : Origins) (x : State × Label) : Prop :=
  match event cfg x.2 x.1 with
  | .enrolled .. | .enrollFailed _ => x.1.templValid < cfg.maxFingerCount
  | .confirmed => o.touched = false
  | .established => fingerprintAuthEnabled x.1 = true ∨ ∀ idx < x.1.templValid, o.origin idx = .committed
  | _ => True

instance (o : Origins) (x : State × Label) : Decidable (Untouched cfg o x) := by
  unfold Untouched
  generalize event cfg x.2 x.1 = ev
  rcases ev <;> infer_instance

/-- Valid templates and what the matcher is handed are trusted. -/
structure Confirmed (cfg : Config) (s : State) (o : Origins) : Prop where
  valid : ∀ idx < s.templValid, Trusted s o idx
  matched : ∀ i templates fgr now, event cfg i s = .matched templates fgr now →
    ∃ handed, (exec cfg i s).1.accessed = handed ++ s.accessed ∧ ∀ idx ∈ handed, Trusted s o idx

/-! ## Steps -/

structure Sound (cfg : Config) (v : Slots) (o : Origins) : Prop where
  count : v.templValid ≤ cfg.maxFingerCount
  newly : v.templateNewlyEnrolled = fpNoSuchTemplate ∨
    v.templateNewlyEnrolled ≤ v.templValid ∧ v.templateNewlyEnrolled < cfg.maxFingerCount
  templ : ∀ idx < v.templValid, v.fpTemplate idx = o.templ idx
  session : v.session = true → ∀ idx < v.templValid, o.origin idx = .committed ∨ o.origin idx = .confirmed
  waiting : v.templateNewlyEnrolled = v.templValid → o.touched = false →
    o.origin v.templValid = .enrolled ∧ v.fpTemplate v.templValid = o.templ v.templValid

variable {v : Slots} {o : Origins} {n : Nat}

theorem update_below {α : Type} {f g : Nat → α} {a b : α} (h : ∀ idx < n, f idx = g idx) (hab : a = b) :
    ∀ idx < n + 1, Function.update f n a idx = Function.update g n b idx := by
  intro idx hidx
  rcases Nat.lt_or_eq_of_le (Nat.le_of_lt_succ hidx) with hlt | rfl
  · rw [Function.update_of_ne (Nat.ne_of_lt hlt), Function.update_of_ne (Nat.ne_of_lt hlt), h idx hlt]
  · rw [Function.update_self, Function.update_self, hab]

theorem origin_below {origin : Nat → Origin} {new : Origin} (hnew : new = .committed ∨ new = .confirmed)
    (h : ∀ idx < n, origin idx = .committed ∨ origin idx = .confirmed) :
    ∀ idx < n + 1, Function.update origin n new idx = .committed ∨ Function.update origin n new idx = .confirmed := by
  intro idx hidx
  rcases Nat.lt_or_eq_of_le (Nat.le_of_lt_succ hidx) with hlt | rfl
  · rw [Function.update_of_ne (Nat.ne_of_lt hlt)]
    exact h idx hlt
  · rw [Function.update_self]
    exact hnew

/-- The template that waits is not one behind the free slot. -/
theorem newly_ne_succ {newly : Nat} (hroom : n < cfg.maxFingerCount)
    (h : newly = fpNoSuchTemplate ∨ newly ≤ n ∧ newly < cfg.maxFingerCount) : newly ≠ n + 1 := by
  rcases h with rfl | hle
  · exact (ne_noSuchTemplate hroom).symm
  · omega

theorem Sound.next (h : Sound cfg (slots s) o) (hok : Untouched cfg o (s, i)) :
    Sound cfg ((slots s).next (event cfg i s)) (recordOrigin cfg o (s, i)) := by
  have hguard := @guard_event cfg s i
  obtain ⟨hcount, hnewly, htempl, hsession, hwaiting⟩ := h
  rw [Untouched] at hok
  rw [recordOrigin]
  generalize event cfg i s = e at hguard hok
  cases e with
  | quiet => exact ⟨hcount, hnewly, htempl, hsession, hwaiting⟩
  | userSet userId => exact ⟨hcount, hnewly, htempl, hsession, hwaiting⟩
  | disarmed => exact ⟨hcount, hnewly, htempl, hsession, hwaiting⟩
  | reset count =>
    exact ⟨Nat.zero_le _, .inl rfl, fun _ h => absurd h (Nat.not_lt_zero _), fun _ _ h => absurd h (Nat.not_lt_zero _),
      fun h => by cases h⟩
  | established =>
    refine ⟨hcount, hnewly, htempl, fun _ => ?_, hwaiting⟩
    rcases hok with hbefore | hcommitted
    · exact hsession hbefore
    · exact fun idx hidx => .inl (hcommitted idx hidx)
  | exported fgr =>
    by_cases hfgr : fgr = (slots s).templateNewlyEnrolled
    · refine ⟨hcount, .inl (if_pos hfgr), htempl, hsession, fun h => ?_⟩
      have hnone : fpNoSuchTemplate = (slots s).templValid := (if_pos hfgr).symm.trans h
      exact absurd hnone.symm (ne_noSuchTemplate hcount)
    · have hsame : ((slots s).next (.exported fgr)) = slots s := by
        simp only [Slots.next, if_neg hfgr]
      rw [hsame]
      exact ⟨hcount, hnewly, htempl, hsession, hwaiting⟩
  | erased =>
    refine ⟨hcount, hnewly, fun idx hidx => ?_, hsession, fun _ h => by cases h⟩
    exact (Function.update_of_ne (Nat.ne_of_lt hidx) ..).trans (htempl idx hidx)
  | enrollFailed left =>
    refine ⟨hcount, hnewly, fun idx hidx => ?_, hsession, fun _ h => by cases h⟩
    exact (Function.update_of_ne (Nat.ne_of_lt hidx) ..).trans (htempl idx hidx)
  | committed templ =>
    -- the new template is behind the one that may wait
    have hroom : s.templValid < cfg.maxFingerCount := hguard
    have hinc : increment (slots s).templValid = s.templValid + 1 := increment_of_lt hroom
    simp only [Slots.next, hinc]
    refine ⟨hroom, hnewly.imp id fun h => ⟨Nat.le_succ_of_le h.1, h.2⟩, update_below htempl rfl,
      fun h => origin_below (.inl rfl) (hsession h), fun h => absurd h (newly_ne_succ hroom hnewly)⟩
  | confirmed =>
    have hslot : (slots s).templateNewlyEnrolled = s.templValid := hguard
    have hroom : s.templValid < cfg.maxFingerCount := by
      rcases hnewly with hnone | hlt
      · exact absurd (hslot.symm.trans hnone) (ne_noSuchTemplate hcount)
      · exact hslot ▸ hlt.2
    have hinc : increment (slots s).templValid = s.templValid + 1 := increment_of_lt hroom
    obtain ⟨-, hsame⟩ := hwaiting hslot hok
    simp only [Slots.next, hinc]
    refine ⟨hroom, hnewly.imp id fun h => ⟨Nat.le_succ_of_le h.1, h.2⟩, fun idx hidx => ?_,
      fun h => origin_below (.inr rfl) (hsession h), fun h => absurd h (newly_ne_succ hroom hnewly)⟩
    rcases Nat.lt_or_eq_of_le (Nat.le_of_lt_succ hidx) with hlt | rfl
    · exact htempl idx hlt
    · exact hsame
  | enrolled templ now =>
    have hroom : s.templValid < cfg.maxFingerCount := hok
    have hinc : increment (slots s).templValid = s.templValid + 1 := increment_of_lt hroom
    have htemplates := update_below (n := s.templValid) htempl (rfl : templ = templ)
    cases hauth : (slots s).session
    · -- outside a session the template is valid at once
      simp only [Slots.next, hauth, hinc]
      exact ⟨hroom, .inr ⟨Nat.le_succ _, hroom⟩, htemplates, fun h => Bool.noConfusion h,
        fun h => absurd h (Nat.ne_of_lt (Nat.lt_succ_self _))⟩
    · simp only [Slots.next, hauth, if_true]
      refine ⟨hcount, .inr ⟨Nat.le_refl _, hroom⟩, fun idx hidx => htemplates idx (Nat.lt_succ_of_lt hidx),
        fun _ idx hidx => ?_, fun _ _ => ⟨Function.update_self .., htemplates _ (Nat.lt_succ_self _)⟩⟩
      have hne : idx ≠ s.templValid := Nat.ne_of_lt hidx
      have hold : Function.update o.origin s.templValid .enrolled idx = o.origin idx := Function.update_of_ne hne ..
      exact (hsession hauth idx hidx).imp hold.trans hold.trans
  | matched templates fgr now =>
    refine ⟨hcount, hnewly, fun idx hidx => ?_, hsession, fun h htouched => ?_⟩
    · exact (if_pos hidx).trans (if_pos hidx).symm
    · obtain ⟨horigin, hsame⟩ := hwaiting h htouched
      refine ⟨horigin, ?_⟩
      exact (if_neg (Nat.lt_irrefl _)).trans (hsame.trans (if_neg (Nat.lt_irrefl _)).symm)

/-! ## What the matcher is handed -/

variable {now : Nat}

theorem handed_fpProcessMatch {image : FingerImage} :
    (fpProcessMatch cfg image now s).accessed = List.range s.templValid ++ s.accessed := by
  have hmatch : (fpFingerMatch image (fpDisablePositiveMatchSecret s)).accessed = List.range s.templValid ++ s.accessed :=
    rfl
  simp only [fpProcessMatch]
  split
  · rename_i hnone
    have hzero : s.templValid = 0 := hnone
    rw [hzero]
    rfl
  · cases acceptedMatch cfg image with
    | none => exact hmatch
    | some fgr =>
      dsimp only
      rw [markUpdated]
      split <;> exact accessed_fpEnablePositiveMatchSecret.trans hmatch

theorem handed_fpProcessFinger {image : FingerImage} (hacquired : image.acquired = true)
    (henroll : ¬has s.sensorMode fpModeEnrollImage = true) (hmatch : has s.sensorMode fpModeMatch = true) :
    (fpProcessFinger cfg image now s).accessed = List.range s.templValid ++ s.accessed := by
  simp only [fpProcessFinger, hacquired, Bool.not_true, Bool.false_eq_true, if_false]
  rw [if_neg henroll, if_pos hmatch]
  exact handed_fpProcessMatch

theorem handed_exec {templates : Nat → Buffer} {fgr : Option Nat} (h : event cfg i s = .matched templates fgr now) :
    (exec cfg i s).1.accessed = List.range s.templValid ++ s.accessed := by
  cases i with
  | sensorEvent finger image time =>
    rw [event] at h
    split at h
    · rename_i hprocessed
      obtain ⟨hwaits, rfl, hcapture, hacquired⟩ := hprocessed
      have hstep : (exec cfg (.sensorEvent .present image time) s).1 =
          fpProcessFinger cfg image time (detectFinger .present s) := by
        simp only [exec, fpTaskSensorEvent]
        rw [if_pos hwaits, if_pos ⟨trivial, hcapture⟩]
      have hcount : (detectFinger .present s).templValid = s.templValid := congrArg Slots.templValid detectFinger_slots
      split at h
      · rw [enrollEvent] at h
        split at h
        · cases h
        · split at h
          · split at h <;> cases h
          · cases h
      · rename_i henroll
        split at h
        · rename_i hmatch
          rw [hstep, handed_fpProcessFinger hacquired henroll hmatch, hcount, accessed_detectFinger]
        · cases h
    · cases h
  | context action userId time =>
    rw [event] at h
    split at h <;> cases h
  | signMatch peerChallenge time =>
    rw [event] at h
    split at h <;> cases h
  | generateNonce nonce =>
    rw [event] at h
    split at h <;> cases h
  | establishSession peerNonce tpmSeed =>
    rw [event] at h
    split at h <;> cases h
  | frame offset size responseMax time answer =>
    rw [event] at h
    split at h <;> cases h
  | template paramsSize offset size data answer =>
    rw [event] at h
    split at h
    · cases hdecrypted : decrypted cfg answer (s.putPublic offset.toNat (size.toNat % 2 ^ 31) data) <;>
        (rw [hdecrypted] at h; cases h)
    · cases h
  | confirmTemplate mac time =>
    rw [event] at h
    split at h <;> cases h
  | updateConfig beginFails image =>
    rw [event] at h
    split at h <;> cases h
  | _ => cases h

/-! ## Runs -/

theorem sound_boot : Sound cfg (slots boot) noOrigins where
  count := Nat.zero_le _
  newly := .inl rfl
  templ := fun _ h => absurd h (Nat.not_lt_zero _)
  session := fun h => Bool.noConfusion h
  waiting := fun h => by cases h

/-- The valid templates of a session, and so those that the matcher is handed, were decrypted
    or were confirmed as they were enrolled. -/
theorem templates_confirmed (h : Run cfg l s)
    (hok : Lib.Steps.Always (recordOrigin cfg) (Untouched cfg) noOrigins l) (hsession : fingerprintAuthEnabled s = true) :
    Confirmed cfg s (l.foldl (recordOrigin cfg) noOrigins) := by
  have hsound : Sound cfg (slots s) (l.foldl (recordOrigin cfg) noOrigins) := by
    refine h.observed (R := fun s o => Sound cfg (slots s) o) sound_boot ?_ hok
    intro s i s' o hsound huntouched hstep
    exact slots_step hstep ▸ hsound.next huntouched
  have hvalid : ∀ idx < s.templValid, Trusted s (l.foldl (recordOrigin cfg) noOrigins) idx :=
    fun idx hidx => ⟨hsound.session hsession idx hidx, hsound.templ idx hidx⟩
  refine ⟨hvalid, fun i templates fgr now hmatched => ?_⟩
  exact ⟨_, handed_exec hmatched, fun idx hidx => hvalid idx (List.mem_range.mp hidx)⟩

/-! ## A confirmation -/

/-- A session in which a finger is enrolled and the challenge for its confirmation is made. -/
def sessionEnrolment : List Label :=
  [.generateNonce (zeros 32), .establishSession (zeros 32) (some (digest 1)), .generateChallenge (zeros 32) 0,
    .mode (fpModeEnrollSession ||| fpModeEnrollImage) (some (requestMac operationEnroll)) 0,
    .updateConfig false fun _ => 0, .sensorEvent .present lastImage 0, .generateChallenge (zeros 32) 0]

def confirm : Label := .confirmTemplate (requestMac operationEnrollFinish) 0

theorem templates_confirmed_enrolment : ∃ l s, Run emulator l s ∧ fingerprintAuthEnabled s = true ∧ s.templValid = 1 ∧
    Confirmed emulator s (l.foldl (recordOrigin emulator) noOrigins) := by
  have hrun : (Lib.Steps.trace (step emulator) (sessionEnrolment ++ [confirm]) ([], boot)).any fun q =>
      decide ((fingerprintAuthEnabled q.2 = true ∧ q.2.templValid = 1) ∧
        Lib.Steps.Always (recordOrigin emulator) (Untouched emulator) noOrigins q.1) := by decide +kernel
  obtain ⟨l, s, run, -, ⟨hsession, hcount⟩, hok⟩ := Lib.Steps.exists_run hrun
  exact ⟨l, s, run, hsession, hcount, templates_confirmed run hok hsession⟩

/-- An upload that fails comes between the enrolment and its confirmation. -/
theorem erased_then_confirmed : ∃ l s, Run emulator l s ∧ fingerprintAuthEnabled s = true ∧
    ¬Confirmed emulator s (l.foldl (recordOrigin emulator) noOrigins) := by
  have hrun : (Lib.Steps.trace (step emulator) (sessionEnrolment ++ [commit (.failed counting), confirm]) ([], boot)).any
      fun q => decide (fingerprintAuthEnabled q.2 = true ∧ 0 < q.2.templValid ∧
        q.2.fpTemplate 0 0 ≠ (q.1.foldl (recordOrigin emulator) noOrigins).templ 0 0) := by decide +kernel
  obtain ⟨q, hq, hdone⟩ := (Option.any_eq_true _ _).mp hrun
  obtain ⟨hsession, hcount, hbytes⟩ := of_decide_eq_true hdone
  refine ⟨q.1, q.2, .of_trace .start hq, hsession, fun h => hbytes ?_⟩
  rw [(h.valid 0 hcount).2]

end ChromeEc.FpSensor
