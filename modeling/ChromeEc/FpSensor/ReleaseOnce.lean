import ChromeEc.FpSensor.Events

/- The right to release the secret of a match, or to sign it.

  A match or an enrolment arms the right for its finger for 5 s. Two host commands use it
  up: both take the state before they check anything, so a failed attempt uses it up too.

  What is proved: in every run a successful EC_CMD_FP_READ_MATCH_SECRET or
  EC_CMD_FP_SIGN_MATCH has such a match or enrolment before it, with no other attempt, no
  other match and no reset of the context in between (`released_once`), so between two
  releases there is always another match or enrolment. The finger of a read is the one that
  the handler takes from the low byte of the parameter. -/
namespace ChromeEc.FpSensor

variable {cfg : Config} {s s' : State} {i : Label} {l : List (State × Label)} {fgr now : Nat}

/-- A successful match of a finger, or an enrolment into its slot. -/
def Arms (cfg : Config) (x : State × Label) (fgr now : Nat) : Prop :=
  (∃ templates, event cfg x.2 x.1 = .matched templates (some fgr) now) ∨
    (∃ templ, event cfg x.2 x.1 = .enrolled templ now) ∧ fgr = x.1.templValid

/-- An attempt to read the secret, an attempt to sign in a session, an attempt to match, or a reset. -/
def Disturbs (cfg : Config) (x : State × Label) : Prop :=
  match event cfg x.2 x.1 with
  | .disarmed | .matched .. | .reset _ => True
  | _ => False

/-- The run ends with the right armed for a finger at most 5 s before `now`. -/
def ArmedBefore (cfg : Config) (l : List (State × Label)) (fgr now : Nat) : Prop :=
  ∃ before x after armedAt, l = before ++ x :: after ∧ Arms cfg x fgr armedAt ∧ now < armedAt + 5 * second ∧
    ∀ y ∈ after, ¬Disturbs cfg y

/-- A step that releases a secret or a signature. -/
def Releases (cfg : Config) (x : State × Label) : Prop :=
  (exec cfg x.2 x.1).2.rv = .success ∧
    match x.2 with
    | .readMatchSecret .. | .signMatch .. => True
    | _ => False

/-! ## What is armed -/

/-- The state of the right says which step armed it. -/
def Accounted (cfg : Config) (l : List (State × Label)) (v : Slots) : Prop :=
  v.secret.readable = true → ∃ before x after armedAt, l = before ++ x :: after ∧
    Arms cfg x v.secret.templateMatched armedAt ∧ v.secret.deadline = armedAt + 5 * second ∧ ∀ y ∈ after, ¬Disturbs cfg y

theorem Accounted.snoc {v : Slots} (h : Accounted cfg l (slots s)) (hsecret : v.secret = (slots s).secret)
    (hdisturbs : ¬Disturbs cfg (s, i)) : Accounted cfg (l ++ [(s, i)]) v := by
  intro hreadable
  rw [hsecret] at hreadable ⊢
  obtain ⟨before, x, after, armedAt, rfl, harms, hdeadline, hafter⟩ := h hreadable
  refine ⟨before, x, after ++ [(s, i)], armedAt, by simp, harms, hdeadline, fun y hy => ?_⟩
  rcases List.mem_append.mp hy with hy | hy
  · exact hafter y hy
  · exact List.mem_singleton.mp hy ▸ hdisturbs

theorem Accounted.last {v : Slots} (hsecret : v.secret = armed fgr now) (harms : Arms cfg (s, i) fgr now) :
    Accounted cfg (l ++ [(s, i)]) v :=
  fun _ => ⟨l, (s, i), [], now, rfl, hsecret ▸ harms, hsecret ▸ rfl, fun _ hy => absurd hy List.not_mem_nil⟩

theorem Accounted.disarmed {v : Slots} (hsecret : v.secret = noMatch) : Accounted cfg l v := by
  intro hreadable
  rw [hsecret] at hreadable
  cases hreadable

theorem Accounted.next (h : Accounted cfg l (slots s)) :
    Accounted cfg (l ++ [(s, i)]) ((slots s).next (event cfg i s)) := by
  cases hevent : event cfg i s with
  | disarmed => exact .disarmed rfl
  | reset count => exact .disarmed rfl
  | enrolled templ now =>
    cases hreadable : (slots s).secret.readable
    · have hsecret : ((slots s).next (.enrolled templ now)).secret = armed s.templValid now := by
        rw [Slots.next, hreadable]
        rfl
      exact .last hsecret (.inr ⟨⟨templ, hevent⟩, rfl⟩)
    · refine .disarmed ?_
      rw [Slots.next, hreadable]
      rfl
  | matched templates fgr now =>
    cases fgr with
    | none => exact .disarmed rfl
    | some fgr => exact .last rfl (.inl ⟨templates, hevent⟩)
  | _ =>
    refine h.snoc rfl ?_
    rw [Disturbs, hevent]
    exact id

theorem accounted (h : Run cfg l s) : Accounted cfg l (slots s) := by
  induction h with
  | start => exact .disarmed rfl
  | step run hstep ih => exact slots_step hstep ▸ ih.next

/-! ## What is released -/

theorem Accounted.armedBefore (h : Accounted cfg l (slots s)) (hreadable : s.positiveMatchSecretState.readable = true)
    (hnow : now < s.positiveMatchSecretState.deadline) :
    ArmedBefore cfg l s.positiveMatchSecretState.templateMatched now := by
  obtain ⟨before, x, after, armedAt, hl, harms, hdeadline, hafter⟩ := h hreadable
  have hlate : s.positiveMatchSecretState.deadline = armedAt + 5 * second := hdeadline
  exact ⟨before, x, after, armedAt, hl, harms, hlate ▸ hnow, hafter⟩

theorem Releases.disarmed (h : Releases cfg (s, i)) : event cfg i s = .disarmed := by
  obtain ⟨hsuccess, hlabel⟩ := h
  cases i with
  | readMatchSecret fgr derived now => rfl
  | signMatch peerChallenge now => exact if_pos (fpCommandSignMatch_success hsuccess).1
  | _ => exact hlabel.elim

theorem Releases.armed (hrun : Run cfg l s) (h : Releases cfg (s, i)) : ∃ fgr now, ArmedBefore cfg l fgr now := by
  obtain ⟨hsuccess, hlabel⟩ := h
  cases i with
  | readMatchSecret fgr derived now =>
    obtain ⟨-, hreadable, hnow⟩ := fpReadMatchSecret_success hsuccess
    exact ⟨_, now, (accounted hrun).armedBefore hreadable hnow⟩
  | signMatch peerChallenge now =>
    obtain ⟨-, hreadable, hnow⟩ := fpCommandSignMatch_success hsuccess
    exact ⟨_, now, (accounted hrun).armedBefore hreadable hnow⟩
  | _ => exact hlabel.elim

/-- If the right is armed at the end and was used up by `x`, then it was armed after `x`. -/
theorem ArmedBefore.after {before after : List (State × Label)} {x : State × Label}
    (h : ArmedBefore cfg (before ++ x :: after) fgr now) (hdisarmed : event cfg x.2 x.1 = .disarmed) :
    ∃ y ∈ after, ∃ armedAt, Arms cfg y fgr armedAt := by
  have hdisturbs : Disturbs cfg x := by
    rw [Disturbs, hdisarmed]
    exact trivial
  obtain ⟨front, y, back, armedAt, hsplit, harms, -, hback⟩ := h
  have hne : x ≠ y := by
    rintro rfl
    rcases harms with ⟨templates, hevent⟩ | ⟨⟨templ, hevent⟩, -⟩
    · exact Event.noConfusion (hdisarmed.symm.trans hevent)
    · exact Event.noConfusion (hdisarmed.symm.trans hevent)
  rcases List.append_eq_append_iff.mp hsplit with ⟨mid, -, hmid⟩ | ⟨mid, -, hmid⟩
  · cases mid with
    | nil => exact absurd (List.cons.inj hmid).1 hne
    | cons z mid =>
      cases hmid
      exact ⟨y, by simp, armedAt, harms⟩
  · cases mid with
    | nil => exact absurd (List.cons.inj hmid).1.symm hne
    | cons z mid =>
      cases hmid
      exact absurd hdisturbs (hback x (by simp))

/-- A release is preceded by a match of the finger or an enrolment into its slot, less than
    5 s earlier and with nothing in between that uses the right up; between two releases the
    right is armed again. -/
theorem released_once (h : Run cfg l s) :
    (∀ number derived now fgr, (exec cfg (.readMatchSecret number derived now) s).2.rv = .success →
      fingerNumber number = some fgr → ArmedBefore cfg l fgr now) ∧
    (∀ peerChallenge now, (exec cfg (.signMatch peerChallenge now) s).2.rv = .success →
      ∃ fgr, ArmedBefore cfg l fgr now) ∧
    ∀ before x between y after, l = before ++ x :: between ++ y :: after → Releases cfg x → Releases cfg y →
      ∃ z ∈ between, ∃ fgr armedAt, Arms cfg z fgr armedAt := by
  refine ⟨fun number derived now fgr hsuccess hnumber => ?_, fun peerChallenge now hsuccess => ?_, ?_⟩
  · obtain ⟨hmatched, hreadable, hnow⟩ := fpReadMatchSecret_success hsuccess
    have hfgr : fgr = s.positiveMatchSecretState.templateMatched := Option.some.inj (hnumber.symm.trans hmatched)
    exact hfgr ▸ (accounted h).armedBefore hreadable hnow
  · obtain ⟨-, hreadable, hnow⟩ := fpCommandSignMatch_success hsuccess
    exact ⟨_, (accounted h).armedBefore hreadable hnow⟩
  · rintro before x between ⟨t, j⟩ after rfl hx hy
    obtain ⟨fgr, now, harmed⟩ := hy.armed h.cut
    obtain ⟨z, hz, armedAt, harms⟩ := harmed.after hx.disarmed
    exact ⟨z, hz, fgr, armedAt, harms⟩

/-- A finger is enrolled, and its template is read so that it gets a salt. -/
def enrolAndRead : List Label :=
  [.tpmSeed 4 (digest 1), .mode (fpModeEnrollSession ||| fpModeEnrollImage) none 0, .updateConfig false fun _ => 0,
    .sensorEvent .present lastImage 0, firstChunk (.done counting) 0]

theorem released_once_enrolAndRead : ∃ l s, Run emulator l s ∧
    (exec emulator (.readMatchSecret 0 (some (digest 1)) 1) s).2.rv = .success ∧ ArmedBefore emulator l 0 1 := by
  have hrun : (Lib.Steps.trace (step emulator) enrolAndRead ([], boot)).any fun q =>
      decide ((exec emulator (.readMatchSecret 0 (some (digest 1)) 1) q.2).2.rv = .success) := by decide +kernel
  obtain ⟨l, s, run, -, hdone⟩ := Lib.Steps.exists_run hrun
  have hsuccess := hdone
  exact ⟨l, s, run, hsuccess, (released_once run).1 0 (some (digest 1)) 1 0 hsuccess rfl⟩

end ChromeEc.FpSensor
