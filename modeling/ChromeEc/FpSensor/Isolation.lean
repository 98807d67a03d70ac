import ChromeEc.FpSensor.IndexSafety

/- Templates and users.

  A new user is set in two commands: FP_CONTEXT_ASYNC asks fp_task to reset the context, and
  FP_CONTEXT_GET_RESULT stores the new user id. The second one checks that no reset is
  pending, not that there was one.

  What is proved: with an observer that keeps for each slot the user who was set when it was
  last enrolled or decrypted, every valid template, every template that is exported or
  matched and every secret that is released belongs to the current user, and
  FP_CONTEXT_USER_ID_SET says whether the user id is zero, in every run in which
  FP_CONTEXT_GET_RESULT changes the user only in a cleared context (`users_isolated`).
  `result_without_reset` is a run without that condition. -/
namespace ChromeEc.FpSensor

variable {cfg : Config} {s : State} {i : Label} {l : List (State × Label)}

/-! ## Whose template a slot holds -/

abbrev Owners := Nat → Option (Bytes 32)

def noOwners : Owners := fun _ => none

/-- The user id at the time the slot at templ_valid is filled. -/
def recordOwner (cfg : Config) (owner : Owners) (x : State × Label) : Owners :=
  match event cfg x.2 x.1 with
  | .committed _ | .enrolled .. => Function.update owner x.1.templValid (some x.1.userId)
  | _ => owner

/-- FP_CONTEXT_GET_RESULT changes the user only when nothing of the user before is left, and
    goes back to the zero user only after a reset. -/
def FreshUser (cfg : Config) (x : State × Label) : Prop :=
  match event cfg x.2 x.1 with
  | .userSet userId =>
    (userId ≠ x.1.userId → x.1.templValid = 0 ∧ x.1.templateNewlyEnrolled = fpNoSuchTemplate ∧
      x.1.positiveMatchSecretState.readable = false) ∧
    (userId = zeros 32 → x.1.encryptionStatus.userIdSet = false)
  | _ => True

instance (x : State × Label) : Decidable (FreshUser cfg x) := by
  unfold FreshUser
  generalize event cfg x.2 x.1 = ev
  rcases ev <;> infer_instance

/-- Users do not see each other's templates. -/
structure Isolated (cfg : Config) (s : State) (owner : Owners) : Prop where
  valid : ∀ idx < s.templValid, owner idx = some s.userId
  exported : ∀ i fgr, event cfg i s = .exported fgr → owner fgr = some s.userId
  released : ∀ number derived now fgr, (exec cfg (.readMatchSecret number derived now) s).2.rv = .success →
    fingerNumber number = some fgr → owner fgr = some s.userId
  userIdSet : s.encryptionStatus.userIdSet = true ↔ s.userId ≠ zeros 32

/-! ## Steps -/

structure Owned (cfg : Config) (v : Slots) (owner : Owners) : Prop where
  bounded : Bounded cfg v
  valid : ∀ idx < v.templValid, owner idx = some v.userId
  newly : v.templateNewlyEnrolled ≠ fpNoSuchTemplate → owner v.templateNewlyEnrolled = some v.userId
  readable : v.secret.readable = true → owner v.secret.templateMatched = some v.userId
  userIdSet : v.userIdSet = true ↔ v.userId ≠ zeros 32

variable {v : Slots} {owner : Owners} {idx n : Nat} {user : Bytes 32}

theorem any_ne_zero_iff {userId : Bytes 32} : userId.toList.any (· != 0) = true ↔ userId ≠ zeros 32 := by
  have hzeros : userId = zeros 32 ↔ ∀ b ∈ userId.toList, b = 0 := by
    rw [← List.Vector.toList_injective.eq_iff]
    have hlist : (zeros 32).toList = List.replicate 32 0 := rfl
    rw [hlist, List.eq_replicate_iff]
    simp
  rw [ne_eq, hzeros]
  simp

theorem owner_update (h : owner idx = some user) : Function.update owner n (some user) idx = some user := by
  rw [Function.update_apply]
  split
  · rfl
  · exact h

theorem valid_increment (hvalid : ∀ idx < n, owner idx = some user) (hslot : owner n = some user) :
    ∀ idx < increment n, owner idx = some user := by
  intro idx hidx
  have hle : idx ≤ n := by
    rw [increment] at hidx
    omega
  rcases Nat.lt_or_eq_of_le hle with hlt | rfl
  · exact hvalid idx hlt
  · exact hslot

theorem Owned.next (h : Owned cfg (slots s) owner) (hin : InBounds cfg (s, i)) (hfresh : FreshUser cfg (s, i)) :
    Owned cfg ((slots s).next (event cfg i s)) (recordOwner cfg owner (s, i)) := by
  have hbounded := h.bounded.next hin
  have hguard := @guard_event cfg s i
  obtain ⟨hbefore, hvalid, hnewly, hreadable, huser⟩ := h
  rw [InBounds] at hin
  rw [FreshUser] at hfresh
  rw [recordOwner]
  generalize event cfg i s = e at hbounded hguard hin hfresh
  cases e with
  | quiet => exact ⟨hbounded, hvalid, hnewly, hreadable, huser⟩
  | userSet userId =>
    have hset : ((slots s).userIdSet || userId.toList.any (· != 0)) = true ↔ userId ≠ zeros 32 := by
      rw [Bool.or_eq_true, any_ne_zero_iff]
      refine ⟨fun h => ?_, .inr⟩
      rcases h with hset | hne
      · exact fun hzero => Bool.noConfusion ((hfresh.2 hzero).symm.trans hset)
      · exact hne
    by_cases hsame : userId = (slots s).userId
    · subst hsame
      exact ⟨hbounded, hvalid, hnewly, hreadable, hset⟩
    · -- nothing is left of the user before
      obtain ⟨hcount, hnone, hread⟩ := hfresh.1 hsame
      refine ⟨hbounded, fun idx hidx => ?_, fun h => absurd hnone h, fun h => ?_, hset⟩
      · exact absurd (hcount ▸ hidx : idx < 0) (Nat.not_lt_zero idx)
      · exact Bool.noConfusion (hread.symm.trans h)
  | disarmed => exact ⟨hbounded, hvalid, hnewly, fun h => Bool.noConfusion h, huser⟩
  | reset count =>
    exact ⟨hbounded, fun _ h => absurd h (Nat.not_lt_zero _), fun h => absurd rfl h, fun h => Bool.noConfusion h, by
      simp [Slots.next]⟩
  | established => exact ⟨hbounded, hvalid, hnewly, hreadable, huser⟩
  | exported fgr =>
    refine ⟨hbounded, hvalid, fun h => ?_, hreadable, huser⟩
    simp only [Slots.next] at h ⊢
    split
    · rename_i hfgr
      rw [if_pos hfgr] at h
      exact absurd rfl h
    · rename_i hfgr
      rw [if_neg hfgr] at h
      exact hnewly h
  | erased => exact ⟨hbounded, hvalid, hnewly, hreadable, huser⟩
  | committed templ =>
    refine ⟨hbounded, valid_increment (fun idx h => owner_update (hvalid idx h)) (Function.update_self ..),
      fun h => owner_update (hnewly h), fun h => owner_update (hreadable h), huser⟩
  | confirmed =>
    have hslot : owner (slots s).templValid = some (slots s).userId := by
      have heq : (slots s).templateNewlyEnrolled = (slots s).templValid := hguard
      rw [← heq]
      exact hnewly (heq ▸ ne_noSuchTemplate hbefore.count)
    exact ⟨hbounded, valid_increment hvalid hslot, hnewly, hreadable, huser⟩
  | enrollFailed left => exact ⟨hbounded, hvalid, hnewly, hreadable, huser⟩
  | enrolled templ now =>
    have hslot : Function.update owner (slots s).templValid (some (slots s).userId) (slots s).templValid =
        some (slots s).userId := Function.update_self ..
    refine ⟨hbounded, ?_, fun _ => hslot, fun h => ?_, huser⟩
    · simp only [Slots.next]
      split
      · exact fun idx h => owner_update (hvalid idx h)
      · exact valid_increment (fun idx h => owner_update (hvalid idx h)) hslot
    · simp only [Slots.next] at h ⊢
      split
      · rename_i hread
        rw [if_pos hread] at h
        cases h
      · exact hslot
  | matched templates fgr now =>
    refine ⟨hbounded, hvalid, hnewly, fun h => ?_, huser⟩
    cases fgr with
    | none => cases h
    | some fgr => exact hvalid fgr hin

/-! ## Runs -/

theorem owned_boot : Owned cfg (slots boot) noOwners where
  bounded := bounded_boot
  valid := fun _ h => absurd h (Nat.not_lt_zero _)
  newly := fun h => absurd rfl h
  readable := fun h => Bool.noConfusion h
  userIdSet := ⟨fun h => Bool.noConfusion h, fun h => absurd rfl h⟩

theorem Owned.isolated (h : Owned cfg (slots s) owner) : Isolated cfg s owner where
  valid := h.valid
  exported := by
    intro i fgr hevent
    have hguard := @guard_event cfg s i
    rw [hevent] at hguard
    exact h.valid fgr hguard.2
  released := by
    intro number derived now fgr hsuccess hnumber
    obtain ⟨hmatched, hreadable, -⟩ := fpReadMatchSecret_success hsuccess
    have hfgr : fgr = s.positiveMatchSecretState.templateMatched := Option.some.inj (hnumber.symm.trans hmatched)
    exact hfgr ▸ h.readable hreadable
  userIdSet := h.userIdSet

/-- As long as the user changes in a cleared context, what is matched, exported and released
    belongs to the current user. -/
theorem users_isolated (h : Run cfg l s) (hin : ∀ x ∈ l, InBounds cfg x) (hfresh : ∀ x ∈ l, FreshUser cfg x) :
    Isolated cfg s (l.foldl (recordOwner cfg) noOwners) := by
  have hok : ∀ x ∈ l, InBounds cfg x ∧ FreshUser cfg x := fun x hx => ⟨hin x hx, hfresh x hx⟩
  refine (h.observed (R := fun s owner => Owned cfg (slots s) owner) owned_boot ?_
    (Lib.Steps.always_iff_forall.mpr hok)).isolated
  intro s i s' owner howned hok hstep
  exact slots_step hstep ▸ howned.next hok.1 hok.2

/-! ## Two users -/

def resetContext : List Label := [.context 0 (zeros 32) 0, .updateConfig false fun _ => 0]

/-- The first user's finger is enrolled, the context is reset, and the second user's finger is enrolled. -/
def twoUsers : List Label :=
  [.context 1 (digest 1) 0] ++ enrolment ++ resetContext ++ [.context 1 (digest 2) 0] ++ enrolment

theorem users_isolated_twoUsers : ∃ l s, Run emulator l s ∧ s.templValid = 1 ∧ s.userId = digest 2 ∧
    Isolated emulator s (l.foldl (recordOwner emulator) noOwners) := by
  have hrun : (Lib.Steps.trace (step emulator) twoUsers ([], boot)).any fun q =>
      decide ((q.2.templValid = 1 ∧ q.2.userId = digest 2) ∧ (∀ x ∈ q.1, InBounds emulator x) ∧
        ∀ x ∈ q.1, FreshUser emulator x) := by decide +kernel
  obtain ⟨l, s, run, -, ⟨hcount, huser⟩, hin, hfresh⟩ := Lib.Steps.exists_run hrun
  exact ⟨l, s, run, hcount, huser, users_isolated run hin hfresh⟩

/-- The second user id is set without a reset. -/
def noReset : List Label := [.context 1 (digest 1) 0] ++ enrolment ++ [.context 1 (digest 2) 0]

theorem result_without_reset :
    ∃ l s, Run emulator l s ∧ ¬Isolated emulator s (l.foldl (recordOwner emulator) noOwners) := by
  have hrun : (Lib.Steps.trace (step emulator) noReset ([], boot)).any fun q =>
      decide (0 < q.2.templValid ∧ q.1.foldl (recordOwner emulator) noOwners 0 ≠ some q.2.userId) := by decide +kernel
  obtain ⟨l, s, run, -, hcount, howner⟩ := Lib.Steps.exists_run hrun
  exact ⟨l, s, run, fun h => howner (h.valid 0 hcount)⟩

end ChromeEc.FpSensor
