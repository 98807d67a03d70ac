import ChromeEc.Rollback.Model
import Mathlib.Data.List.OfFn

/- Power-cut safety of the rollback blocks.

  `latest` is `get_latest_rollback` in closed form. An update touches only the
  region that does not hold the latest block, and one of two things is true of
  what it leaves there: the words are no valid block that was not there before
  (`latest_of_not_newer`), or all words up to the cookie are written and the new
  block is the latest (`latest_of_newer`). `committed` reads from what happened to
  flash which block was last written completely.

  What is proved: in every run, whatever each call meets, the latest block is the
  last one committed, its version never decreases, and no call touches its region
  (`rollback_power_cut_safety`). -/
namespace ChromeEc.Rollback

/-! ## The latest block -/

/-- A block that `get_latest_rollback` takes into account. -/
def Valid (n : Nat) (r : Region) : Prop := r (2 + n) = COOKIE ∧ (-1 : Word).slt (r 0) = true

instance (n : Nat) (r : Region) : Decidable (Valid n r) := inferInstanceAs (Decidable (_ ∧ _))

attribute [local instance] neZero_two neZero_three

def latest (n : Nat) (flash : Flash) : Fin 2 × RollbackData n :=
  if Valid n (flash 1) ∧ (Valid n (flash 0) → (flash 0 0).slt (flash 1 0) = true) then
    (1, dataOf n (flash 1))
  else if Valid n (flash 0) then
    (0, dataOf n (flash 0))
  else
    (0, defaultData n)

theorem scanRegion_works (n : Nat) (flash : Flash) (region : Fin 2) (acc : Option (Fin 2) × Word) :
    scanRegion n true flash region acc =
      some (if flash region (2 + n) = COOKIE ∧ acc.2.slt (flash region 0) = true then
        (some region, flash region 0) else acc) := by
  unfold scanRegion readRollback
  rw [if_pos rfl]
  dsimp only [dataOf]
  by_cases hc : flash region (2 + n) = COOKIE
  · rw [if_neg (not_not.mpr hc)]
    by_cases hid : acc.2.slt (flash region 0) = true
    · rw [if_pos hid, if_pos ⟨hc, hid⟩]
    · rw [if_neg hid, if_neg fun h => hid h.2]
  · rw [if_pos hc, if_neg fun h => hc h.1]

theorem getLatestRollback_eq_latest (n : Nat) (flash : Flash) :
    getLatestRollback n (fun _ => true) flash = some (latest n flash) := by
  unfold getLatestRollback latest
  simp only [scanRegion_works, Option.bind_eq_bind, Option.bind_some]
  by_cases h₀ : Valid n (flash 0)
  · have h₀' : flash 0 (2 + n) = COOKIE ∧ ((none : Option (Fin 2)), (-1 : Word)).2.slt (flash 0 0) = true := h₀
    rw [if_pos h₀']
    by_cases h₁ : flash 1 (2 + n) = COOKIE ∧ (flash 0 0).slt (flash 1 0) = true
    · have hv : Valid n (flash 1) := by
        refine ⟨h₁.1, ?_⟩
        have ha := h₀.2
        have hb := h₁.2
        rw [BitVec.slt_iff_toInt_lt] at ha hb ⊢
        omega
      rw [if_pos h₁, if_pos ⟨hv, fun _ => h₁.2⟩]
      rfl
    · rw [if_neg h₁, if_neg fun h => h₁ ⟨h.1.1, h.2 h₀⟩, if_pos h₀]
      rfl
  · have h₀' : ¬(flash 0 (2 + n) = COOKIE ∧ ((none : Option (Fin 2)), (-1 : Word)).2.slt (flash 0 0) = true) := h₀
    rw [if_neg h₀']
    by_cases h₁ : Valid n (flash 1)
    · have h₁' : flash 1 (2 + n) = COOKIE ∧ ((none : Option (Fin 2)), (-1 : Word)).2.slt (flash 1 0) = true := h₁
      rw [if_pos h₁', if_pos ⟨h₁, fun h => absurd h h₀⟩]
      rfl
    · have h₁' : ¬(flash 1 (2 + n) = COOKIE ∧ ((none : Option (Fin 2)), (-1 : Word)).2.slt (flash 1 0) = true) := h₁
      rw [if_neg h₁', if_neg fun h => h₁ h.1, if_neg h₀]

theorem scanRegion_some {n : Nat} {works : Bool} {flash : Flash} {region : Fin 2}
    {acc acc' : Option (Fin 2) × Word} (h : scanRegion n works flash region acc = some acc') :
    scanRegion n true flash region acc = some acc' := by
  cases works with
  | true => exact h
  | false => cases h

/-- A read that fails is reported; nothing else depends on which reads work. -/
theorem getLatestRollback_some {n : Nat} {works : Fin 3 → Bool} {flash : Flash}
    {p : Fin 2 × RollbackData n} (h : getLatestRollback n works flash = some p) :
    p = latest n flash := by
  have hall := getLatestRollback_eq_latest n flash
  unfold getLatestRollback at h hall
  rw [Option.bind_eq_bind, Option.bind_eq_some_iff] at h
  obtain ⟨acc₀, h₀, h⟩ := h
  rw [Option.bind_eq_bind, Option.bind_eq_some_iff] at h
  obtain ⟨acc₁, h₁, h⟩ := h
  rw [scanRegion_some h₀, Option.bind_eq_bind, Option.bind_some, scanRegion_some h₁,
    Option.bind_eq_bind, Option.bind_some] at hall
  obtain ⟨region, id⟩ := acc₁
  cases region with
  | none =>
    rw [← Option.some_inj, ← hall]
    exact h.symm
  | some region =>
    dsimp only at h hall
    obtain ⟨data, hdata, h⟩ := Option.bind_eq_some_iff.mp h
    have hdata' : readRollback n true flash region = some data := by
      cases hw : works 2 with
      | true => rw [← hdata, hw]
      | false =>
        rw [hw] at hdata
        cases hdata
    rw [hdata'] at hall
    rw [← Option.some_inj, ← hall]
    exact h.symm

theorem latest_id_nonneg (n : Nat) (flash : Flash) : 0 ≤ (latest n flash).2.id.toInt := by
  have hpos : ∀ r : Region, Valid n r → 0 ≤ (r 0).toInt := by
    intro r h
    have hs := h.2
    rw [BitVec.slt_iff_toInt_lt] at hs
    have : (-1 : Word).toInt = -1 := by decide
    omega
  unfold latest
  split
  · rename_i h
    exact hpos _ h.1
  · split
    · rename_i h
      exact hpos _ h
    · exact Int.le_refl _

/-! ## Rewriting the other region -/

theorem fin_two_add_one_ne (r : Fin 2) : r + 1 ≠ r := by
  revert r
  decide

def SecondNewer (n : Nat) (r₀ r₁ : Region) : Prop := Valid n r₁ ∧ (Valid n r₀ → (r₀ 0).slt (r₁ 0) = true)

theorem latest_second {n : Nat} {flash : Flash} (h : SecondNewer n (flash 0) (flash 1)) :
    latest n flash = (1, dataOf n (flash 1)) := if_pos h

theorem latest_first {n : Nat} {flash : Flash} (h : ¬SecondNewer n (flash 0) (flash 1)) :
    latest n flash = (0, if Valid n (flash 0) then dataOf n (flash 0) else defaultData n) := by
  refine (if_neg h).trans ?_
  split <;> rfl

/-- If the other region holds no valid block that was not there before, the latest
block stays. -/
theorem latest_of_not_newer {n : Nat} {flash : Flash} {r : Region}
    (h : Valid n r → Valid n (flash ((latest n flash).1 + 1)) ∧
      r 0 = flash ((latest n flash).1 + 1) 0) :
    latest n (Function.update flash ((latest n flash).1 + 1) r) = latest n flash := by
  by_cases h₁ : SecondNewer n (flash 0) (flash 1)
  · rw [latest_second h₁] at h ⊢
    have hstays : SecondNewer n r (flash 1) := by
      refine ⟨h₁.1, fun hv => ?_⟩
      obtain ⟨hv₀, hid⟩ := h hv
      rw [hid]
      exact h₁.2 hv₀
    exact latest_second hstays
  · rw [latest_first h₁] at h ⊢
    have hstays : ¬SecondNewer n (flash 0) r := by
      intro ⟨hv, hlt⟩
      obtain ⟨hv₁, hid⟩ := h hv
      refine h₁ ⟨hv₁, fun hv₀ => ?_⟩
      rw [← show r 0 = flash 1 0 from hid]
      exact hlt hv₀
    exact latest_first hstays

theorem toInt_add_one {x : Word} (h : x.toInt < 2 ^ 31 - 1) : (x + 1).toInt = x.toInt + 1 := by
  have h₁ : (1 : Word).toInt = 1 := by decide
  have h₂ := BitVec.le_toInt x
  rw [BitVec.toInt_add, h₁]
  apply Int.bmod_eq_of_le
  · omega
  · omega

/-- A block with the next id in the other region is the latest. -/
theorem latest_of_newer {n : Nat} {flash : Flash} {r : Region} (hc : r (2 + n) = COOKIE)
    (hid : r 0 = (latest n flash).2.id + 1) (hmax : (latest n flash).2.id.toInt < 2 ^ 31 - 1) :
    latest n (Function.update flash ((latest n flash).1 + 1) r) =
      ((latest n flash).1 + 1, dataOf n r) := by
  have hnn := latest_id_nonneg n flash
  have hsucc := toInt_add_one hmax
  have hv : Valid n r := by
    refine ⟨hc, ?_⟩
    have : (-1 : Word).toInt = -1 := by decide
    rw [BitVec.slt_iff_toInt_lt, hid]
    omega
  by_cases h₁ : SecondNewer n (flash 0) (flash 1)
  · rw [latest_second h₁] at hid hsucc ⊢
    have hother : ¬SecondNewer n r (flash 1) := by
      intro ⟨_, hlt⟩
      have hlt := hlt hv
      rw [BitVec.slt_iff_toInt_lt, hid, hsucc] at hlt
      exact absurd hlt (Int.not_lt.mpr (Int.le_add_one (Int.le_refl _)))
    refine (latest_first hother).trans ?_
    exact congrArg (Prod.mk _) (if_pos hv)
  · have hother : SecondNewer n (flash 0) r := by
      refine ⟨hv, fun hv₀ => ?_⟩
      have hid₀ : (latest n flash).2.id = flash 0 0 := by
        rw [latest_first h₁, if_pos hv₀]
        rfl
      rw [BitVec.slt_iff_toInt_lt, hid, hsucc, hid₀]
      omega
    rw [latest_first h₁]
    exact latest_second hother

/-! ## What a write leaves -/

theorem length_blockWords (cfg : Config) (data : RollbackData cfg.secretWords) :
    (blockWords cfg data).length = cfg.secretWords + 3 + cfg.padWords := by
  simp [blockWords]
  omega

theorem blockWords_cookie (cfg : Config) (data : RollbackData cfg.secretWords) :
    (blockWords cfg data)[2 + cfg.secretWords]? = some data.cookie := by
  unfold blockWords
  rw [Nat.add_comm 2]
  simp

theorem blockWords_secret (cfg : Config) (data : RollbackData cfg.secretWords)
    (i : Fin cfg.secretWords) : (blockWords cfg data)[2 + (i : Nat)]? = some (data.secret i) := by
  unfold blockWords
  rw [Nat.add_comm 2]
  simp [List.getElem?_append]

/-- The region after the first `k` words of a block have been written. -/
def written (cfg : Config) (data : RollbackData cfg.secretWords) (k : Nat) : Region :=
  writeRegion ((blockWords cfg data).take k) fun _ => ERASED

theorem written_of_lt {cfg : Config} {data : RollbackData cfg.secretWords} {k i : Nat} {x : Word}
    (hi : i < k) (hx : (blockWords cfg data)[i]? = some x) : written cfg data k i = x := by
  unfold written writeRegion
  rw [List.getD_eq_getElem?_getD, List.getElem?_take, if_pos hi, hx, Option.getD_some]

theorem written_of_le {cfg : Config} {data : RollbackData cfg.secretWords} {k i : Nat}
    (hi : k ≤ i) : written cfg data k i = ERASED := by
  unfold written writeRegion
  rw [List.getD_eq_getElem?_getD, List.getElem?_take, if_neg (by omega), Option.getD_none]

theorem dataOf_written {cfg : Config} (data : RollbackData cfg.secretWords) {k : Nat}
    (hk : 2 + cfg.secretWords < k) : dataOf cfg.secretWords (written cfg data k) = data := by
  unfold dataOf
  rw [written_of_lt (x := data.id) (by omega) rfl,
    written_of_lt (x := data.rollbackMinVersion) (by omega) rfl,
    written_of_lt hk (blockWords_cookie cfg data)]
  congr 1
  funext i
  exact written_of_lt (by omega) (blockWords_secret cfg data i)

theorem not_valid_written {cfg : Config} {data : RollbackData cfg.secretWords} {k : Nat}
    (hk : k ≤ 2 + cfg.secretWords) : ¬Valid cfg.secretWords (written cfg data k) := by
  intro h
  have hc := h.1
  rw [written_of_le hk] at hc
  exact absurd hc (by decide)

/-! ## One call -/

/-- The block that was last written completely, its cookie included. -/
def committed (n : Nat) (prev : Fin 2 × RollbackData n) (ops : List FlashOp) :
    Fin 2 × RollbackData n :=
  ops.foldl (fun last op =>
    match op with
    | .erase _ _ => last
    | .write region words =>
      if 2 + n < words.length then (region, dataOf n (writeRegion words fun _ => ERASED))
      else last) prev

theorem committed_append (n : Nat) (prev : Fin 2 × RollbackData n) (ops ops' : List FlashOp) :
    committed n prev (ops ++ ops') = committed n (committed n prev ops) ops' :=
  List.foldl_append

section
variable {cfg : Config}
  {digest : (Fin cfg.secretWords → Word) → List UInt8 → List UInt8 → Fin cfg.secretWords → Word}

/-- All that a call can do to flash: nothing, an erase of the other region that
may leave words, or a full erase and some words of a block with the next id and no
lower version. -/
inductive Effect (cfg : Config) (flash : Flash) : List FlashOp → Prop
  | none : Effect cfg flash []
  | erase (keep : Nat → Bool) :
      Effect cfg flash [.erase ((latest cfg.secretWords flash).1 + 1) keep]
  | write (data : RollbackData cfg.secretWords) (k : Nat) :
      data.id = (latest cfg.secretWords flash).2.id + 1 → data.cookie = COOKIE →
      (latest cfg.secretWords flash).2.rollbackMinVersion.toInt ≤
        data.rollbackMinVersion.toInt →
      Effect cfg flash [.erase ((latest cfg.secretWords flash).1 + 1) fun _ => false,
        .write ((latest cfg.secretWords flash).1 + 1) ((blockWords cfg data).take k)]

theorem nextVersion_ge {data : RollbackData cfg.secretWords} {next version : Word}
    {entropy : Option (List UInt8)} (h : nextVersion cfg data next entropy = .ok version) :
    data.rollbackMinVersion.toInt ≤ version.toInt := by
  unfold nextVersion at h
  have hslt := BitVec.slt_iff_toInt_lt (x := next) (y := data.rollbackMinVersion)
  by_cases hlt : next.slt data.rollbackMinVersion = true
  · rw [if_pos hlt, if_pos hlt] at h
    split at h
    · cases h
      exact Int.le_refl _
    · cases h
  · rw [if_neg hlt, if_neg hlt] at h
    have hle : data.rollbackMinVersion.toInt ≤ next.toInt := by
      rw [hslt] at hlt
      omega
    split at h
    · cases h
      exact hle
    · split at h
      · cases h
      · cases h
        exact hle

theorem eraseAndWrite_effect (env : Env) {flash : Flash} {data : RollbackData cfg.secretWords}
    (hid : data.id = (latest cfg.secretWords flash).2.id + 1) (hc : data.cookie = COOKIE)
    (hv : (latest cfg.secretWords flash).2.rollbackMinVersion.toInt ≤
      data.rollbackMinVersion.toInt) :
    Effect cfg flash
      (eraseAndWrite cfg env ((latest cfg.secretWords flash).1 + 1) data).2 := by
  unfold eraseAndWrite
  cases env.eraseEnd with
  | failed keep => exact .erase keep
  | cut keep => exact .erase keep
  | done =>
    cases env.writeEnd with
    | done =>
      have h := Effect.write data (blockWords cfg data).length hid hc hv
      rw [List.take_length] at h
      exact h
    | failed n err => exact .write data n hid hc hv
    | cut n => exact .write data n hid hc hv

theorem rollbackUpdate_effect (env : Env) (flash : Flash) (next : Word)
    (entropy : Option (List UInt8)) :
    Effect cfg flash (rollbackUpdate cfg digest env flash next entropy).2 := by
  unfold rollbackUpdate
  split
  · exact .none
  split
  · exact .none
  split
  · exact .none
  rename_i region data hlatest
  have hlatest := getLatestRollback_some hlatest
  have hregion : region = (latest cfg.secretWords flash).1 := congrArg Prod.fst hlatest
  have hdata : data = (latest cfg.secretWords flash).2 := congrArg Prod.snd hlatest
  split
  · exact .none
  rename_i version hversion
  have hge := nextVersion_ge hversion
  dsimp only
  split
  · exact .none
  split
  · exact .none
  split
  · exact .none
  rw [hregion]
  rw [hdata] at hge
  apply eraseAndWrite_effect env
  · rw [hdata]
  · rfl
  · exact hge

theorem callOps_effect (flash : Flash) (call : Call) :
    Effect cfg flash (callOps cfg digest flash call) := by
  cases call with
  | updateVersion env next => exact rollbackUpdate_effect env flash next none
  | addEntropy env entropy =>
    unfold callOps rollbackAddEntropy
    dsimp only
    split
    · exact .none
    · exact rollbackUpdate_effect env flash (-1) entropy

theorem Effect.region_ne {flash : Flash} {ops : List FlashOp} (h : Effect cfg flash ops) :
    ∀ op ∈ ops, op.region ≠ (latest cfg.secretWords flash).1 := by
  cases h with
  | none =>
    intro op hop
    exact absurd hop List.not_mem_nil
  | erase keep =>
    intro op hop
    rw [List.mem_singleton.mp hop]
    exact fin_two_add_one_ne _
  | write data k _ _ _ =>
    intro op hop
    obtain rfl | hop := List.mem_cons.mp hop
    · exact fin_two_add_one_ne _
    · rw [List.mem_singleton.mp hop]
      exact fin_two_add_one_ne _

theorem applyOps_write (flash : Flash) (region : Fin 2) (data : RollbackData cfg.secretWords)
    (k : Nat) :
    applyOps flash [.erase region fun _ => false, .write region ((blockWords cfg data).take k)] =
      Function.update flash region (written cfg data k) := by
  have herased : eraseRegion (fun _ => false) (flash region) = fun _ => ERASED := rfl
  show Function.update (Function.update flash region (eraseRegion (fun _ => false) (flash region)))
    region (writeRegion _ (Function.update flash region (eraseRegion (fun _ => false)
      (flash region)) region)) = _
  rw [Function.update_idem, Function.update_self, herased]
  rfl

/-- After a call the latest block is the last one committed, and its version is no
lower than before. -/
theorem Effect.latest_eq {flash : Flash} {ops : List FlashOp} (h : Effect cfg flash ops)
    (hmax : (latest cfg.secretWords flash).2.id.toInt < 2 ^ 31 - 1) :
    latest cfg.secretWords (applyOps flash ops) =
        committed cfg.secretWords (latest cfg.secretWords flash) ops ∧
      (latest cfg.secretWords flash).2.rollbackMinVersion.toInt ≤
        (latest cfg.secretWords (applyOps flash ops)).2.rollbackMinVersion.toInt := by
  cases h with
  | none => exact ⟨rfl, Int.le_refl _⟩
  | erase keep =>
    have hl : latest cfg.secretWords (applyOps flash
        [.erase ((latest cfg.secretWords flash).1 + 1) keep]) = latest cfg.secretWords flash := by
      apply latest_of_not_newer
      intro hv
      -- A cookie and a nonnegative id are no erased words.
      have hcookie : keep (2 + cfg.secretWords) = true := by
        by_contra hk
        have hc := hv.1
        unfold eraseRegion at hc
        rw [if_neg hk] at hc
        exact absurd hc (by decide)
      have hid : keep 0 = true := by
        by_contra hk
        have hs := hv.2
        unfold eraseRegion at hs
        rw [if_neg hk] at hs
        exact absurd hs (by decide)
      unfold Valid eraseRegion at hv
      rw [if_pos hcookie, if_pos hid] at hv
      refine ⟨hv, ?_⟩
      unfold eraseRegion
      rw [if_pos hid]
    rw [hl]
    exact ⟨rfl, Int.le_refl _⟩
  | write data k hid hc hv =>
    rw [applyOps_write]
    have hlen : ((blockWords cfg data).take k).length =
        min k (cfg.secretWords + 3 + cfg.padWords) := by
      rw [List.length_take, length_blockWords]
    by_cases hk : 2 + cfg.secretWords < k
    · have hdata := dataOf_written data hk
      have hl : latest cfg.secretWords (Function.update flash
          ((latest cfg.secretWords flash).1 + 1) (written cfg data k)) =
            ((latest cfg.secretWords flash).1 + 1, data) := by
        rw [latest_of_newer _ _ hmax, hdata]
        · rw [written_of_lt hk (blockWords_cookie cfg data), hc]
        · rw [written_of_lt (x := data.id) (by omega) rfl, hid]
      rw [hl]
      refine ⟨?_, hv⟩
      show _ = if _ then _ else _
      rw [if_pos (by omega)]
      exact Prod.ext rfl hdata.symm
    · have hl : latest cfg.secretWords (Function.update flash
          ((latest cfg.secretWords flash).1 + 1) (written cfg data k)) =
            latest cfg.secretWords flash := by
        apply latest_of_not_newer
        intro hvalid
        exact absurd hvalid (not_valid_written (by omega))
      rw [hl]
      refine ⟨?_, Int.le_refl _⟩
      show _ = if _ then _ else _
      rw [if_neg (by omega)]

/-! ## Runs -/

def allWork : Fin 3 → Bool := fun _ => true

theorem minimumVersion_eq (n : Nat) (flash : Flash) :
    rollbackGetMinimumVersion n allWork flash =
      (latest n flash).2.rollbackMinVersion.toInt := by
  unfold rollbackGetMinimumVersion allWork
  rw [getLatestRollback_eq_latest]

def allOps (cfg : Config)
    (digest : (Fin cfg.secretWords → Word) → List UInt8 → List UInt8 → Fin cfg.secretWords → Word)
    (flash : Flash) (calls : List Call) : List FlashOp :=
  (run cfg digest flash calls).flatMap Step.ops

/-- No call of the run finds the largest id. -/
def IdsBelowMax (cfg : Config)
    (digest : (Fin cfg.secretWords → Word) → List UInt8 → List UInt8 → Fin cfg.secretWords → Word)
    (flash : Flash) (calls : List Call) : Prop :=
  ∀ st ∈ run cfg digest flash calls, (latest cfg.secretWords st.before).2.id.toInt < 2 ^ 31 - 1

theorem IdsBelowMax.cons {flash : Flash} {call : Call} {calls : List Call}
    (h : IdsBelowMax cfg digest flash (call :: calls)) :
    (latest cfg.secretWords flash).2.id.toInt < 2 ^ 31 - 1 ∧
      IdsBelowMax cfg digest (applyOps flash (callOps cfg digest flash call)) calls := by
  unfold IdsBelowMax run at h
  rw [List.forall_mem_cons] at h
  exact h

theorem run_region_ne (flash : Flash) (calls : List Call) :
    ∀ st ∈ run cfg digest flash calls, ∀ op ∈ st.ops,
      op.region ≠ (latest cfg.secretWords st.before).1 := by
  induction calls generalizing flash with
  | nil =>
    intro st hst
    exact absurd hst List.not_mem_nil
  | cons call calls ih =>
    intro st hst
    obtain rfl | hst := List.mem_cons.mp hst
    · exact (callOps_effect flash call).region_ne
    · exact ih _ st hst

theorem latest_finish (flash : Flash) (calls : List Call)
    (h : IdsBelowMax cfg digest flash calls) :
    latest cfg.secretWords (finish cfg digest flash calls) =
      committed cfg.secretWords (latest cfg.secretWords flash)
        (allOps cfg digest flash calls) := by
  induction calls generalizing flash with
  | nil => rfl
  | cons call calls ih =>
    obtain ⟨hmax, h⟩ := h.cons
    have heffect : Effect cfg flash (callOps cfg digest flash call) := callOps_effect flash call
    have hstep := (heffect.latest_eq hmax).1
    have hrest := ih (applyOps flash (callOps cfg digest flash call)) h
    have hops : allOps cfg digest flash (call :: calls) = callOps cfg digest flash call ++
        allOps cfg digest (applyOps flash (callOps cfg digest flash call)) calls := by
      unfold allOps
      rw [run, List.flatMap_cons]
    rw [finish, hrest, hstep, hops, committed_append]

/-- The versions read after each call, in order, starting with the one before the
first. -/
def versions (cfg : Config)
    (digest : (Fin cfg.secretWords → Word) → List UInt8 → List UInt8 → Fin cfg.secretWords → Word)
    (flash : Flash) (calls : List Call) : List Int :=
  (flash :: (run cfg digest flash calls).map Step.after).map
    (rollbackGetMinimumVersion cfg.secretWords allWork)

theorem versions_pairwise (flash : Flash) (calls : List Call)
    (h : IdsBelowMax cfg digest flash calls) :
    (versions cfg digest flash calls).Pairwise (· ≤ ·) := by
  rw [← List.isChain_iff_pairwise]
  induction calls generalizing flash with
  | nil => exact List.IsChain.singleton _
  | cons call calls ih =>
    obtain ⟨hmax, h⟩ := h.cons
    have heffect : Effect cfg flash (callOps cfg digest flash call) := callOps_effect flash call
    have hstep := (heffect.latest_eq hmax).2
    rw [← minimumVersion_eq, ← minimumVersion_eq] at hstep
    have hrest := ih (applyOps flash (callOps cfg digest flash call)) h
    exact List.isChain_cons_cons.mpr ⟨hstep, hrest⟩

end

/-- **Power-cut safety of the rollback blocks.** In every run of
`rollback_update_version` and `rollback_add_entropy`, each of which may fail or be
cut at any point: the minimum version read never decreases; after the run the
latest block is the last one that was committed, so its version and its secret are
the ones read; and no call erases or writes the region of the latest block. -/
theorem rollback_power_cut_safety (cfg : Config)
    (digest : (Fin cfg.secretWords → Word) → List UInt8 → List UInt8 → Fin cfg.secretWords → Word)
    (flash : Flash) (calls : List Call) (h : IdsBelowMax cfg digest flash calls) :
    (versions cfg digest flash calls).Pairwise (· ≤ ·) ∧
    (∃ last, last = committed cfg.secretWords (latest cfg.secretWords flash)
        (allOps cfg digest flash calls) ∧
      getLatestRollback cfg.secretWords allWork (finish cfg digest flash calls) = some last ∧
      rollbackGetMinimumVersion cfg.secretWords allWork (finish cfg digest flash calls) =
        last.2.rollbackMinVersion.toInt ∧
      rollbackGetSecret cfg.secretWords allWork (finish cfg digest flash calls) =
        if isTrivial last.2.secret then .error .unknown else .ok last.2.secret) ∧
    ∀ st ∈ run cfg digest flash calls, ∀ op ∈ st.ops,
      op.region ≠ (latest cfg.secretWords st.before).1 := by
  refine ⟨versions_pairwise flash calls h, ⟨_, rfl, ?_⟩, run_region_ne flash calls⟩
  have hlatest : getLatestRollback cfg.secretWords allWork (finish cfg digest flash calls) =
      some (committed cfg.secretWords (latest cfg.secretWords flash)
        (allOps cfg digest flash calls)) := by
    rw [← latest_finish flash calls h]
    exact getLatestRollback_eq_latest _ _
  refine ⟨hlatest, ?_, ?_⟩
  · unfold rollbackGetMinimumVersion
    rw [hlatest]
  · unfold rollbackGetSecret
    rw [hlatest]

def exampleConfig : Config := ⟨1, 1, false⟩

/-- The sum of the secret and the entropy stands for the digest. -/
def exampleDigest (secret : Fin 1 → Word) (bytes extra : List UInt8) : Fin 1 → Word := fun i =>
  secret i + BitVec.ofNat 32 ((bytes ++ extra).map UInt8.toNat).sum

/-- A call that meets no obstacle but this end of its write. -/
def exampleEnv (writeEnd : WriteEnd) : Env where
  cutEarly := false
  otpStatus := .success
  protectNow := false
  works := allWork
  localEntropy := some []
  eraseSize := 2048
  unsafeToOverwrite := false
  eraseEnd := .done
  writeEnd := writeEnd

/-- Entropy is added to erased flash, then an update to version 7 is cut before its
cookie is written, and the same update is made again. -/
def exampleCalls : List Call :=
  [.addEntropy (exampleEnv .done) (some [5]), .updateVersion (exampleEnv (.cut 3)) 7,
    .updateVersion (exampleEnv .done) 7]

theorem rollback_power_cut_safety_cut :
    IdsBelowMax exampleConfig exampleDigest (fun _ _ => ERASED) exampleCalls ∧
      versions exampleConfig exampleDigest (fun _ _ => ERASED) exampleCalls = [0, 0, 0, 7] ∧
      (versions exampleConfig exampleDigest (fun _ _ => ERASED) exampleCalls).Pairwise
        (· ≤ ·) := by
  have h : IdsBelowMax exampleConfig exampleDigest (fun _ _ => ERASED) exampleCalls := by
    unfold IdsBelowMax
    decide +kernel
  exact ⟨h, by decide +kernel,
    (rollback_power_cut_safety exampleConfig exampleDigest (fun _ _ => ERASED) exampleCalls h).1⟩

end ChromeEc.Rollback
