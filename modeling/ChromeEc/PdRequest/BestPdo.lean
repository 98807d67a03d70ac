import ChromeEc.PdRequest.Model
import ChromeEc.Lib.Select

/- The PDO that `pd_select_best_pdo` returns.

  The loop is the scan of `Lib.select` over the PDOs that are admissible, each with its place
  (`selectFrom_eq`), and what it takes follows an order: by power, then by voltage if the board
  prefers a low or a high one, then by place. -/
namespace ChromeEc.PdRequest

def volt (pdo : Pdo) : Nat := (pdoVoltages pdo).1

/-- The power of a PDO in uW within the limits of the board. -/
def clampedUw (b : Board) (pdo : Pdo) : Nat := min ((pdExtractPdoPower b pdo).ma * volt pdo) (b.maxPowerMw * 1000)

/-- The board can ask for the PDO at a place. -/
structure Admissible (b : Board) (maxMv : Int) (i : Nat) (pdo : Pdo) : Prop where
  supported : pdoType pdo ≠ .augmented
  fixed : b.onlyFixedPdos = true → pdoType pdo = .fixed
  nonzero : 0 < volt pdo
  voltage : (volt pdo : Int) ≤ min maxMv b.maxVoltageMv
  valid : b.isValidInputVoltage (volt pdo) = true
  notEpr : eprTooEarly i pdo (volt pdo) = false

/-- The board prefers the voltage of one PDO to that of another. -/
def prefers (b : Board) (x y : Pdo) : Prop :=
  if b.preferLowVoltage = true then volt x < volt y
  else if b.preferHighVoltage = true then volt y < volt x
  else False

/-- An admissible PDO with at least the power of any other; among those that have as much, none is preferred for its
voltage, and those that are as good in voltage come behind. -/
structure IsBest (b : Board) (maxMv : Int) (srcCaps : List Pdo) (i : Nat) (pdo : Pdo) : Prop where
  offered : srcCaps[i]? = some pdo
  admissible : Admissible b maxMv i pdo
  power : ∀ j q, srcCaps[j]? = some q → Admissible b maxMv j q → clampedUw b q ≤ clampedUw b pdo
  voltage : ∀ j q, srcCaps[j]? = some q → Admissible b maxMv j q → clampedUw b q = clampedUw b pdo → ¬prefers b q pdo
  first : ∀ j q, srcCaps[j]? = some q → Admissible b maxMv j q → clampedUw b q = clampedUw b pdo → ¬prefers b pdo q → i ≤ j

instance {b : Board} {maxMv : Int} {i : Nat} {pdo : Pdo} : Decidable (Admissible b maxMv i pdo) :=
  decidable_of_iff (pdoType pdo ≠ .augmented ∧ (b.onlyFixedPdos = true → pdoType pdo = .fixed) ∧ 0 < volt pdo ∧
      (volt pdo : Int) ≤ min maxMv b.maxVoltageMv ∧ b.isValidInputVoltage (volt pdo) = true ∧
      eprTooEarly i pdo (volt pdo) = false)
    ⟨fun ⟨h1, h2, h3, h4, h5, h6⟩ => ⟨h1, h2, h3, h4, h5, h6⟩, fun ⟨h1, h2, h3, h4, h5, h6⟩ => ⟨h1, h2, h3, h4, h5, h6⟩⟩

instance {b : Board} {x y : Pdo} : Decidable (prefers b x y) := by
  unfold prefers
  infer_instance

variable {b : Board} {maxMv : Int} {i : Nat} {pdo : Pdo} {srcCaps : List Pdo}

theorem extractPdoHelper_maxMv : (extractPdoHelper pdo).maxMv = volt pdo := by
  simp only [extractPdoHelper, volt]
  split
  · rename_i hzero
    exact hzero.symm
  · rfl

@[simp] theorem pdExtractPdoPower_maxMv : (pdExtractPdoPower b pdo).maxMv = volt pdo := by
  simp only [pdExtractPdoPower]
  split <;> exact extractPdoHelper_maxMv

/-! ## The loop as a scan -/

/-- What the scan takes instead of the best so far. -/
def takes (b : Board) (x best : Nat × Pdo) : Bool :=
  decide (clampedUw b best.2 < clampedUw b x.2 ∨ clampedUw b x.2 = clampedUw b best.2 ∧ prefers b x.2 best.2)

def toBest (b : Board) : Option (Nat × Pdo) → Best
  | none => ⟨-1, -1, 0⟩
  | some (i, pdo) => ⟨i, clampedUw b pdo, volt pdo⟩

def offers (b : Board) (maxMv : Int) (i : Nat) (srcCaps : List Pdo) : List (Nat × Pdo) :=
  ((srcCaps.zipIdx i).map Prod.swap).filter fun x => decide (Admissible b maxMv x.1 x.2)

theorem selectStep_of_not (h : ¬Admissible b maxMv i pdo) (cur : Best) :
    selectStep b (min maxMv b.maxVoltageMv) cur i pdo = cur := by
  by_contra hne
  unfold selectStep at hne
  simp only [pdExtractPdoPower_maxMv] at hne
  -- The step got past every check, so the PDO is admissible.
  have hfixed : ¬(b.onlyFixedPdos = true ∧ pdoType pdo ≠ .fixed) := fun hc => hne (if_pos hc)
  rw [if_neg hfixed] at hne
  have haug : pdoType pdo ≠ .augmented := fun hc => hne (if_pos hc)
  rw [if_neg haug] at hne
  have hzero : volt pdo ≠ 0 := fun hc => hne (if_pos hc)
  rw [if_neg hzero] at hne
  have hepr : ¬eprTooEarly i pdo (volt pdo) = true := fun hc => hne (if_pos hc)
  rw [if_neg hepr] at hne
  have hvalid : ¬b.isValidInputVoltage (volt pdo) = false := fun hc => hne (if_pos hc)
  rw [if_neg hvalid] at hne
  have hmax : ¬min maxMv b.maxVoltageMv < volt pdo := fun hc => hne (if_pos hc)
  refine h ⟨haug, fun honly => ?_, Nat.pos_of_ne_zero hzero, not_lt.mp hmax, by simpa using hvalid, by simpa using hepr⟩
  by_contra hother
  exact hfixed ⟨honly, hother⟩

theorem takes_iff {j : Nat} {q : Pdo} : takes b (i, pdo) (j, q) = true ↔
    ((if b.preferLowVoltage = true then decide ((clampedUw b pdo : Int) = clampedUw b q ∧ volt pdo < volt q)
      else if b.preferHighVoltage = true then decide ((clampedUw b pdo : Int) = clampedUw b q ∧ volt q < volt pdo)
      else false) = true ∨ (clampedUw b q : Int) < clampedUw b pdo) := by
  rw [takes, decide_eq_true_iff, prefers, or_comm]
  refine or_congr ?_ Int.ofNat_lt.symm
  split
  · simp
  · split <;> simp

theorem selectStep_of_admissible (h : Admissible b maxMv i pdo) (best : Option (Nat × Pdo)) :
    selectStep b (min maxMv b.maxVoltageMv) (toBest b best) i pdo =
      toBest b (Lib.select (takes b) best (i, pdo)) := by
  have hfixed : ¬(b.onlyFixedPdos = true ∧ pdoType pdo ≠ .fixed) := fun hboth => hboth.2 (h.fixed hboth.1)
  have huw : (min ((pdExtractPdoPower b pdo).ma * volt pdo) (b.maxPowerMw * 1000) : Int) = clampedUw b pdo := by
    rw [clampedUw]
    omega
  unfold selectStep
  simp only [pdExtractPdoPower_maxMv, huw]
  rw [if_neg hfixed, if_neg h.supported, if_neg h.nonzero.ne', if_neg (by simp [h.notEpr]), if_neg (by simp [h.valid]),
    if_neg (not_lt.mpr h.voltage)]
  cases best with
  | none =>
    have hfirst : (toBest b none).curUw < clampedUw b pdo := by
      show (-1 : Int) < clampedUw b pdo
      omega
    rw [if_pos (Or.inr hfirst)]
    rfl
  | some x =>
    obtain ⟨j, q⟩ := x
    have hcond := @takes_iff b i pdo j q
    have hselect : Lib.select (takes b) (some (j, q)) (i, pdo) =
        if takes b (i, pdo) (j, q) then some (i, pdo) else some (j, q) :=
      rfl
    rw [hselect]
    by_cases htakes : takes b (i, pdo) (j, q) = true
    · rw [if_pos htakes]
      exact if_pos (hcond.mp htakes)
    · rw [if_neg htakes]
      exact if_neg fun hc => htakes (hcond.mpr hc)

theorem selectFrom_eq (best : Option (Nat × Pdo)) :
    selectFrom b (min maxMv b.maxVoltageMv) i srcCaps (toBest b best) =
      toBest b ((offers b maxMv i srcCaps).foldl (Lib.select (takes b)) best) := by
  induction srcCaps generalizing i best with
  | nil => rfl
  | cons pdo rest ih =>
    rw [selectFrom, offers, List.zipIdx_cons, List.map_cons, List.filter_cons]
    by_cases h : Admissible b maxMv i pdo
    · rw [if_pos (by simpa using h), List.foldl_cons, selectStep_of_admissible h]
      exact ih _
    · rw [if_neg (by simpa using h), selectStep_of_not h]
      exact ih _

theorem mem_offers {x : Nat × Pdo} :
    x ∈ offers b maxMv 0 srcCaps ↔ srcCaps[x.1]? = some x.2 ∧ Admissible b maxMv x.1 x.2 := by
  rw [offers, List.mem_filter, decide_eq_true_iff]
  refine and_congr_left fun _ => ?_
  obtain ⟨j, q⟩ := x
  simp [List.mem_zipIdx_iff_getElem?]

theorem offers_rising : (offers b maxMv i srcCaps).Pairwise fun x y => x.1 < y.1 := by
  refine List.Pairwise.filter _ ?_
  induction srcCaps generalizing i with
  | nil => exact List.Pairwise.nil
  | cons pdo rest ih =>
    rw [List.zipIdx_cons, List.map_cons]
    refine List.pairwise_cons.mpr ⟨fun x hx => ?_, ih⟩
    obtain ⟨y, hy, rfl⟩ := List.mem_map.mp hx
    exact List.le_snd_of_mem_zipIdx hy

/-! ## The order -/

/-- Less power, or as much and not preferred; behind it if it is as good. -/
def le (b : Board) (x r : Nat × Pdo) : Prop :=
  clampedUw b x.2 < clampedUw b r.2 ∨
    clampedUw b x.2 = clampedUw b r.2 ∧ ¬prefers b x.2 r.2 ∧ (¬prefers b r.2 x.2 → r.1 ≤ x.1)

theorem prefers_trichotomy (x y z : Pdo) :
    (¬prefers b x y → ¬prefers b y z → ¬prefers b x z) ∧
      (¬prefers b z x → ¬prefers b x y → ¬prefers b y z → ¬prefers b z y ∧ ¬prefers b y x) ∧
        ¬(prefers b x y ∧ prefers b y x) := by
  unfold prefers
  split
  · omega
  · split
    · omega
    · simp

theorem takes_follows : Lib.FollowsAlong (fun x y : Nat × Pdo => x.1 < y.1) (takes b) (le b) where
  refl x := Or.inr ⟨rfl, fun h => (prefers_trichotomy x.2 x.2 x.2).2.2 ⟨h, h⟩, fun _ => le_refl _⟩
  trans := by
    intro x y z hxy hyz
    obtain ⟨hnone, hback, -⟩ := @prefers_trichotomy b x.2 y.2 z.2
    rcases hxy with hxy | ⟨hxy, hpref, hplace⟩
    · rcases hyz with hyz | ⟨hyz, -, -⟩
      · exact Or.inl (hxy.trans hyz)
      · exact Or.inl (hxy.trans_eq hyz)
    · rcases hyz with hyz | ⟨hyz, hpref', hplace'⟩
      · exact Or.inl (hxy.trans_lt hyz)
      · refine Or.inr ⟨hxy.trans hyz, hnone hpref hpref', fun hzx => ?_⟩
        obtain ⟨hzy, hyx⟩ := hback hzx hpref hpref'
        exact (hplace' hzy).trans (hplace hyx)
  taken := by
    intro x best _ htake
    rw [takes, decide_eq_true_iff] at htake
    rcases htake with hlt | ⟨heq, hpref⟩
    · exact Or.inl hlt
    · exact Or.inr ⟨heq.symm, fun hback => (prefers_trichotomy x.2 best.2 x.2).2.2 ⟨hpref, hback⟩,
        fun hno => absurd hpref hno⟩
  left := by
    intro x best hplace htake
    have hnot : ¬(clampedUw b best.2 < clampedUw b x.2 ∨ clampedUw b x.2 = clampedUw b best.2 ∧ prefers b x.2 best.2) :=
      of_decide_eq_false htake
    rcases Nat.lt_trichotomy (clampedUw b x.2) (clampedUw b best.2) with hlt | heq | hgt
    · exact Or.inl hlt
    · exact Or.inr ⟨heq, fun hpref => hnot (Or.inr ⟨heq, hpref⟩), fun _ => hplace.le⟩
    · exact absurd (Or.inl hgt) hnot

/-! ## The result -/

theorem pdSelectBestPdo_eq : pdSelectBestPdo b srcCaps maxMv =
    (toBest b ((offers b maxMv 0 srcCaps).foldl (Lib.select (takes b)) none)).ret :=
  congrArg Best.ret (selectFrom_eq none)

/-- The result is -1 when no PDO is admissible, and else the place of the best one. -/
theorem pdSelectBestPdo_spec (b : Board) (srcCaps : List Pdo) (maxMv : Int) :
    (pdSelectBestPdo b srcCaps maxMv = -1 ↔ ∀ i pdo, srcCaps[i]? = some pdo → ¬Admissible b maxMv i pdo) ∧
      (pdSelectBestPdo b srcCaps maxMv ≠ -1 → ∃ i pdo, pdSelectBestPdo b srcCaps maxMv = (i : Nat) ∧
        IsBest b maxMv srcCaps i pdo) := by
  rw [pdSelectBestPdo_eq]
  cases hscan : (offers b maxMv 0 srcCaps).foldl (Lib.select (takes b)) none with
  | none =>
    have hnone := (Lib.foldl_select_none hscan).2
    refine ⟨iff_of_true rfl fun i pdo hoffered hadm => ?_, fun hne => absurd rfl hne⟩
    have hmem : (i, pdo) ∈ offers b maxMv 0 srcCaps := mem_offers.mpr ⟨hoffered, hadm⟩
    rw [hnone] at hmem
    cases hmem
  | some r =>
    obtain ⟨i, pdo⟩ := r
    have hgreatest := Lib.foldl_select_greatest_along takes_follows _ offers_rising hscan
    obtain ⟨hoffered, hadm⟩ := mem_offers.mp (hgreatest.mem.resolve_left fun h => by cases h)
    have hret : (toBest b (some (i, pdo))).ret ≠ -1 := by
      show (i : Int) ≠ -1
      omega
    have hle : ∀ j q, srcCaps[j]? = some q → Admissible b maxMv j q → le b (j, q) (i, pdo) :=
      fun j q hj hq => hgreatest.all _ (mem_offers.mpr ⟨hj, hq⟩)
    refine ⟨iff_of_false hret fun hall => hall i pdo hoffered hadm, fun _ => ⟨i, pdo, rfl, hoffered, hadm, ?_, ?_, ?_⟩⟩
    · intro j q hj hq
      rcases hle j q hj hq with hlt | ⟨heq, -, -⟩
      · exact hlt.le
      · exact heq.le
    · intro j q hj hq heq
      exact ((hle j q hj hq).resolve_left heq.not_lt).2.1
    · intro j q hj hq heq
      exact ((hle j q hj hq).resolve_left heq.not_lt).2.2

end ChromeEc.PdRequest
