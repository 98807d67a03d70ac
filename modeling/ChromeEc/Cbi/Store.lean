import ChromeEc.Lib.Steps
import ChromeEc.Cbi.Packed

/- The board info as a store of values under tags.

  The tag of a request is 32 bits wide and that of an entry 8. cbi_set_data cuts the tag of
  the request down, cbi_find_tag compares it as it is.

  What is proved: after every run of requests that set values under tags below 256, the
  image is the store that the requests describe (`store_laws`): each value is read back as
  it was last set, no tag stands twice, and total_size is that of the header and the entries.
  A value set under tag 256 is not found again (`wide_tag_lost`). -/
namespace ChromeEc.Cbi

open ChromeEc.Lib ChromeEc.Lib.Memory ChromeEc.Lib.Tlv

/-- What a board info store is for. -/
abbrev Store := UInt32 → Option (List UInt8)

def emptyStore : Store := fun _ => none

/-! ## Runs of requests -/

def Request.tag : Request → UInt32
  | .direct tag _ _ => tag
  | .command _ p => p.tag

def Request.size : Request → Nat
  | .direct _ _ size => size.toNat
  | .command _ p => p.size.toNat

def Request.value : Request → List UInt8
  | .direct _ buf size => valueOf buf size.toNat
  | .command _ p => valueOf p.data p.size.toNat

/-- CBI_SET_INIT: all fields are dropped first. -/
def Request.init : Request → Bool
  | .direct _ _ _ => false
  | .command _ p => p.init

/-- A request with what the storage answers meanwhile. -/
abbrev Label := Storage × Storage × Request

/-- A request whose call of cbi_set_board_info succeeds. The write to storage may fail behind it. -/
def step (cfg : Config) (i : Label) (c : Cache) : Option Cache :=
  match serve cfg i.1 i.2.1 c i.2.2 with
  | (.success, c) => some c
  | (.resError, c) => some c
  | _ => none

def written (i : Label) (s : Store) : Store :=
  Function.update (if i.2.2.init then emptyStore else s) i.2.2.tag (some i.2.2.value)

/-- One to 255 bytes are set. -/
def SizeInRange (i : Label) : Prop := 0 < i.2.2.size ∧ i.2.2.size < 256

def TagInRange (i : Label) : Prop := i.2.2.tag.toNat < 256

/-- The images that the code creates: by cbi_create, or by a request that sets a first value. -/
inductive Created (cfg : Config) : Cache → Store → Prop where
  | create (c : Cache) : Created cfg (cbiCreate cfg c) emptyStore
  | init {c c' : Cache} {i : Label} (hinit : i.2.2.init = true) (hset : step cfg i c = some c')
      (hsize : SizeInRange i) (htag : TagInRange i) : Created cfg c' (written i emptyStore)

structure StoreLaws (cfg : Config) (c : Cache) (s : Store) : Prop where
  get : ∀ tag v, s tag = some v → ∀ drv drv' buf size, v.length ≤ size.toNat → ∃ out count,
    cbiGetBoardInfo cfg drv drv' c tag buf size = ((.success, out, count), c) ∧ count.toNat = v.length ∧ Holds out 0 v
  absent : ∀ tag, s tag = none → ∀ drv drv' buf size,
    cbiGetBoardInfo cfg drv drv' c tag buf size = ((.errorUnknown, buf, size), c)
  once : ((headers c.image).map (dataTag c.image)).Nodup
  total : totalSize c.image = sizeofHeader + ((headers c.image).map fun d => sizeofData + dataSize c.image d).sum

variable {cfg : Config} {c c' : Cache} {s : Store} {i : Label} {l : Entries} {drv drv' : Storage}

/-! ## The image represents the store -/

/-- The entries of the image are those of the store. -/
structure Represents (c : Cache) (l : Entries) (s : Store) : Prop where
  synced : c.synced = true
  packed : Packed c.image l
  lookup : ∀ tag, s tag = if tag.toNat < 256 then l.lookup tag.toUInt8 else none

theorem cbiGetBoardInfo_synced (h : c.synced = true) (tag : UInt32) (buf : Nat → UInt8) (size : UInt8) :
    cbiGetBoardInfo cfg drv drv' c tag buf size = (getFromImage c.image tag buf size, c) := by
  rw [cbiGetBoardInfo, cbiRead, if_pos h]

theorem Represents.storeLaws (h : Represents c l s) : StoreLaws cfg c s where
  get tag v hv drv drv' buf size hroom := by
    rw [h.lookup] at hv
    split at hv
    · rename_i htag
      obtain ⟨pre, post, rfl, hfirst⟩ := exists_split hv
      have hsplit := h.packed.split
      have hfind := h.packed.find_split hfirst
      rw [toUInt8_toUInt32_of_lt htag] at hfind
      have hread := @getFromImage_found _ _ _ buf _ hfind (hsplit.size.trans_le hroom)
      rw [cbiGetBoardInfo_synced h.synced, hread]
      refine ⟨_, _, rfl, hsplit.size, ?_⟩
      rw [hsplit.size]
      exact Holds.copy_self fun i hi => hsplit.value i hi
    · cases hv
  absent tag hnone drv drv' buf size := by
    have hfind : cbiFindTag c.image tag = none := by
      apply h.packed.find_none
      rintro e he rfl
      rw [h.lookup, if_pos (by simpa using e.1.toNat_lt)] at hnone
      have hne := List.lookup_eq_none_iff.mp hnone e he
      simp at hne
    rw [cbiGetBoardInfo_synced h.synced]
    simp only [getFromImage, hfind]
  once := h.packed.tags_nodup
  total := h.packed.totalSize_eq_sum

/-! ## One request -/

theorem lookup_put {s : Store} {l l' : Entries} {tag : UInt32} {v : List UInt8} (htag : tag.toNat < 256)
    (hput : Put tag.toUInt8 v l l') (hnodup : (l.map Prod.fst).Nodup)
    (h : ∀ t, s t = if t.toNat < 256 then l.lookup t.toUInt8 else none) (t : UInt32) :
    Function.update s tag (some v) t = if t.toNat < 256 then l'.lookup t.toUInt8 else none := by
  have hchanged := congrFun (hput.lookup hnodup) t.toUInt8
  by_cases hsame : t = tag
  · subst hsame
    rw [Function.update_self] at hchanged ⊢
    rw [if_pos htag, hchanged]
  · rw [Function.update_of_ne hsame, h]
    split
    · rename_i hlow
      have hkey : t.toUInt8 ≠ tag.toUInt8 := by
        intro heq
        apply hsame
        rw [← toUInt8_toUInt32_of_lt hlow, heq, toUInt8_toUInt32_of_lt htag]
      rw [hchanged, Function.update_of_ne hkey]
    · rfl

theorem setAndWrite_packed {p : SetParams} {rv : Rv} (hpacked : Packed c.image l) (htag : p.tag.toNat < 256)
    (hpos : 0 < p.size.toNat) (hbyte : p.size.toNat < 256) (h : setAndWrite cfg drv c p = (rv, c'))
    (hrv : rv ≠ .resInvalidParam) :
    c'.synced = true ∧ ∃ l', Packed c'.image l' ∧ Put p.tag.toUInt8 (valueOf p.data p.size.toNat) l l' := by
  have hsize : p.size.toUInt8.toNat = p.size.toNat := by
    rw [UInt32.toNat_toUInt8]
    exact Nat.mod_eq_of_lt hbyte
  cases hset : cbiSetBoardInfo cfg c.image p.tag p.data p.size.toUInt8 with
  | mk rv' m =>
    by_cases hsuccess : rv' = .success
    · subst hsuccess
      have hcache := (@setAndWrite_of_success _ _ drv _ _ hset).1
      rw [h] at hcache
      obtain ⟨l', hpacked', hput⟩ := hpacked.cbiSetBoardInfo htag (by omega) hset
      rw [hsize] at hput
      exact ⟨congrArg Cache.synced hcache, l', congrArg Cache.image hcache ▸ hpacked'.updateFormat, hput⟩
    · rw [setAndWrite_of_error hset hsuccess] at h
      cases h
      exact absurd rfl hrv

/-- A command that sets the value does so in the cached image or in a fresh one. -/
theorem hcCbiSet_sets {p : SetParams} {n : UInt16} {rv : Rv} (hsynced : p.init = false → c.synced = true)
    (h : hcCbiSet cfg drv drv' c n p = (rv, c')) (hrv : rv = .success ∨ rv = .resError) :
    setAndWrite cfg drv { c with image := if p.init then bareHeader c.image cfg.imageSize else c.image } p = (rv, c') := by
  rw [hcCbiSet] at h
  split at h
  · cases h
    simp at hrv
  · rw [commonCbiSet] at h
    split at h
    · cases h
      simp at hrv
    · cases hinit : p.init with
      | false =>
        have hread : imageToSet cfg drv drv' c p = (.success, c) := by
          rw [imageToSet, hinit, if_neg Bool.false_ne_true, cbiRead, if_pos (hsynced hinit)]
        simpa [hread] using h
      | true =>
        cases hlocked : (!cfg.systemUnlocked && isValidCbi cfg c.image) with
        | true =>
          have hread : imageToSet cfg drv drv' c p = (.resAccessDenied, c) := by
            rw [imageToSet, hinit, if_pos rfl, if_pos hlocked]
          simp only [hread] at h
          cases h
          simp at hrv
        | false =>
          have hread : imageToSet cfg drv drv' c p =
              (.success, { c with image := bareHeader c.image cfg.imageSize }) := by
            rw [imageToSet, hinit, if_pos rfl, hlocked, if_neg Bool.false_ne_true]
          simpa [hread] using h

theorem step_cases (h : step cfg i c = some c') :
    ∃ rv, serve cfg i.1 i.2.1 c i.2.2 = (rv, c') ∧ (rv = .success ∨ rv = .resError) := by
  rw [step] at h
  split at h
  · rename_i hserve
    cases h
    exact ⟨_, hserve, .inl rfl⟩
  · rename_i hserve
    cases h
    exact ⟨_, hserve, .inr rfl⟩
  · cases h

theorem cbiSetBoardInfo_ne_resError {m : Image} {tag : UInt32} {buf : Nat → UInt8} {size8 : UInt8} :
    (cbiSetBoardInfo cfg m tag buf size8).1 ≠ .resError := by
  have happend : ∀ m', (appendItem cfg m' tag buf size8.toNat).1 ≠ .resError := by
    intro m'
    rw [appendItem]
    split <;> simp
  rw [cbiSetBoardInfo]
  split
  · exact happend m
  · split
    · simp
    · split
      · exact happend _
      · simp

/-- A request that sets a value changes the store at its tag, or makes a store of the one value. -/
theorem represents_step (h : i.2.2.init = false → ∃ l, Represents c l s) (hsize : SizeInRange i) (htag : TagInRange i)
    (hstep : step cfg i c = some c') : ∃ l', Represents c' l' (written i s) := by
  obtain ⟨rv, hserve, hrv⟩ := step_cases hstep
  obtain ⟨drv, drv', r⟩ := i
  cases r with
  | direct tag buf size =>
    obtain ⟨l, hrep⟩ := h rfl
    cases hset : cbiSetBoardInfo cfg c.image tag buf size with
    | mk rv' m =>
      simp only [serve, hset, Prod.mk.injEq] at hserve
      obtain ⟨rfl, rfl⟩ := hserve
      rcases hrv with rfl | rfl
      · obtain ⟨l', hpacked, hput⟩ := hrep.packed.cbiSetBoardInfo htag hsize.1 hset
        exact ⟨l', hrep.synced, hpacked, lookup_put htag hput hrep.packed.nodup hrep.lookup⟩
      · exact absurd (congrArg Prod.fst hset) cbiSetBoardInfo_ne_resError
  | command n p =>
    have hcode : rv ≠ .resInvalidParam := by
      rintro rfl
      simp at hrv
    have hsets := hcCbiSet_sets (p := p) (fun hinit => (h hinit).elim fun _ hrep => hrep.synced) hserve hrv
    cases hinit : p.init with
    | false =>
      obtain ⟨l, hrep⟩ := h hinit
      rw [hinit] at hsets
      obtain ⟨hsynced, l', hpacked, hput⟩ := setAndWrite_packed hrep.packed htag hsize.1 hsize.2 hsets hcode
      have hlookup := lookup_put htag hput hrep.packed.nodup hrep.lookup
      exact ⟨l', hsynced, hpacked, by simpa [written, Request.init, Request.value, hinit] using hlookup⟩
    | true =>
      rw [hinit] at hsets
      obtain ⟨hsynced, l', hpacked, hput⟩ := setAndWrite_packed packed_bareHeader htag hsize.1 hsize.2 hsets hcode
      have hlookup := lookup_put (s := emptyStore) htag hput List.nodup_nil fun t => by simp [emptyStore]
      exact ⟨l', hsynced, hpacked, by simpa [written, Request.init, Request.value, hinit] using hlookup⟩

/-! ## Runs -/

theorem represents_created (h : Created cfg c s) : ∃ l, Represents c l s := by
  cases h with
  | create c₀ => exact ⟨[], rfl, packed_bareHeader.updateFormat, fun t => by simp [emptyStore]⟩
  | init hinit hset hsize htag =>
    exact represents_step (fun hnone => absurd (hinit.symm.trans hnone) (by simp)) hsize htag hset

/-- Every image that the code creates, and every run of requests that set values. -/
theorem store_laws {start : Cache} {s₀ : Store} {steps : List (Cache × Label)} (hcreated : Created cfg start s₀)
    (hrun : Steps.Run (step cfg) start steps c) (hsize : ∀ x ∈ steps, SizeInRange x.2)
    (htag : ∀ x ∈ steps, TagInRange x.2) : StoreLaws cfg c (steps.foldl (fun s x => written x.2 s) s₀) := by
  have hstep : ∀ c i c' s, (∃ l, Represents c l s) → SizeInRange i ∧ TagInRange i → step cfg i c = some c' →
      ∃ l, Represents c' l (written i s) :=
    fun _ _ _ _ hrep hok hstep => represents_step (fun _ => hrep) hok.1 hok.2 hstep
  have hok : ∀ x ∈ steps, SizeInRange x.2 ∧ TagInRange x.2 := fun x hx => ⟨hsize x hx, htag x hx⟩
  obtain ⟨l, hrep⟩ := hrun.refines (represents_created hcreated) hstep hok
  exact hrep.storeLaws

/-! ## Requests for one tag -/

def blankCache : Cache := { image := fun _ => 0, synced := false }

/-- A part number, and a longer one in its place, without a write to storage. -/
def partNumbers : List Label :=
  [(storageOf [], storageOf [], .direct 3 (fun _ => 0x41) 4),
    (storageOf [], storageOf [], .command 18 { tag := 3, flag := 1, size := 6, data := fun _ => 0x42 })]

theorem store_laws_partNumbers : ∃ r, Steps.trace (step eeprom) partNumbers ([], cbiCreate eeprom blankCache) = some r ∧
    StoreLaws eeprom r.2 (r.1.foldl (fun s x => written x.2 s) emptyStore) := by
  have hsome : (Steps.trace (step eeprom) partNumbers ([], cbiCreate eeprom blankCache)).isSome = true := by
    decide +kernel
  obtain ⟨r, hr⟩ := Option.isSome_iff_exists.mp hsome
  have hlabels := Steps.trace_labels hr
  have hrange : ∀ i ∈ partNumbers, SizeInRange i ∧ TagInRange i := by
    simp [partNumbers, SizeInRange, TagInRange, Request.size, Request.tag]
  have hmem : ∀ x ∈ r.1, x.2 ∈ partNumbers := by
    intro x hx
    have hx' := List.mem_map_of_mem (f := Prod.snd) hx
    rwa [hlabels] at hx'
  exact ⟨r, hr, store_laws (.create _) (Steps.Run.of_trace .start hr) (fun x hx => (hrange _ (hmem x hx)).1)
    fun x hx => (hrange _ (hmem x hx)).2⟩

theorem step_of_success (h : (serve cfg i.1 i.2.1 c i.2.2).1 = .success) :
    step cfg i c = some (serve cfg i.1 i.2.1 c i.2.2).2 := by
  rw [step]
  split
  · rename_i hserve
    rw [hserve]
  · rename_i hserve
    rw [hserve] at h
    cases h
  · rename_i hother _
    exact (hother _ (Prod.ext h rfl)).elim

def wideTag : Label := (storageOf [], storageOf [], .direct 256 (fun _ => 0x41) 1)

theorem wide_tag_lost : ¬ ∀ (cfg : Config) (start c : Cache) (s₀ : Store) (steps : List (Cache × Label)),
    Created cfg start s₀ → Steps.Run (step cfg) start steps c → (∀ x ∈ steps, SizeInRange x.2) →
    StoreLaws cfg c (steps.foldl (fun s x => written x.2 s) s₀) := by
  intro h
  have hset : (serve eeprom wideTag.1 wideTag.2.1 (cbiCreate eeprom blankCache) wideTag.2.2).1 = .success := by
    decide +kernel
  have hlaws := h eeprom _ _ _ _ (.create blankCache) (.step .start (step_of_success hset))
    (by simp [SizeInRange, wideTag, Request.size])
  obtain ⟨out, count, hget, -⟩ := hlaws.get 256 [0x41] (by simp [wideTag, written, Request.tag, Request.value, valueOf])
    (storageOf []) (storageOf []) (fun _ => 0) 1 (by decide)
  have hlost : (cbiGetBoardInfo eeprom (storageOf []) (storageOf [])
      (serve eeprom wideTag.1 wideTag.2.1 (cbiCreate eeprom blankCache) wideTag.2.2).2 256 (fun _ => 0) 1).1.1 =
      .errorUnknown := by decide +kernel
  rw [hget] at hlost
  cases hlost

end ChromeEc.Cbi
