import ChromeEc.Lib.Tlv
import ChromeEc.Cbi.SetInfo
import ChromeEc.Cbi.Parsing

/- Images that hold entries one behind the other.

  What is proved: in such an image (`Packed`) the chain of headers is that of the entries
  (`Packed.headers_eq`) and the walk finds the entry of a key (`Packed.find_split`,
  `Packed.find_none`); and cbi_set_board_info with a tag below 256 stores the value among the
  entries (`Packed.cbiSetBoardInfo`). -/
namespace ChromeEc.Cbi

open ChromeEc.Lib.Memory ChromeEc.Lib.Tlv

abbrev Entries := List (UInt8 × List UInt8)

/-- The bytes of the entries. -/
def cells (l : Entries) : List UInt8 := encode UInt8.ofNat l

/-- The image holds these entries up to total_size. -/
structure Packed (m : Image) (l : Entries) : Prop where
  total : totalSize m = sizeofHeader + (cells l).length
  data : Holds m sizeofHeader (cells l)
  nodup : (l.map Prod.fst).Nodup
  sizes : ∀ e ∈ l, 0 < e.2.length ∧ e.2.length < 256

def starts : Nat → Entries → List Nat
  | _, [] => []
  | p, (_, v) :: l => p :: starts (p + sizeofData + v.length) l

variable {m m' : Image} {l pre post : Entries} {k : UInt8} {v old : List UInt8} {p d fuel : Nat} {tag : UInt32}
  {cfg : Config} {buf : Nat → UInt8} {size8 : UInt8}

/-! ## The chain of the entries -/

theorem length_cells_cons : (cells ((k, v) :: l)).length = sizeofData + v.length + (cells l).length :=
  length_encode_cons

theorem holds_cells_cons : Holds m p (cells ((k, v) :: l)) ↔
    dataTag m p = k ∧ m (p + 1) = UInt8.ofNat v.length ∧ Holds m (p + sizeofData) v ∧
      Holds m (p + sizeofData + v.length) (cells l) := by
  rw [cells, encode, holds_cons, holds_cons, holds_append]
  exact Iff.rfl

theorem cells_singleton : cells [(k, v)] = k :: UInt8.ofNat v.length :: v := encode_singleton

theorem cells_append : cells (pre ++ post) = cells pre ++ cells post := encode_append

theorem starts_append : starts p (pre ++ post) = starts p pre ++ starts (p + (cells pre).length) post := by
  induction pre generalizing p with
  | nil => simp [starts, cells, encode]
  | cons e pre ih =>
    obtain ⟨k, v⟩ := e
    have hpos : p + (cells ((k, v) :: pre)).length = p + sizeofData + v.length + (cells pre).length := by
      rw [length_cells_cons]
      omega
    rw [List.cons_append, starts, ih, starts, hpos, List.cons_append]

theorem dataSize_of_count (h : m (d + 1) = UInt8.ofNat v.length) (hlength : v.length < 256) :
    dataSize m d = v.length := by
  rw [dataSize, h, UInt8.toNat_ofNat']
  exact Nat.mod_eq_of_lt hlength

theorem headersFrom_eq_starts (htotal : totalSize m = p + (cells l).length) (hdata : Holds m p (cells l))
    (hsizes : ∀ e ∈ l, 0 < e.2.length ∧ e.2.length < 256) (hfuel : (cells l).length ≤ fuel) :
    headersFrom m fuel p = starts p l := by
  induction l generalizing p fuel with
  | nil =>
    have hend : totalSize m = p := by simpa [cells, encode] using htotal
    cases fuel with
    | zero => rfl
    | succ fuel => simp [headersFrom, starts, hend, sizeofData]
  | cons e l ih =>
    obtain ⟨k, v⟩ := e
    have hpos : 0 < v.length := (hsizes (k, v) List.mem_cons_self).1
    obtain ⟨-, hcount, -, hrest⟩ := holds_cells_cons.mp hdata
    rw [length_cells_cons] at htotal hfuel
    cases fuel with
    | zero =>
      rw [sizeofData] at hfuel
      omega
    | succ fuel =>
      have hend : entryEnd m p = p + sizeofData + v.length := by
        rw [entryEnd, dataSize_of_count hcount (hsizes (k, v) List.mem_cons_self).2]
      have hin : p + sizeofData < totalSize m := by omega
      have hfuel' : (cells l).length ≤ fuel := by
        rw [sizeofData] at hfuel
        omega
      rw [headersFrom, if_pos hin, starts, hend]
      rw [ih (by omega) hrest (fun e he => hsizes e (List.mem_cons_of_mem _ he)) hfuel']

theorem map_starts (hdata : Holds m p (cells l)) (hsizes : ∀ e ∈ l, 0 < e.2.length ∧ e.2.length < 256) :
    (starts p l).map (dataTag m) = l.map Prod.fst ∧
      (starts p l).map (fun d => sizeofData + dataSize m d) = l.map fun e => 2 + e.2.length := by
  induction l generalizing p with
  | nil => exact ⟨rfl, rfl⟩
  | cons e l ih =>
    obtain ⟨k, v⟩ := e
    obtain ⟨htag, hcount, -, hrest⟩ := holds_cells_cons.mp hdata
    obtain ⟨htags, hcounts⟩ := ih hrest fun e he => hsizes e (List.mem_cons_of_mem _ he)
    have hsize := dataSize_of_count hcount (hsizes (k, v) List.mem_cons_self).2
    refine ⟨?_, ?_⟩
    · rw [starts, List.map_cons, htags, htag, List.map_cons]
    · rw [starts, List.map_cons, hcounts, hsize, List.map_cons, sizeofData]

theorem Packed.headers_eq (h : Packed m l) : headers m = starts sizeofHeader l :=
  headersFrom_eq_starts h.total h.data h.sizes (by rw [h.total]; omega)

theorem Packed.tags_nodup (h : Packed m l) : ((headers m).map (dataTag m)).Nodup := by
  rw [h.headers_eq, (map_starts h.data h.sizes).1]
  exact h.nodup

theorem Packed.totalSize_eq_sum (h : Packed m l) :
    totalSize m = sizeofHeader + ((headers m).map fun d => sizeofData + dataSize m d).sum := by
  rw [h.headers_eq, (map_starts h.data h.sizes).2, ← @length_encode _ UInt8.ofNat _]
  exact h.total

/-! ## The walk finds the key -/

theorem Packed.mem_keys (h : Packed m (pre ++ post)) (hd : d ∈ starts sizeofHeader pre) :
    dataTag m d ∈ pre.map Prod.fst := by
  have hdata := h.data
  rw [cells_append, holds_append] at hdata
  have hsizes : ∀ e ∈ pre, 0 < e.2.length ∧ e.2.length < 256 := fun e he => h.sizes e (List.mem_append_left _ he)
  rw [← (map_starts hdata.1 hsizes).1]
  exact List.mem_map_of_mem hd

theorem Packed.find_none (h : Packed m l) (habsent : ∀ e ∈ l, e.1.toUInt32 ≠ tag) : cbiFindTag m tag = none := by
  rw [cbiFindTag_eq, List.find?_eq_none, h.headers_eq]
  intro d hd htag
  have hmem := @Packed.mem_keys _ l [] _ (by rwa [List.append_nil]) hd
  obtain ⟨e, he, hkey⟩ := List.mem_map.mp hmem
  have hne := habsent e he
  rw [hkey] at hne
  simp [hasTag, hne] at htag

/-- What an entry in the middle says about the image. -/
structure Split (m : Image) (pre : Entries) (k : UInt8) (v : List UInt8) (post : Entries) (d : Nat) : Prop where
  before : Holds m sizeofHeader (cells pre)
  tag : dataTag m d = k
  count : m (d + 1) = UInt8.ofNat v.length
  size : dataSize m d = v.length
  value : Holds m (d + sizeofData) v
  behind : Holds m (d + sizeofData + v.length) (cells post)
  total : totalSize m = d + sizeofData + v.length + (cells post).length

theorem Packed.split (h : Packed m (pre ++ (k, v) :: post)) :
    Split m pre k v post (sizeofHeader + (cells pre).length) := by
  have hdata := h.data
  rw [cells_append, holds_append] at hdata
  obtain ⟨htag, hcount, hvalue, hbehind⟩ := holds_cells_cons.mp hdata.2
  have hsize := (h.sizes (k, v) (List.mem_append_right _ List.mem_cons_self)).2
  refine ⟨hdata.1, htag, hcount, dataSize_of_count hcount hsize, hvalue, hbehind, ?_⟩
  rw [h.total, cells_append, List.length_append, length_cells_cons]
  omega

theorem Packed.find_split (h : Packed m (pre ++ (k, v) :: post)) (hfirst : k ∉ pre.map Prod.fst) :
    cbiFindTag m k.toUInt32 = some (sizeofHeader + (cells pre).length) := by
  have hchain : headers m = starts sizeofHeader pre ++ (sizeofHeader + (cells pre).length) ::
      starts (sizeofHeader + (cells pre).length + sizeofData + v.length) post := by
    rw [h.headers_eq, starts_append, starts]
  refine cbiFindTag_some_iff.mpr ⟨?_, _, _, hchain, ?_⟩
  · rw [hasTag, beq_iff_eq]
    exact congrArg UInt8.toUInt32 h.split.tag
  · intro e he
    have hmem := h.mem_keys he
    have hne : dataTag m e ≠ k := fun heq => hfirst (heq ▸ hmem)
    have hne' : (dataTag m e).toUInt32 ≠ k.toUInt32 := fun heq => hne (UInt8.toUInt32_inj.mp heq)
    simpa [hasTag] using hne'

/-! ## Storing a value -/

theorem toUInt8_toUInt32_of_lt (h : tag.toNat < 256) : tag.toUInt8.toUInt32 = tag := by
  rw [← UInt32.toNat_inj, UInt8.toNat_toUInt32, UInt32.toNat_toUInt8]
  exact Nat.mod_eq_of_lt h

def valueOf (buf : Nat → UInt8) (size : Nat) : List UInt8 := (List.range size).map buf

@[simp] theorem length_valueOf {size : Nat} : (valueOf buf size).length = size := by simp [valueOf]

theorem Packed.congr (h : Packed m l) (htotal : totalSize m' = totalSize m)
    (hdata : ∀ i, sizeofHeader ≤ i → i < totalSize m → m' i = m i) : Packed m' l where
  total := htotal.trans h.total
  data := h.data.congr fun a hlo hhi => hdata a hlo (by rw [h.total]; omega)
  nodup := h.nodup
  sizes := h.sizes

theorem Packed.appended (h : Packed m l) (habsent : tag.toUInt8 ∉ l.map Prod.fst) (hpos : 0 < size8.toNat)
    (hfits : totalSize m + sizeofData + size8.toNat ≤ cfg.imageSize) :
    Packed (appended m tag buf size8.toNat) (l ++ [(tag.toUInt8, valueOf buf size8.toNat)]) := by
  have hne : size8.toNat ≠ 0 := by omega
  have hheader : sizeofHeader ≤ totalSize m := by rw [h.total]; omega
  refine ⟨?_, ?_, (Put.append habsent).nodup h.nodup, ?_⟩
  · rw [totalSize_appended hne hfits, cells_append, List.length_append, length_cells_cons, length_valueOf, h.total]
    have hnil : (cells []).length = 0 := rfl
    omega
  · rw [cells_append, holds_append]
    refine ⟨h.data.congr fun a hlo hhi => ?_, ?_⟩
    · rw [sizeofHeader] at hlo
      exact appended_below (by rw [h.total]; exact hhi) (by omega) (by omega)
    · have hentry := @appended_entry _ tag buf _ hne hheader
      rw [cells_singleton, length_valueOf, ← h.total]
      exact hentry
  · intro e he
    rcases List.mem_append.mp he with hold | hnew
    · exact h.sizes e hold
    · rw [List.mem_singleton] at hnew
      subst hnew
      exact ⟨by simpa using hpos, by simpa using size8.toNat_lt⟩

theorem Packed.overwritten (h : Packed m (pre ++ (k, old) :: post)) (hlength : old.length = size8.toNat)
    (hfirst : k ∉ pre.map Prod.fst) :
    Packed (copy m (sizeofHeader + (cells pre).length + sizeofData) size8.toNat buf)
      (pre ++ (k, valueOf buf size8.toNat) :: post) := by
  have hput : Put k (valueOf buf size8.toNat) (pre ++ (k, old) :: post) (pre ++ (k, valueOf buf size8.toNat) :: post) :=
    .overwrite (by rw [hlength, length_valueOf]) hfirst
  have hsplit := h.split
  refine ⟨?_, ?_, hput.nodup h.nodup, ?_⟩
  · rw [totalSize_of_header fun i hi => copy_of_lt (by omega), hsplit.total, cells_append, List.length_append,
      length_cells_cons, hlength, length_valueOf]
    omega
  · rw [cells_append, holds_append]
    refine ⟨hsplit.before.copy_of_disjoint (.inl (by omega)), holds_cells_cons.mpr ⟨?_, ?_, ?_, ?_⟩⟩
    · rw [dataTag, copy_of_lt (by simp [sizeofData])]
      exact hsplit.tag
    · rw [copy_of_lt (by simp [sizeofData]), hsplit.count, hlength, length_valueOf]
    · have hvalue := @Holds.copy_self _ m (sizeofHeader + (cells pre).length + sizeofData) (valueOf buf size8.toNat) buf
        fun i hi => by simp [valueOf]
      rwa [length_valueOf] at hvalue
    · have hbehind := hsplit.behind
      rw [hlength] at hbehind
      rw [length_valueOf]
      exact hbehind.copy_of_disjoint (.inr (Nat.le_refl _))
  · intro e he
    rcases List.mem_append.mp he with hold | hmid
    · exact h.sizes e (List.mem_append_left _ hold)
    · rcases List.mem_cons.mp hmid with rfl | hold
      · have hsize := h.sizes (k, old) (List.mem_append_right _ List.mem_cons_self)
        simpa [← hlength] using hsize
      · exact h.sizes e (List.mem_append_right _ (List.mem_cons_of_mem _ hold))

theorem Packed.removed (h : Packed m (pre ++ (k, old) :: post)) :
    Packed (cbiRemoveTag m (sizeofHeader + (cells pre).length)) (pre ++ post) := by
  have hsplit := h.split
  have htotal := hsplit.total
  have hmax := totalSize_lt (m := m)
  have hmoved : (bytesAfter m (sizeofHeader + (cells pre).length) % 2 ^ 32).toNat = (cells post).length := by
    rw [bytesAfter, hsplit.size, htotal]
    omega
  have hstay : ∀ a, sizeofHeader ≤ a → cbiRemoveTag m (sizeofHeader + (cells pre).length) a =
      move m (sizeofHeader + (cells pre).length) (sizeofHeader + (cells pre).length + sizeofData + old.length)
        (cells post).length a := by
    intro a hlo
    rw [cbiRemoveTag, setTotalSize_data hlo, hmoved, hsplit.size, ← Nat.add_assoc]
  have hkeys : ((pre ++ post).map Prod.fst).Nodup := by
    have hapart := h.nodup
    rw [List.map_append, List.map_cons] at hapart
    rw [List.map_append]
    exact (List.nodup_cons.mp (List.nodup_middle.mp hapart)).2
  refine ⟨?_, ?_, hkeys, fun e he => h.sizes e ?_⟩
  · rw [totalSize_cbiRemoveTag, hsplit.size, htotal, cells_append, List.length_append]
    omega
  · rw [cells_append, holds_append]
    refine ⟨?_, ?_⟩
    · exact (hsplit.before.copy_of_disjoint (.inl (Nat.le_refl _))).congr fun a hlo _ => hstay a hlo
    · exact hsplit.behind.move_self.congr fun a hlo _ => hstay a (by omega)
  · rcases List.mem_append.mp he with hpre | hpost
    · exact List.mem_append_left _ hpre
    · exact List.mem_append_right _ (List.mem_cons_of_mem _ hpost)

/-- cbi_set_board_info with a tag below 256 stores the value. -/
theorem Packed.cbiSetBoardInfo (h : Packed m l) (htag : tag.toNat < 256) (hpos : 0 < size8.toNat)
    (hset : cbiSetBoardInfo cfg m tag buf size8 = (.success, m')) :
    ∃ l', Packed m' l' ∧ Put tag.toUInt8 (valueOf buf size8.toNat) l l' := by
  have hkey := toUInt8_toUInt32_of_lt htag
  cases hlookup : l.lookup tag.toUInt8 with
  | none =>
    have habsent : tag.toUInt8 ∉ l.map Prod.fst := by
      intro hmem
      obtain ⟨e, he, heq⟩ := List.mem_map.mp hmem
      have hne := List.lookup_eq_none_iff.mp hlookup e he
      rw [heq] at hne
      simp at hne
    have hfind : cbiFindTag m tag = none := h.find_none fun e he heq => habsent <| by
      rw [← heq, UInt8.toUInt8_toUInt32]
      exact List.mem_map_of_mem he
    rw [cbiSetBoardInfo_absent hfind] at hset
    by_cases hfits : totalSize m + sizeofData + size8.toNat ≤ cfg.imageSize
    · rw [appendItem_fits hfits] at hset
      cases hset
      exact ⟨_, h.appended habsent hpos hfits, .append habsent⟩
    · rw [appendItem_overflow (by omega)] at hset
      cases hset
  | some old =>
    obtain ⟨pre, post, rfl, hfirst⟩ := exists_split hlookup
    have hfind := h.find_split hfirst
    have hsize := h.split.size
    rw [hkey] at hfind
    cases hallowed : setOnce cfg tag with
    | true =>
      rw [cbiSetBoardInfo_denied hfind hallowed] at hset
      cases hset
    | false =>
      by_cases hsame : dataSize m (sizeofHeader + (cells pre).length) = size8.toNat
      · rw [cbiSetBoardInfo_overwritten hfind hallowed hsame] at hset
        cases hset
        have hlength : old.length = size8.toNat := hsize.symm.trans hsame
        exact ⟨_, h.overwritten hlength hfirst, .overwrite (by rw [hlength, length_valueOf]) hfirst⟩
      · rw [cbiSetBoardInfo_replaced hfind hallowed hsame] at hset
        have hremoved := h.removed
        have habsent : tag.toUInt8 ∉ (pre ++ post).map Prod.fst := by
          have hapart := h.nodup
          rw [List.map_append, List.map_cons] at hapart
          rw [List.map_append]
          exact (List.nodup_cons.mp (List.nodup_middle.mp hapart)).1
        by_cases hfits : totalSize (cbiRemoveTag m (sizeofHeader + (cells pre).length)) + sizeofData + size8.toNat ≤
            cfg.imageSize
        · rw [appendItem_fits hfits] at hset
          cases hset
          exact ⟨_, hremoved.appended habsent hpos hfits, .replace hfirst⟩
        · rw [appendItem_overflow (by omega)] at hset
          cases hset

theorem packed_bareHeader {n : Nat} : Packed (bareHeader m n) [] where
  total := totalSize_bareHeader
  data := holds_nil
  nodup := List.nodup_nil
  sizes := fun _ he => absurd he List.not_mem_nil

theorem Packed.updateFormat (h : Packed m l) : Packed (updateFormat m) l :=
  h.congr totalSize_updateFormat fun _ hlo _ => updateFormat_data (Nat.le_trans (by decide) hlo)

end ChromeEc.Cbi
