import ChromeEc.Shmalloc.Invariant

/- `do_acquire` keeps the heap invariant. The search settles on the first free
  chunk with the least headroom (`findCandidate_spec`); the chunk is then taken
  out of the free chain whole (`takeWhole_spec`) or its tail stays behind in its
  place (`takeSplit_spec`), and `shared_mem_acquire` pushes it onto the allocated
  chain (`push_ok`). -/
namespace ChromeEc.Shmalloc
open Lib Links

/-! ## The search -/

/-- `c` is a tightest fit among the chunks `l`: it has room for `n`, and no chunk
with room for `n` is smaller. -/
def TightestFit (size : Nat → Nat) (l : List Nat) (n c : Nat) : Prop :=
  c ∈ l ∧ n ≤ size c ∧ ∀ a ∈ l, n ≤ size a → size c ≤ size a

theorem findCandidate_eq {s : Shm} {n : Nat} : ∀ {l : List Nat} {p fuel cand room : Nat},
    Seg s.links p l NULL → NULL ∉ l → l.length < fuel →
    ∃ c h, findCandidate s n fuel (l.headD NULL) cand room = pure (c, h) ∧
      ((c = cand ∧ h = room ∧ ∀ a ∈ l, n ≤ s.bufferSize a → room ≤ s.bufferSize a - n) ∨
        (TightestFit s.bufferSize l n c ∧ h = s.bufferSize c - n ∧ h < room)) := by
  intro l
  induction l with
  | nil =>
    intro p fuel cand room _ _ hf
    obtain ⟨fuel, rfl⟩ : ∃ k, fuel = k + 1 := ⟨fuel - 1, by omega⟩
    exact ⟨cand, room, by simp [findCandidate], Or.inl ⟨rfl, rfl, by simp⟩⟩
  | cons a l ih =>
    intro p fuel cand room hs h0 hf
    obtain ⟨fuel, rfl⟩ : ∃ k, fuel = k + 1 := ⟨fuel - 1, by omega⟩
    have ha : a ≠ NULL := fun e => h0 (by simp [e])
    have h0' : NULL ∉ l := fun h => h0 (List.mem_cons_of_mem a h)
    have hf' : l.length < fuel := by simpa using hf
    rw [List.headD_cons, findCandidate, if_neg ha, size_of_ne ha, pure_bind, next_of_ne ha,
      pure_bind, pure_bind, hs.2.1]
    by_cases hfit : n ≤ s.bufferSize a ∧ s.bufferSize a - n < room
    · -- a new candidate: what follows either keeps it or finds a tighter one
      rw [if_pos hfit]
      obtain ⟨c, h, he, hc⟩ := ih hs.2.2 h0' hf'
      refine ⟨c, h, he, Or.inr ?_⟩
      rcases hc with ⟨rfl, rfl, hle⟩ | ⟨⟨hm, hn, hmin⟩, rfl, hlt⟩
      · refine ⟨⟨by simp, hfit.1, ?_⟩, rfl, hfit.2⟩
        intro b hb hnb
        rcases List.mem_cons.mp hb with rfl | hb
        · exact Nat.le_refl _
        · have := hle b hb hnb
          omega
      · refine ⟨⟨List.mem_cons_of_mem a hm, hn, ?_⟩, rfl, by omega⟩
        intro b hb hnb
        rcases List.mem_cons.mp hb with rfl | hb
        · omega
        · exact hmin b hb hnb
    · rw [if_neg hfit]
      obtain ⟨c, h, he, hc⟩ := ih hs.2.2 h0' hf'
      refine ⟨c, h, he, ?_⟩
      rcases hc with ⟨rfl, rfl, hle⟩ | ⟨⟨hm, hn, hmin⟩, rfl, hlt⟩
      · refine Or.inl ⟨rfl, rfl, ?_⟩
        intro b hb hnb
        rcases List.mem_cons.mp hb with rfl | hb
        · by_contra hcon
          exact hfit ⟨hnb, by omega⟩
        · exact hle b hb hnb
      · refine Or.inr ⟨⟨List.mem_cons_of_mem a hm, hn, ?_⟩, rfl, hlt⟩
        intro b hb hnb
        rcases List.mem_cons.mp hb with rfl | hb
        · by_contra hcon
          exact hfit ⟨hnb, by omega⟩
        · exact hmin b hb hnb

/-- The search over the whole free chain: nothing has room, or a tightest fit. -/
theorem findCandidate_spec {base len : Nat} {s : Shm} {frees allocs : List Nat} {n : Nat}
    (ar : Arena base len) (ok : HeapOk base len s frees allocs) :
    (findCandidate s n addrSpace s.freeBufChain NULL maxHeadroom = pure (NULL, maxHeadroom) ∧
        ∀ a ∈ frees, s.bufferSize a < n) ∨
      ∃ c, findCandidate s n addrSpace s.freeBufChain NULL maxHeadroom =
          pure (c, s.bufferSize c - n) ∧ TightestFit s.bufferSize frees n c := by
  have hlen : frees.length < addrSpace := by
    have h := tiles_length ok.tiles
    have := ar.end_lt
    have := ar.base_pos
    simp only [List.length_append] at h
    omega
  obtain ⟨c, h, he, hc⟩ := findCandidate_eq (n := n)
    ok.free.seg ok.free.null_notMem hlen
  rw [← ok.free.head] at he
  rcases hc with ⟨rfl, rfl, hall⟩ | ⟨hfit, rfl, -⟩
  · refine Or.inl ⟨he, ?_⟩
    intro a ha
    by_contra hcon
    have hi := (tiles_inside ok.tiles (List.mem_append_left allocs ha)).2
    have hb := (tiles_inside ok.tiles (List.mem_append_left allocs ha)).1
    have := hall a ha (by omega)
    have := ar.lt_headroom
    omega
  · exact Or.inr ⟨c, he, hfit⟩

/-! ## Out of the free chain -/

section Take
variable {base len : Nat} {s : Shm} {l₁ l₂ allocs : List Nat} {c : Nat}

theorem takeWhole_spec (ok : HeapOk base len s (l₁ ++ c :: l₂) allocs) :
    ∃ s', takeWhole s c = pure s' ∧ Detached base len s' (l₁ ++ l₂) allocs c ∧
      s'.bufferSize = s.bufferSize := by
  have hc : c ≠ NULL := ok.free.ne_null (by simp)
  have h0 : NULL ∉ l₂ := fun h => ok.free.null_notMem (by simp [h])
  obtain ⟨hs₁, hcp, hcn, hs₂⟩ := seg_append.mp ok.free.seg
  have hnd := tiles_nodup ok.tiles
  obtain ⟨hnf, -, hdis⟩ := List.nodup_append'.mp hnd
  have hperm : (l₁ ++ c :: l₂ ++ allocs).Perm (c :: (l₁ ++ l₂ ++ allocs)) := by
    simp [List.append_assoc]
  have hj : (l₁ ++ l₂).Nodup := (List.perm_middle.nodup_iff.mp hnf).of_cons
  have h0j : NULL ∉ l₁ ++ l₂ := fun h => ok.free.null_notMem (by
    simp only [List.mem_append, List.mem_cons] at h ⊢
    tauto)
  have hd : Detached base len { s with
      links := (s.links.linkTo l₁ (l₂.headD NULL)).backTo l₂ (l₁.getLastD NULL)
      freeBufChain := (l₁ ++ l₂).headD NULL } (l₁ ++ l₂) allocs c := by
    refine ⟨chain_join hs₁ hs₂ hj h0j, ?_, ?_, ok.tiles.perm (chunksOf_perm hperm), ?_⟩
    · refine (ok.allocced.linkTo_frame ?_).backTo_frame ?_
      · exact fun a ha hl => hdis (by simp [hl]) ha
      · exact fun a ha hl => hdis (by simp [hl]) ha
    · obtain ⟨a₁, ac, a₁₂⟩ := ascends_append.mp ok.ascending
      exact ascends_append.mpr ⟨a₁, (ascends_cons.mp ac).2,
        fun a ha b hb => a₁₂ a ha b (List.mem_cons_of_mem c hb)⟩
    · exact fun a ha => ok.holdsHeader a (hperm.mem_iff.mpr ha)
  refine ⟨_, ?_, hd, rfl⟩
  rcases List.eq_nil_or_concat l₁ with rfl | ⟨x, b, rfl⟩
  · have hfree : c = s.freeBufChain := ok.free.head.symm
    simp only [takeWhole, ← hfree, if_true, next_of_ne hc, pure_bind, hcn, setPrevIf_headD h0]
    rfl
  · rw [List.concat_eq_append] at *
    have hb : b ≠ NULL := ok.free.ne_null (by simp)
    have hcb : c ≠ b := by
      rintro rfl
      exact (List.nodup_append'.mp hnf).2.2 (by simp : c ∈ x ++ [c]) (by simp)
    have hcp : s.links.prev c = b := by simpa using hcp
    have hmem : s.freeBufChain ∈ x ++ [b] := by
      rw [ok.free.head]
      cases x <;> simp
    have hne : ¬c = s.freeBufChain := by
      rintro rfl
      exact (List.nodup_append'.mp hnf).2.2 hmem (by simp)
    have hfree : s.freeBufChain = (x ++ [b] ++ l₂).headD NULL := by
      rw [ok.free.head]
      cases x <;> rfl
    simp only [takeWhole, hne, if_false, prev_of_ne hc, next_of_ne hc, pure_bind, hcp, hcn,
      setNext_of_ne hb, setNext_other _ _ hcb, setNext_prev, setPrevIf_headD h0, ← hfree,
      linkTo_concat, List.getLastD_concat]

/-- A chunk is cut in two: the head keeps its address, the tail follows it. -/
theorem tiles_split {size : Nat → Nat} {rest : List Nat} {n t : Nat} (h : Tiles base len (chunksOf size (c :: rest)))
    (hn : 0 < n) (hlt : n < size c) (ht : t = c + n) (hc : c ∉ rest) (htrest : t ∉ rest) :
    Tiles base len (chunksOf (Function.update (Function.update size c n) t (size c - n)) (c :: t :: rest)) := by
  have htc : t ≠ c := by omega
  have hrest : chunksOf (Function.update (Function.update size c n) t (size c - n)) rest = chunksOf size rest := by
    rw [chunksOf_update htrest, chunksOf_update hc]
  have he : chunksOf (Function.update (Function.update size c n) t (size c - n)) (c :: t :: rest) =
      (c, n) :: (c + n, size c - n) :: chunksOf size rest := by
    rw [← hrest, ← ht]
    simp [chunksOf, Function.update_of_ne htc.symm]
  rw [he, tiles_merge hn (by omega), Nat.add_sub_cancel' (by omega)]
  exact h

/-- No other chunk starts at the tail, which lies strictly inside the chunk. -/
theorem tail_fresh {size : Nat → Nat} {rest : List Nat} {n t : Nat} (h : Tiles base len (chunksOf size (c :: rest)))
    (hn : 0 < n) (hlt : n < size c) (ht : t = c + n) : t ∉ rest := by
  intro hmem
  have htc : c ≠ t := by omega
  have hap := tiles_apart h List.mem_cons_self (List.mem_cons_of_mem c hmem) htc
  have hpos := tiles_pos h (List.mem_cons_of_mem c hmem)
  omega

/-- The chunk leaves the free chain and its tail takes its place there. -/
theorem takeSplit_spec {n : Nat} (ar : Arena base len)
    (ok : HeapOk base len s (l₁ ++ c :: l₂) allocs) (hn : headerSize ≤ n) (hn4 : 4 ∣ n)
    (hlt : headerSize < s.bufferSize c - n) :
    ∃ s', takeSplit s c n (s.bufferSize c - n) = pure s' ∧
      Detached base len s' (l₁ ++ (c + n) :: l₂) allocs c ∧ s'.bufferSize c = n := by
  have hh : 0 < headerSize := by decide
  have hmem : c ∈ l₁ ++ c :: l₂ ++ allocs := by simp
  obtain ⟨hc, -, hcend⟩ := chunk_facts ar ok.tiles hmem
  have hperm : (l₁ ++ c :: l₂ ++ allocs).Perm (c :: (l₁ ++ l₂ ++ allocs)) := by
    simp [List.append_assoc]
  have hnd := tiles_nodup ok.tiles
  obtain ⟨hnf, -, hdis⟩ := List.nodup_append'.mp hnd
  have hcrest : c ∉ l₁ ++ l₂ ++ allocs := (List.nodup_cons.mp (hperm.nodup_iff.mp hnd)).1
  obtain ⟨t, ht⟩ : ∃ t, t = c + n := ⟨_, rfl⟩
  have htc : t ≠ c := by omega
  have htiles : Tiles base len (chunksOf s.bufferSize (c :: (l₁ ++ l₂ ++ allocs))) := ok.tiles.perm (chunksOf_perm hperm)
  have htrest : t ∉ l₁ ++ l₂ ++ allocs := tail_fresh htiles (by omega) (by omega) ht
  have htop : wadd c n = t := by
    rw [ht, wadd]
    exact Nat.mod_eq_of_lt (by omega)
  have ht0 : t ≠ NULL := by
    show t ≠ 0
    omega
  obtain ⟨size', hsize⟩ : ∃ size', size' =
      Function.update (Function.update s.bufferSize c n) t (s.bufferSize c - n) := ⟨_, rfl⟩
  have hsc : size' c = n := by
    rw [hsize, Function.update_of_ne htc.symm, Function.update_self]
  have hst : size' t = s.bufferSize c - n := by rw [hsize, Function.update_self]
  have hso : ∀ a, a ≠ c → a ≠ t → size' a = s.bufferSize a := by
    intro a hac hat
    rw [hsize, Function.update_of_ne hat, Function.update_of_ne hac]
  have htperm : (c :: t :: (l₁ ++ l₂ ++ allocs)).Perm (c :: (l₁ ++ t :: l₂ ++ allocs)) := by
    refine List.Perm.cons c ?_
    have h : (l₁ ++ t :: (l₂ ++ allocs)).Perm (t :: (l₁ ++ (l₂ ++ allocs))) := List.perm_middle
    simpa [List.append_assoc] using h.symm
  have ht' : Tiles base len (chunksOf size' (c :: (l₁ ++ t :: l₂ ++ allocs))) := by
    rw [hsize]
    exact (tiles_split htiles (by omega) (by omega) ht hcrest htrest).perm (chunksOf_perm htperm)
  obtain ⟨hs₁, hcp, hcn, hs₂⟩ := seg_append.mp ok.free.seg
  obtain ⟨a₁, ac, a₁₂⟩ := ascends_append.mp ok.ascending
  obtain ⟨ac₂, a₂⟩ := ascends_cons.mp ac
  obtain ⟨hn₁, hnt, hnta⟩ := List.nodup_append'.mp (List.nodup_cons.mp (tiles_nodup ht')).2
  have hc₁ : c ∉ l₁ := fun h => hcrest (by simp [h])
  have hc₂ : c ∉ l₂ := fun h => hcrest (by simp [h])
  have ht₁ : t ∉ l₁ := fun h => htrest (by simp [h])
  have ht₂ : t ∉ l₂ := fun h => htrest (by simp [h])
  have h0 : NULL ∉ l₁ ++ t :: l₂ := fun h =>
    (chunk_facts ar ht' (List.mem_cons_of_mem c (List.mem_append_left allocs h))).1 rfl
  have h02 : NULL ∉ l₂ := fun h => h0 (by simp [h])
  have hd : Detached base len { s with
      links := s.links.insert NULL l₁ t l₂
      bufferSize := size'
      freeBufChain := (l₁ ++ t :: l₂).headD NULL } (l₁ ++ t :: l₂) allocs c := by
    refine ⟨chain_insert hs₁ hs₂ hn₁ h0, ?_, ?_, ht', ?_⟩
    · refine ok.allocced.insert_frame (fun h => hnta (by simp) h) ?_ ?_
      · exact fun a ha hl => hnta (by simp [hl]) ha
      · exact fun a ha hl => hnta (by simp [hl]) ha
    · show Ascends size' (l₁ ++ t :: l₂)
      rw [hsize]
      refine ascends_around (ascends_update a₁ hc₁) (ascends_update a₂ hc₂) ?_ ?_
      · intro a ha
        rw [Function.update_of_ne (ne_of_mem_of_not_mem ha hc₁)]
        have := a₁₂ a ha c (by simp)
        omega
      · intro b hb
        have := ac₂ b hb
        omega
    · intro a ha
      show headerSize ≤ size' a ∧ 4 ∣ size' a
      by_cases hac : a = c
      · rw [hac, hsc]
        exact ⟨hn, hn4⟩
      · by_cases hat : a = t
        · rw [hat, hst]
          exact ⟨by omega, Nat.dvd_sub (ok.holdsHeader c hmem).2 hn4⟩
        · rw [hso a hac hat]
          refine ok.holdsHeader a ?_
          simp only [List.mem_cons, List.mem_append] at ha ⊢
          tauto
  rw [← ht]
  refine ⟨_, ?_, hd, hsc⟩
  rcases List.eq_nil_or_concat l₁ with rfl | ⟨x, b, rfl⟩
  · have hfree : c = s.freeBufChain := ok.free.head.symm
    simp only [takeSplit, setSize_of_ne hc, pure_bind, htop, setSize_of_ne ht0, next_of_ne hc, hcn,
      setNext_of_ne ht0, prev_of_ne hc, setNext_prev, hcp, setPrev_of_ne ht0, next_of_ne ht0,
      setPrev_next, setNext_self, setPrevIf_headD h02, ← hfree, if_true, hsize]
    rfl
  · rw [List.concat_eq_append] at *
    have hb : b ≠ NULL := ok.free.ne_null (by simp)
    have hcp : s.links.prev c = b := by simpa using hcp
    have hmemf : s.freeBufChain ∈ x ++ [b] := by
      rw [ok.free.head]
      cases x <;> simp
    have hne : ¬c = s.freeBufChain := fun e => hc₁ (e ▸ hmemf)
    have hfree : s.freeBufChain = (x ++ [b] ++ t :: l₂).headD NULL := by
      rw [ok.free.head]
      cases x <;> rfl
    simp only [takeSplit, setSize_of_ne hc, pure_bind, htop, setSize_of_ne ht0, next_of_ne hc, hcn,
      setNext_of_ne ht0, prev_of_ne hc, setNext_prev, hcp, setPrev_of_ne ht0, next_of_ne ht0,
      setPrev_next, setNext_self, setPrevIf_headD h02, hne, if_false, prev_of_ne ht0,
      backTo_prev_of_notMem _ _ ht₂, setPrev_self, setNext_of_ne hb, hsize, ← hfree, Links.insert,
      linkTo_concat, List.getLastD_concat]

end Take

/-! ## Onto the allocated chain -/

theorem dvd_roomFor (size : Int) : 4 ∣ roomFor size := by
  rw [roomFor, wadd]
  exact (Nat.dvd_mod_iff (by decide)).mpr (Nat.dvd_add (Nat.dvd_mul_left 4 _) (by decide))

/-- `do_acquire`: it is refused because no free chunk has room, or the chunk is a
tightest fit, detached, with the room asked for. -/
theorem doAcquire_spec {base len : Nat} {s : Shm} {frees allocs : List Nat} (size : Int)
    (ar : Arena base len) (ok : HeapOk base len s frees allocs) (hroom : headerSize ≤ roomFor size) :
    (doAcquire s size = pure none ∧ ∀ a ∈ frees, s.bufferSize a < roomFor size) ∨
      ∃ c s' frees', doAcquire s size = pure (some (c, s')) ∧
        TightestFit s.bufferSize frees (roomFor size) c ∧
        Detached base len s' frees' allocs c ∧ roomFor size ≤ s'.bufferSize c := by
  have h4 := dvd_roomFor size
  rcases findCandidate_spec (n := roomFor size) ar ok with ⟨he, hall⟩ | ⟨c, he, hfit⟩
  · refine Or.inl ⟨?_, hall⟩
    simp only [doAcquire, he, pure_bind, if_true]
  · obtain ⟨hm, hle, -⟩ := id hfit
    obtain ⟨l₁, l₂, rfl⟩ := List.append_of_mem hm
    have hc : c ≠ NULL := ok.free.ne_null hm
    by_cases hhead : s.bufferSize c - roomFor size ≤ headerSize
    · obtain ⟨s', ht, hd, hsz⟩ := takeWhole_spec ok
      refine Or.inr ⟨c, s', _, ?_, hfit, hd, by rw [hsz]; exact hle⟩
      simp only [doAcquire, he, pure_bind, hc, if_false, hhead, if_true, ht]
    · obtain ⟨s', ht, hd, hsz⟩ := takeSplit_spec ar ok hroom h4 (by omega)
      refine Or.inr ⟨c, s', _, ?_, hfit, hd, by rw [hsz]⟩
      simp only [doAcquire, he, pure_bind, hc, if_false, hhead, ht]

theorem push_ok {base len : Nat} {s : Shm} {frees allocs : List Nat} {c : Nat} (m : Int)
    (ar : Arena base len) (d : Detached base len s frees allocs c) :
    HeapOk base len { s with
        links := s.links.insert NULL [] c allocs
        alloccedBufChain := c
        maxAllocatedSize := m } frees (c :: allocs) := by
  have hperm : (c :: (frees ++ allocs)).Perm (frees ++ c :: allocs) := List.perm_middle.symm
  have t := d.tiles.perm (chunksOf_perm hperm)
  obtain ⟨-, hna, hdis⟩ := List.nodup_append'.mp (tiles_nodup t)
  have h0 : NULL ∉ [] ++ c :: allocs := fun h =>
    (chunk_facts ar t (List.mem_append_right frees h)).1 rfl
  have hnil : Seg s.links NULL [] NULL := trivial
  refine ⟨?_, chain_insert hnil d.allocced.seg hna h0, d.ascending, t, ?_⟩
  · refine d.free.insert_frame (fun h => hdis h (by simp)) (List.disjoint_nil_right _) ?_
    exact fun a ha hl => hdis ha (by simp [hl])
  · exact fun a ha => d.holdsHeader a (hperm.mem_iff.mpr ha)

end ChromeEc.Shmalloc
