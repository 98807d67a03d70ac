import ChromeEc.Shmalloc.Invariant

/- `do_release` keeps the heap invariant. The chunk leaves the allocated chain
  (`takeAllocced_spec`) and is brought back among the free chunks. The free chain
  splits at the released address into the chunks below, `l₁`, and those above,
  `l₂`; whether the chunk touches the last of `l₁` and the first of `l₂` gives the
  four outcomes, each proved by a lemma of its own (`insert_ok`, `mergeAbove_ok`,
  `mergeBelow_ok`, `mergeBoth_ok`) that the branches of the source then meet. -/
namespace ChromeEc.Shmalloc
open Lib Links

/-! ## Out of the allocated chain -/

theorem findAllocced_mem {s : Shm} {ptr : Nat} : ∀ {l : List Nat} {p fuel : Nat},
    Seg s.links p l NULL → NULL ∉ l → ptr ∈ l → l.length ≤ fuel →
    findAllocced s ptr fuel (l.headD NULL) = pure ptr := by
  intro l
  induction l with
  | nil => intro _ _ _ _ hm _; simp at hm
  | cons a l ih =>
    intro p fuel hs h0 hm hf
    obtain ⟨fuel, rfl⟩ : ∃ k, fuel = k + 1 := ⟨fuel - 1, by simp at hf; omega⟩
    have ha : a ≠ NULL := fun e => h0 (by simp [e])
    rw [List.headD_cons, findAllocced, if_neg ha]
    by_cases hne : a = ptr
    · rw [if_pos hne, hne]
    · rw [if_neg hne, next_of_ne ha, pure_bind, hs.2.1]
      refine ih hs.2.2 (fun h => h0 (List.mem_cons_of_mem a h)) ?_ (by simpa using hf)
      exact (List.mem_cons.mp hm).resolve_left (fun e => hne e.symm)

/-- `s` with the cells of `x₁` and `x₂` linked to each other. -/
def joined (s : Shm) (x₁ x₂ : List Nat) : Links Nat :=
  (s.links.linkTo x₁ (x₂.headD NULL)).backTo x₂ (x₁.getLastD NULL)

theorem takeAllocced_eq {s : Shm} {x₁ x₂ : List Nat} {ptr : Nat}
    (c : Chain s.links NULL s.alloccedBufChain (x₁ ++ ptr :: x₂))
    (hlen : (x₁ ++ ptr :: x₂).length ≤ addrSpace) :
    takeAllocced s ptr = pure (some { s with
      links := joined s x₁ x₂
      alloccedBufChain := (x₁ ++ x₂).headD NULL }) := by
  have hptr : ptr ≠ NULL := c.ne_null (by simp)
  have h0 : NULL ∉ x₂ := fun h => c.null_notMem (by simp [h])
  obtain ⟨hs₁, hp, hn, hs₂⟩ := seg_append.mp c.seg
  rcases List.eq_nil_or_concat x₁ with rfl | ⟨x, b, rfl⟩
  · -- the head of the chain
    have hhd : ptr = s.alloccedBufChain := c.head.symm
    simp only [takeAllocced, ← hhd, if_true, next_of_ne hptr, pure_bind, hn, setPrevIf_headD h0,
      backTo_next]
    rfl
  · -- further down: the sanity check finds it, and its predecessor is in the chain
    rw [List.concat_eq_append] at *
    have hb : b ≠ NULL := c.ne_null (by simp)
    have hbp : s.links.prev ptr = b := by simpa using hp
    have hne : b ≠ ptr := by
      rintro rfl
      exact (List.nodup_append'.mp c.nodup).2.2 (by simp : b ∈ x ++ [b]) (by simp)
    have hhd : s.alloccedBufChain ∈ x ++ [b] := by
      rw [c.head]
      cases x <;> simp
    have hneq : ¬ptr = s.alloccedBufChain := by
      rintro rfl
      exact (List.nodup_append'.mp c.nodup).2.2 hhd (by simp)
    have hhd0 : s.alloccedBufChain ≠ NULL := c.ne_null (List.mem_append_left _ hhd)
    have hfind : findAllocced s ptr addrSpace (s.links.next s.alloccedBufChain) = pure ptr := by
      obtain ⟨a, y, hy⟩ : ∃ a y, x ++ [b] ++ ptr :: x₂ = a :: y := by
        cases x <;> simp
      have hc := c
      rw [hy] at hc hlen
      have ha : s.alloccedBufChain = a := hc.head
      rw [ha, hc.seg.2.1]
      refine findAllocced_mem hc.seg.2.2 (fun h => hc.null_notMem (List.mem_cons_of_mem a h)) ?_ ?_
      · have hm : ptr ∈ a :: y := by rw [← hy]; simp
        exact (List.mem_cons.mp hm).resolve_left (fun e => hneq (e.trans ha.symm))
      · simp at hlen; omega
    simp only [takeAllocced, hneq, if_false, next_of_ne hhd0, pure_bind, hfind, hptr,
      prev_of_ne hptr, next_of_ne hptr, hbp, hn, setNext_of_ne hb,
      setNext_other _ _ (Ne.symm hne), setPrevIf_headD h0, setNext_prev]
    have hh : s.alloccedBufChain = (x ++ [b] ++ x₂).headD NULL := by
      rw [c.head]
      cases x <;> simp
    rw [← hh]
    simp [joined]

theorem takeAllocced_spec {base len : Nat} {s : Shm} {frees allocs : List Nat} {ptr : Nat}
    (ar : Arena base len) (ok : HeapOk base len s frees allocs) (hptr : ptr ∈ allocs) :
    ∃ s' allocs', takeAllocced s ptr = pure (some s') ∧
      Detached base len s' frees allocs' ptr ∧ s'.bufferSize = s.bufferSize ∧
      allocs.Perm (ptr :: allocs') := by
  obtain ⟨x₁, x₂, rfl⟩ := List.append_of_mem hptr
  have hnd := tiles_nodup ok.tiles
  obtain ⟨hnf, hna, hdis⟩ := List.nodup_append'.mp hnd
  have hperm : (x₁ ++ ptr :: x₂).Perm (ptr :: (x₁ ++ x₂)) := List.perm_middle
  have hall : (frees ++ (x₁ ++ ptr :: x₂)).Perm (ptr :: (frees ++ (x₁ ++ x₂))) :=
    (hperm.append_left frees).trans List.perm_middle
  have hlen : (x₁ ++ ptr :: x₂).length ≤ addrSpace := by
    have h := tiles_length ok.tiles
    have he := ar.end_lt
    simp only [List.length_append] at h ⊢
    omega
  obtain ⟨hs₁, -, -, hs₂⟩ := seg_append.mp ok.allocced.seg
  have hj : (x₁ ++ x₂).Nodup := (hperm.nodup_iff.mp hna).of_cons
  have h0 : NULL ∉ x₁ ++ x₂ := fun h =>
    ok.allocced.null_notMem (hperm.mem_iff.mpr (List.mem_cons_of_mem ptr h))
  have hd₁ : frees.Disjoint x₁ := fun a ha hx => hdis ha (by simp [hx])
  have hd₂ : frees.Disjoint x₂ := fun a ha hx => hdis ha (by simp [hx])
  refine ⟨_, x₁ ++ x₂, takeAllocced_eq ok.allocced hlen, ?_, rfl, hperm⟩
  refine ⟨(ok.free.linkTo_frame hd₁).backTo_frame hd₂, chain_join hs₁ hs₂ hj h0, ok.ascending,
    ok.tiles.perm (chunksOf_perm hall), ?_⟩
  intro a ha
  exact ok.holdsHeader a (hall.mem_iff.mpr ha)

/-! ## The free chain around the released chunk -/

/-- The highest free chunk below `ptr` is found from any chunk below it. -/
theorem findSpot_eq {s : Shm} {ptr b : Nat} {l₂ : List Nat} (h₂ : ∀ a ∈ l₂, ptr < a) :
    ∀ {x : List Nat} {p fuel : Nat}, Seg s.links p (x ++ b :: l₂) NULL → NULL ∉ x ++ b :: l₂ →
    (∀ a ∈ x ++ [b], a < ptr) → x.length < fuel →
    findSpot s ptr fuel ((x ++ b :: l₂).headD NULL) = pure b := by
  intro x
  induction x with
  | nil =>
    intro p fuel hs h0 _ hf
    obtain ⟨fuel, rfl⟩ : ∃ k, fuel = k + 1 := ⟨fuel - 1, by omega⟩
    have hb : b ≠ NULL := fun e => h0 (by simp [e])
    rw [List.nil_append, List.headD_cons, findSpot, next_of_ne hb, pure_bind]
    rw [List.nil_append] at hs
    rw [hs.2.1, if_neg]
    cases l₂ with
    | nil => simp
    | cons d l =>
      have := h₂ d List.mem_cons_self
      simp only [List.headD_cons, not_and]
      omega
  | cons a x ih =>
    intro p fuel hs h0 h₁ hf
    obtain ⟨fuel, rfl⟩ : ∃ k, fuel = k + 1 := ⟨fuel - 1, by omega⟩
    rw [List.cons_append] at hs h0
    have ha : a ≠ NULL := fun e => h0 (by simp [e])
    have h0' : NULL ∉ x ++ b :: l₂ := fun h => h0 (List.mem_cons_of_mem a h)
    have hlt : (x ++ b :: l₂).headD NULL ≠ NULL ∧ (x ++ b :: l₂).headD NULL < ptr := by
      cases x with
      | nil => exact ⟨fun e => h0' (by simp [show b = NULL from e]), h₁ b (by simp)⟩
      | cons c x => exact ⟨fun e => h0' (by simp [show c = NULL from e]), h₁ c (by simp)⟩
    rw [List.cons_append, List.headD_cons, findSpot, next_of_ne ha, pure_bind, hs.2.1, if_pos hlt]
    exact ih hs.2.2 h0' (fun c hc => h₁ c (List.mem_cons_of_mem a hc))
      (by simpa using hf)

/-! ## The four outcomes -/

section Outcomes
variable {base len : Nat} {s : Shm} {l₁ l₂ allocs : List Nat} {ptr : Nat}

theorem detached_below (d : Detached base len s (l₁ ++ l₂) allocs ptr) (h₁ : ∀ a ∈ l₁, a < ptr) :
    ∀ a ∈ l₁, a + s.bufferSize a ≤ ptr := by
  intro a ha
  have hlt := h₁ a ha
  have hp := tiles_pos d.tiles (List.mem_cons_self (a := ptr))
  have hap := tiles_apart d.tiles (a := a) (b := ptr) (by simp [ha]) (by simp) (by omega)
  omega

theorem detached_above (d : Detached base len s (l₁ ++ l₂) allocs ptr) (h₂ : ∀ a ∈ l₂, ptr < a) :
    ∀ a ∈ l₂, ptr + s.bufferSize ptr ≤ a := by
  intro a ha
  have hlt := h₂ a ha
  have hp := tiles_pos d.tiles (a := a) (by simp [ha])
  have hap := tiles_apart d.tiles (a := a) (b := ptr) (by simp [ha]) (by simp) (by omega)
  omega

theorem perm_insert (ptr : Nat) (l₁ l₂ allocs : List Nat) :
    (ptr :: (l₁ ++ l₂ ++ allocs)).Perm (l₁ ++ ptr :: l₂ ++ allocs) := by
  have h : (l₁ ++ ptr :: (l₂ ++ allocs)).Perm (ptr :: (l₁ ++ (l₂ ++ allocs))) := List.perm_middle
  simpa [List.append_assoc] using h.symm

theorem insert_ok (ar : Arena base len) (d : Detached base len s (l₁ ++ l₂) allocs ptr)
    (hlo : ∀ a ∈ l₁, a + s.bufferSize a < ptr) (hhi : ∀ a ∈ l₂, ptr + s.bufferSize ptr < a) :
    HeapOk base len { s with
        links := s.links.insert NULL l₁ ptr l₂
        freeBufChain := (l₁ ++ ptr :: l₂).headD NULL } (l₁ ++ ptr :: l₂) allocs := by
  have hperm := perm_insert ptr l₁ l₂ allocs
  obtain ⟨hnf, hna, hdis⟩ := List.nodup_append'.mp (hperm.nodup_iff.mp (tiles_nodup d.tiles))
  obtain ⟨a₁, a₂, -⟩ := ascends_append.mp d.ascending
  obtain ⟨hs₁, hs₂⟩ := seg_append.mp d.free.seg
  have t := d.tiles.perm (chunksOf_perm hperm)
  have h0 : NULL ∉ l₁ ++ ptr :: l₂ := fun h =>
    (chunk_facts ar t (List.mem_append_left allocs h)).1 rfl
  refine ⟨chain_insert hs₁ hs₂ hnf h0, ?_, ?_, t, ?_⟩
  · refine d.allocced.insert_frame (fun h => hdis (by simp) h) ?_ ?_
    · exact fun a ha hl => hdis (by simp [hl]) ha
    · exact fun a ha hl => hdis (by simp [hl]) ha
  · have h := ascends_around a₁ a₂ hlo hhi
    rwa [Function.update_eq_self] at h
  · exact fun a ha => d.holdsHeader a (hperm.mem_iff.mpr ha)

theorem holdsHeader_absorb {size : Nat → Nat} {l : List Nat} {a b : Nat}
    (h : ∀ c ∈ a :: b :: l, headerSize ≤ size c ∧ 4 ∣ size c) :
    ∀ c ∈ a :: l, headerSize ≤ Function.update size a (size a + size b) c ∧
      4 ∣ Function.update size a (size a + size b) c := by
  intro c hc
  have ha := h a (by simp)
  have hb := h b (by simp)
  by_cases hca : c = a
  · subst hca
    rw [Function.update_self]
    exact ⟨by omega, Nat.dvd_add ha.2 hb.2⟩
  · rw [Function.update_of_ne hca]
    exact h c (by simp only [List.mem_cons] at hc ⊢; tauto)

/-- The chunk touches the free chunk above it only: it takes that chunk over. -/
theorem mergeAbove_ok {e : Nat} (ar : Arena base len)
    (d : Detached base len s (l₁ ++ e :: l₂) allocs ptr)
    (hlo : ∀ a ∈ l₁, a + s.bufferSize a < ptr) (he : ptr + s.bufferSize ptr = e) :
    HeapOk base len { s with
        links := s.links.insert NULL l₁ ptr l₂
        bufferSize := Function.update s.bufferSize ptr (s.bufferSize ptr + s.bufferSize e)
        freeBufChain := (l₁ ++ ptr :: l₂).headD NULL } (l₁ ++ ptr :: l₂) allocs := by
  have hperm := perm_insert ptr l₁ l₂ allocs
  have hfirst : (ptr :: (l₁ ++ e :: l₂ ++ allocs)).Perm (ptr :: e :: (l₁ ++ l₂ ++ allocs)) :=
    (perm_insert e l₁ l₂ allocs).symm.cons ptr
  have tm := tiles_absorb (d.tiles.perm (chunksOf_perm hfirst)) he
  have hnd := tiles_nodup tm
  obtain ⟨hnf, hna, hdis⟩ := List.nodup_append'.mp (hperm.nodup_iff.mp hnd)
  have t := tm.perm (chunksOf_perm hperm)
  obtain ⟨a₁, ae, -⟩ := ascends_append.mp d.ascending
  obtain ⟨ae₁, a₂⟩ := ascends_cons.mp ae
  obtain ⟨hs₁, hse⟩ := seg_append.mp d.free.seg
  have h0 : NULL ∉ l₁ ++ ptr :: l₂ := fun h =>
    (chunk_facts ar t (List.mem_append_left allocs h)).1 rfl
  refine ⟨chain_insert hs₁ hse.2.2 hnf h0, ?_, ?_, t, ?_⟩
  · refine d.allocced.insert_frame (fun h => hdis (by simp) h) ?_ ?_
    · exact fun a ha hl => hdis (by simp [hl]) ha
    · exact fun a ha hl => hdis (by simp [hl]) ha
  · refine ascends_around a₁ a₂ hlo ?_
    intro b hb
    have := ae₁ b hb
    omega
  · intro a ha
    refine holdsHeader_absorb ?_ a (hperm.mem_iff.mpr ha)
    exact fun c hc => d.holdsHeader c (hfirst.mem_iff.mpr hc)

theorem mergeBelow_ok {b : Nat} (d : Detached base len s (l₁ ++ b :: l₂) allocs ptr)
    (hb : b + s.bufferSize b = ptr) (hhi : ∀ a ∈ l₂, ptr + s.bufferSize ptr < a) :
    HeapOk base len { s with
        bufferSize := Function.update s.bufferSize b (s.bufferSize b + s.bufferSize ptr) }
      (l₁ ++ b :: l₂) allocs := by
  have hperm := perm_insert b l₁ l₂ allocs
  have hfirst : (ptr :: (l₁ ++ b :: l₂ ++ allocs)).Perm (b :: ptr :: (l₁ ++ l₂ ++ allocs)) :=
    (hperm.symm.cons ptr).trans (List.Perm.swap b ptr _)
  have tm := tiles_absorb (d.tiles.perm (chunksOf_perm hfirst)) hb
  have t := tm.perm (chunksOf_perm hperm)
  obtain ⟨a₁, ab, a₁₂⟩ := ascends_append.mp d.ascending
  refine ⟨d.free, d.allocced, ?_, t, ?_⟩
  · refine ascends_around a₁ (ascends_cons.mp ab).2 (fun a ha => a₁₂ a ha b (by simp)) ?_
    intro c hc
    have := hhi c hc
    omega
  · intro a ha
    refine holdsHeader_absorb ?_ a (hperm.mem_iff.mpr ha)
    exact fun c hc => d.holdsHeader c (hfirst.mem_iff.mpr hc)

/-- The chunk is the exact gap between two free chunks: the lower one takes over
the chunk and then the upper one. -/
theorem mergeBoth_ok {b e : Nat} (ar : Arena base len)
    (d : Detached base len s (l₁ ++ b :: e :: l₂) allocs ptr)
    (hb : b + s.bufferSize b = ptr) (he : ptr + s.bufferSize ptr = e) :
    HeapOk base len { s with
        links := (s.links.setNext b (l₂.headD NULL)).backTo l₂ b
        bufferSize := Function.update s.bufferSize b
          (s.bufferSize b + s.bufferSize ptr + s.bufferSize e) }
      (l₁ ++ b :: l₂) allocs := by
  have hperm := perm_insert b l₁ l₂ allocs
  have hfirst : (ptr :: (l₁ ++ b :: e :: l₂ ++ allocs)).Perm (b :: ptr :: e :: (l₁ ++ l₂ ++ allocs)) := by
    refine ((perm_insert b l₁ (e :: l₂) allocs).symm.cons ptr).trans ?_
    exact (List.Perm.swap b ptr _).trans (((perm_insert e l₁ l₂ allocs).symm.cons ptr).cons b)
  have t₁ := tiles_absorb (d.tiles.perm (chunksOf_perm hfirst)) hb
  have hnd := tiles_nodup t₁
  have heb : e ≠ b := fun h => (List.nodup_cons.mp hnd).1 (by simp [h])
  have t₂ := tiles_absorb t₁ (by rw [Function.update_self]; omega)
  have h₁ := holdsHeader_absorb (fun c hc => d.holdsHeader c (hfirst.mem_iff.mpr hc))
  have h₂ := holdsHeader_absorb h₁
  rw [Function.update_self, Function.update_of_ne heb, Function.update_idem] at t₂ h₂
  have t := t₂.perm (chunksOf_perm hperm)
  obtain ⟨a₁, ab, a₁₂⟩ := ascends_append.mp d.ascending
  obtain ⟨ae₂, a₂⟩ := ascends_cons.mp (ascends_cons.mp ab).2
  obtain ⟨hnf, hna, hdis⟩ := List.nodup_append'.mp (tiles_nodup t)
  have h0 : NULL ∉ l₁ ++ b :: l₂ := fun h =>
    (chunk_facts ar t (List.mem_append_left allocs h)).1 rfl
  have hseg := d.free.seg
  rw [show l₁ ++ b :: e :: l₂ = (l₁ ++ [b]) ++ e :: l₂ by simp] at hseg
  obtain ⟨hs₁, hse⟩ := seg_append.mp hseg
  have hj := chain_join hs₁ hse.2.2 (by simpa using hnf) (by simpa using h0)
  refine ⟨?_, ?_, ?_, t, ?_⟩
  · have hhd : s.freeBufChain = (l₁ ++ [b] ++ l₂).headD NULL := by
      rw [d.free.head]
      cases l₁ <;> simp
    rw [← hhd] at hj
    simpa using hj
  · refine (d.allocced.setNext_frame (fun h => hdis (by simp) h)).backTo_frame ?_
    exact fun a ha hl => hdis (by simp [hl]) ha
  · refine ascends_around a₁ a₂ (fun a ha => a₁₂ a ha b (by simp)) ?_
    intro c hc
    have := ae₂ c hc
    omega
  · exact fun a ha => h₂ a (hperm.mem_iff.mpr ha)

end Outcomes

/-! ## The branches of the source -/

theorem headD_eq_cons {l : List Nat} {n : Nat} (h : n = l.headD NULL) (hn : n ≠ 0) :
    ∃ e m, l = e :: m := by
  cases l with
  | nil => exact absurd h hn
  | cons e m => exact ⟨e, m, rfl⟩

section Branches
variable {base len : Nat} {s : Shm} {l₁ l₂ allocs : List Nat} {ptr : Nat}

theorem bringBackFirst_spec {e : Nat} (ar : Arena base len)
    (d : Detached base len s (e :: l₂) allocs ptr) (h₂ : ∀ a ∈ e :: l₂, ptr < a) :
    ∃ s' frees', bringBackFirst s ptr (s.bufferSize ptr) = pure s' ∧
      HeapOk base len s' frees' allocs := by
  have d' : Detached base len s ([] ++ e :: l₂) allocs ptr := d
  obtain ⟨hptr, htop, -⟩ := chunk_facts ar d.tiles (List.mem_cons_self (a := ptr))
  obtain ⟨he, -, hend⟩ := chunk_facts ar d.tiles (a := e) (by simp)
  have hne : ptr ≠ e := by have := h₂ e (by simp); omega
  have hfree : s.freeBufChain = e := d.free.head
  have h0 : NULL ∉ l₂ := fun h => d.free.null_notMem (by simp [h])
  have habove := detached_above d' h₂
  by_cases hadj : ptr + s.bufferSize ptr = e
  · -- the first free chunk is taken over
    have hsum : wadd (s.bufferSize e) (s.bufferSize ptr) = s.bufferSize ptr + s.bufferSize e := by
      rw [wadd, Nat.add_comm]
      exact Nat.mod_eq_of_lt (by omega)
    have hn₂ : ptr ∉ l₂ := fun h => absurd (h₂ ptr (List.mem_cons_of_mem e h)) (by omega)
    refine ⟨_, ptr :: l₂, ?_, mergeAbove_ok ar d' (by simp) hadj⟩
    simp only [bringBackFirst, htop, hfree, hadj, if_true, size_of_ne he, pure_bind, hsum,
      setSize_of_ne hptr, next_of_ne he, setNext_of_ne hptr, d.free.seg.2.1, next_of_ne hptr,
      setNext_self, setPrevIf_headD h0, setPrev_of_ne hptr, backTo_setPrev_comm _ _ _ hn₂]
    rfl
  · -- a free chunk of its own, below the first one
    have hhi : ∀ a ∈ e :: l₂, ptr + s.bufferSize ptr < a :=
      ascends_above d.ascending habove (fun h => hadj h.symm)
    refine ⟨_, ptr :: e :: l₂, ?_, insert_ok ar d' (by simp) hhi⟩
    simp only [bringBackFirst, htop, hfree, hadj, if_false, pure_bind,
      setSize_of_ne hptr, setNext_of_ne hptr, setPrev_of_ne he, next_of_ne hptr, setPrev_next,
      setNext_self, Shm.setPrevIf, ne_eq, he, not_false_eq_true, if_true, setPrev_setPrev,
      setPrev_of_ne hptr, setPrev_comm _ _ _ (Ne.symm hne), Function.update_eq_self]
    rfl

theorem bringBackAbove_spec {b : Nat} (ar : Arena base len)
    (d : Detached base len s (l₁ ++ b :: l₂) allocs ptr) (h₁ : ∀ a ∈ l₁ ++ [b], a < ptr)
    (h₂ : ∀ a ∈ l₂, ptr < a) :
    ∃ s' frees', bringBackAbove s ptr (s.bufferSize ptr) b = pure s' ∧
      HeapOk base len s' frees' allocs := by
  have d' : Detached base len s ((l₁ ++ [b]) ++ l₂) allocs ptr := by
    rwa [List.append_assoc]
  obtain ⟨hptr, htop, hpend⟩ := chunk_facts ar d.tiles (List.mem_cons_self (a := ptr))
  obtain ⟨hb, hbtop, hbend⟩ := chunk_facts ar d.tiles (a := b) (by simp)
  have hne : b ≠ ptr := by have := h₁ b (by simp); omega
  have h0 : NULL ∉ l₂ := fun h => d.free.null_notMem (by simp [h])
  obtain ⟨hs₁, hbp, hbn, hs₂⟩ := seg_append.mp d.free.seg
  have hbelow := detached_below d' h₁
  have habove := detached_above d' h₂
  obtain ⟨a₁, ab, a₁₂⟩ := ascends_append.mp d.ascending
  have a₂ := (ascends_cons.mp ab).2
  have hpos : ptr + s.bufferSize ptr ≠ 0 := by
    have : ptr ≠ 0 := hptr
    omega
  have hfree : ∀ y, s.freeBufChain = (l₁ ++ b :: y).headD NULL := fun y =>
    d.free.head.trans (headD_append_cons l₁ l₂ y b NULL)
  by_cases hlo : b + s.bufferSize b = ptr
  · -- adjacent to the free chunk below it
    have hbsum : wadd (s.bufferSize b) (s.bufferSize ptr) = s.bufferSize b + s.bufferSize ptr :=
      Nat.mod_eq_of_lt (by omega)
    by_cases hhi : ptr + s.bufferSize ptr = l₂.headD NULL
    · -- the exact gap between two free chunks
      obtain ⟨e, l, rfl⟩ : ∃ e l, l₂ = e :: l := headD_eq_cons hhi hpos
      obtain ⟨he, -, hend⟩ := chunk_facts ar d.tiles (a := e) (by simp)
      have hhi : ptr + s.bufferSize ptr = e := hhi
      have hbe : e ≠ b := by
        have := h₁ b (by simp)
        omega
      have h0l : NULL ∉ l := fun h => h0 (by simp [h])
      have hen : s.links.next e = l.headD NULL := hs₂.2.1
      have hsum : wadd (s.bufferSize b + s.bufferSize ptr) (s.bufferSize e) =
          s.bufferSize b + s.bufferSize ptr + s.bufferSize e :=
        Nat.mod_eq_of_lt (by omega)
      refine ⟨_, l₁ ++ b :: l, ?_, mergeBoth_ok ar d hlo hhi⟩
      simp only [bringBackAbove, size_of_ne hb, pure_bind, hbtop, hlo, if_true, hbsum,
        setSize_of_ne hb, htop, next_of_ne hb, hbn, List.headD_cons, hhi, size_of_ne he,
        next_of_ne he, hen, Function.update_self, Function.update_of_ne hbe, hsum,
        Function.update_idem, setNext_of_ne hb, setNext_self, setPrevIf_headD h0l]
    · refine ⟨_, l₁ ++ b :: l₂, ?_, mergeBelow_ok d hlo (ascends_above a₂ habove (Ne.symm hhi))⟩
      simp only [bringBackAbove, size_of_ne hb, pure_bind, hbtop, hlo, if_true, hbsum,
        setSize_of_ne hb, htop, next_of_ne hb, hbn, hhi, if_false]
  · have ha : Ascends s.bufferSize (l₁ ++ [b]) := by
      have h := d'.ascending
      exact (ascends_append.mp h).1
    have hlo' := ascends_below ha hbelow hlo
    by_cases hhi : ptr + s.bufferSize ptr = l₂.headD NULL
    · -- adjacent with the one right above it
      obtain ⟨e, l, rfl⟩ : ∃ e l, l₂ = e :: l := headD_eq_cons hhi hpos
      obtain ⟨he, -, hend⟩ := chunk_facts ar d.tiles (a := e) (by simp)
      have hhi : ptr + s.bufferSize ptr = e := hhi
      have h0l : NULL ∉ l := fun h => h0 (by simp [h])
      have hen : s.links.next e = l.headD NULL := hs₂.2.1
      have hsum : wadd (s.bufferSize ptr) (s.bufferSize e) = s.bufferSize ptr + s.bufferSize e :=
        Nat.mod_eq_of_lt (by omega)
      refine ⟨_, (l₁ ++ [b]) ++ ptr :: l, ?_, mergeAbove_ok ar d' hlo' hhi⟩
      simp only [bringBackAbove, size_of_ne hb, pure_bind, hbtop, hlo, if_false, htop,
        next_of_ne hb, hbn, List.headD_cons, hhi, if_true, size_of_ne he, hsum,
        setSize_of_ne hptr, next_of_ne he, hen, setNext_of_ne hptr, setPrev_of_ne hptr,
        setNext_of_ne hb, next_of_ne hptr, setNext_other _ _ (Ne.symm hne), setPrev_next,
        setNext_self, setPrevIf_headD h0l, backTo_setNext, List.append_assoc,
        List.singleton_append, hfree (ptr :: l), Links.insert, linkTo_concat,
        List.getLastD_concat]
    · refine ⟨_, (l₁ ++ [b]) ++ ptr :: l₂, ?_,
        insert_ok ar d' hlo' (ascends_above a₂ habove (Ne.symm hhi))⟩
      simp only [bringBackAbove, size_of_ne hb, pure_bind, hbtop, hlo, if_false,
        setSize_of_ne hptr, htop, next_of_ne hb, hbn, hhi, setNext_of_ne hptr, setPrev_of_ne hptr,
        setNext_of_ne hb, next_of_ne hptr, setNext_other _ _ (Ne.symm hne), setPrev_next,
        setNext_self, setPrevIf_headD h0, backTo_setNext, List.append_assoc,
        List.singleton_append, hfree (ptr :: l₂), Links.insert, linkTo_concat,
        List.getLastD_concat, Function.update_eq_self]

theorem bringBack_spec {frees : List Nat} (ar : Arena base len)
    (d : Detached base len s frees allocs ptr) :
    ∃ s' frees', bringBack s ptr (s.bufferSize ptr) = pure s' ∧
      HeapOk base len s' frees' allocs := by
  have hptr := (chunk_facts ar d.tiles (List.mem_cons_self (a := ptr))).1
  have hnot : ptr ∉ frees := fun h =>
    (List.nodup_cons.mp (tiles_nodup d.tiles)).1 (List.mem_append_left allocs h)
  have hlen : frees.length < addrSpace := by
    have h := tiles_length d.tiles
    have he := ar.end_lt
    simp only [List.length_cons, List.length_append] at h
    omega
  obtain ⟨l₁, l₂, rfl, h₁, h₂⟩ := ascends_split d.ascending hnot
  rcases List.eq_nil_or_concat l₁ with rfl | ⟨x, b, rfl⟩
  · cases l₂ with
    | nil =>
      -- all memory had been allocated
      have hfree : s.freeBufChain = NULL := d.free.head
      refine ⟨_, [ptr], ?_, insert_ok ar d (by simp) (by simp)⟩
      simp only [bringBack, hfree, if_true, setSize_of_ne hptr, pure_bind, setNext_of_ne hptr,
        setPrev_of_ne hptr, Function.update_eq_self]
      rfl
    | cons e l₂ =>
      have hfree : s.freeBufChain = e := d.free.head
      have he : e ≠ NULL := d.free.ne_null (by simp)
      have hlt : ptr < e := h₂ e (by simp)
      simp only [bringBack, hfree, he, if_false, hlt, if_true]
      exact bringBackFirst_spec ar d h₂
  · rw [List.concat_eq_append] at *
    rw [List.append_assoc, List.singleton_append] at d hlen
    have hmem : s.freeBufChain ∈ x ++ [b] := by
      rw [d.free.head]
      cases x <;> simp
    have hne : s.freeBufChain ≠ NULL :=
      d.free.ne_null (by simp only [List.mem_append, List.mem_cons] at hmem ⊢; tauto)
    have hlt : ¬ptr < s.freeBufChain := by
      have := h₁ _ hmem
      omega
    have hspot : findSpot s ptr addrSpace s.freeBufChain = pure b := by
      rw [d.free.head]
      refine findSpot_eq h₂ d.free.seg d.free.null_notMem h₁ ?_
      simp only [List.length_append] at hlen
      omega
    simp only [bringBack, hne, if_false, hlt, hspot, pure_bind]
    exact bringBackAbove_spec ar d h₁ h₂

end Branches

/-- Releasing an allocated chunk returns, keeps the invariant, and takes exactly
that chunk off the allocated chain. -/
theorem doRelease_spec {base len : Nat} {s : Shm} {frees allocs : List Nat} {ptr : Nat}
    (ar : Arena base len) (ok : HeapOk base len s frees allocs) (hptr : ptr ∈ allocs) :
    ∃ s' frees' allocs', doRelease s ptr = pure s' ∧ HeapOk base len s' frees' allocs' ∧
      allocs.Perm (ptr :: allocs') := by
  obtain ⟨s₁, allocs', htake, d, -, hperm⟩ := takeAllocced_spec ar ok hptr
  obtain ⟨s', frees', hback, ok'⟩ := bringBack_spec ar d
  have hne := (chunk_facts ar d.tiles (List.mem_cons_self (a := ptr))).1
  refine ⟨s', frees', allocs', ?_, ok', hperm⟩
  simp only [doRelease, htake, pure_bind, size_of_ne hne, hback]

end ChromeEc.Shmalloc
