import ChromeEc.Shmalloc.Reachable

/- What `shared_mem_size` promises, and what `do_acquire` takes.

  Both walk the free chain: one for its biggest chunk (`maxAvailable_spec`), the other for
  a tightest fit (`findCandidate_spec`). A request is granted when some chunk has room for
  it, that is when the biggest one has, so the two agree on every free chain that has a
  chunk (`sizeExact_iff`). The biggest of no chunks is 0, and the room in it, less the
  header, is negative.

  The chunk that is taken is a tightest fit, and it is cut only where more than a header
  would be left (`sharedMemAcquire_takes`). -/
namespace ChromeEc.Shmalloc
open Lib Links

/-- The size rounded up to a multiple of `sizeof(int)`. -/
def aligned (size : Int) : Int := (size + 3) / 4 * 4

/-- `shared_mem_size` is not negative, and a request is granted just when it fits in there. -/
def SizeExact (s : Shm) (irq : Bool) : Prop :=
  ∃ avail, sharedMemSize s = .ok avail ∧ 0 ≤ avail ∧ ∀ size, 0 ≤ size → size < 2 ^ 31 →
    ((∃ dest s', sharedMemAcquire s irq size = .ok (.success, dest, s')) ↔ aligned size ≤ avail)

/-- Of the free chunks `frees`, of which `frees'` are left, a tightest fit was handed out:
whole, or without its tail when the tail is longer than a header. -/
structure Takes (s s' : Shm) (frees frees' : List Nat) (n : Nat) : Prop where
  tightest : TightestFit s.bufferSize frees n s'.alloccedBufChain
  whole : s.bufferSize s'.alloccedBufChain - n ≤ headerSize →
    frees' = frees.erase s'.alloccedBufChain ∧ s'.bufferSize s'.alloccedBufChain = s.bufferSize s'.alloccedBufChain
  split : headerSize < s.bufferSize s'.alloccedBufChain - n →
    frees' = frees.map (fun a => if a = s'.alloccedBufChain then a + n else a) ∧ s'.bufferSize s'.alloccedBufChain = n

/-- Every request that is granted takes a tightest fit out of the free chain. -/
def BestFit (base len : Nat) (s : Shm) (irq : Bool) : Prop :=
  ∀ size dest s', 0 ≤ size → size < 2 ^ 31 → sharedMemAcquire s irq size = .ok (.success, dest, s') →
    ∃ frees allocs frees', HeapOk base len s frees allocs ∧ HeapOk base len s' frees' (s'.alloccedBufChain :: allocs) ∧
      dest = s'.alloccedBufChain + headerSize ∧ Takes s s' frees frees' (roomFor size)

/-! ## The biggest free chunk -/

theorem maxAvailable_eq {s : Shm} : ∀ {l : List Nat} {p fuel best : Nat},
    Seg s.links p l NULL → NULL ∉ l → l.length < fuel →
    maxAvailable s fuel (l.headD NULL) best = pure (l.foldl (fun m a => max m (s.bufferSize a)) best) := by
  intro l
  induction l with
  | nil =>
    intro p fuel best _ _ hf
    obtain ⟨fuel, rfl⟩ : ∃ k, fuel = k + 1 := ⟨fuel - 1, by omega⟩
    rfl
  | cons a l ih =>
    intro p fuel best hs h0 hf
    obtain ⟨fuel, rfl⟩ : ∃ k, fuel = k + 1 := ⟨fuel - 1, by omega⟩
    have ha : a ≠ NULL := fun e => h0 (by simp [e])
    have hbest : (if best < s.bufferSize a then s.bufferSize a else best) = max best (s.bufferSize a) := by
      split <;> omega
    rw [List.headD_cons, maxAvailable, if_neg ha, size_of_ne ha, pure_bind, next_of_ne ha, pure_bind, hs.2.1, hbest]
    exact ih hs.2.2 (fun h => h0 (List.mem_cons_of_mem a h)) (by simpa using hf)

theorem le_foldl_max {α : Type} {f : α → Nat} {l : List α} {n best : Nat} :
    n ≤ l.foldl (fun m a => max m (f a)) best ↔ n ≤ best ∨ ∃ a ∈ l, n ≤ f a := by
  induction l generalizing best with
  | nil => simp
  | cons a l ih => rw [List.foldl_cons, ih, le_max_iff, List.exists_mem_cons_iff, or_assoc]

section Size
variable {base len : Nat} {s : Shm} {frees allocs : List Nat}

theorem frees_length (ar : Arena base len) (ok : HeapOk base len s frees allocs) : frees.length < addrSpace := by
  have hchunks := tiles_length ok.tiles
  have hend := ar.end_lt
  have hbase := ar.base_pos
  rw [List.length_append] at hchunks
  omega

/-- A size is at most the biggest one if a chunk is that big. -/
theorem maxAvailable_spec (ar : Arena base len) (ok : HeapOk base len s frees allocs) :
    ∃ m, maxAvailable s addrSpace s.freeBufChain 0 = pure m ∧ ∀ n, 0 < n → (n ≤ m ↔ ∃ a ∈ frees, n ≤ s.bufferSize a) := by
  refine ⟨frees.foldl (fun m a => max m (s.bufferSize a)) 0, ?_, ?_⟩
  · rw [ok.free.head]
    exact maxAvailable_eq ok.free.seg ok.free.null_notMem (frees_length ar ok)
  · intro n hn
    rw [le_foldl_max, or_iff_right (by omega)]

theorem frees_nil_iff (ok : HeapOk base len s frees allocs) : s.freeBufChain = NULL ↔ frees = [] := by
  rw [ok.free.head]
  cases frees with
  | nil => exact iff_of_true rfl rfl
  | cons a l => exact iff_of_false (ok.free.ne_null List.mem_cons_self) (List.cons_ne_nil a l)

theorem sharedMemSize_spec (ar : Arena base len) (ok : HeapOk base len s frees allocs) (hsome : frees ≠ []) :
    ∃ avail, sharedMemSize s = .ok avail ∧ 0 ≤ avail ∧
      ∀ n : Nat, (n : Int) ≤ avail ↔ ∃ a ∈ frees, n + headerSize ≤ s.bufferSize a := by
  obtain ⟨m, hmax, hm⟩ := maxAvailable_spec ar ok
  obtain ⟨a, l, rfl⟩ := List.exists_cons_of_ne_nil hsome
  have hpos : 0 < headerSize := by decide
  have hheader : headerSize ≤ m := (hm headerSize hpos).mpr ⟨a, by simp, (ok.holdsHeader a (by simp)).1⟩
  -- the biggest chunk lies in the arena, so its size is an `int`
  obtain ⟨c, hc, hcm⟩ := (hm m (by omega)).mp (le_refl m)
  have hinside := tiles_inside ok.tiles (List.mem_append_left allocs hc)
  have hlt := ar.lt_headroom
  refine ⟨(m - headerSize : Nat), ?_, by omega, ?_⟩
  · have hwrap : (m + (addrSpace - headerSize)) % addrSpace = m - headerSize := by
      simp only [addrSpace, headerSize, maxHeadroom] at *
      omega
    have hint : m - headerSize < 2 ^ 31 := by
      simp only [maxHeadroom] at hlt
      omega
    simp only [sharedMemSize, hmax, pure_bind, hwrap, if_pos hint, Int.sub_zero]
    rfl
  · intro n
    rw [← hm (n + headerSize) (by omega)]
    omega

theorem sharedMemSize_empty (hnone : s.freeBufChain = NULL) : sharedMemSize s = .ok (-12) := by
  rw [sharedMemSize, hnone]
  rfl

end Size

/-! ## The chunk that is taken -/

section Take
variable {base len : Nat} {s : Shm} {frees allocs : List Nat} {size : Int}

theorem doAcquire_takes {c : Nat} (ar : Arena base len) (ok : HeapOk base len s frees allocs)
    (hroom : headerSize ≤ roomFor size) (h4 : 4 ∣ roomFor size)
    (hfind : findCandidate s (roomFor size) addrSpace s.freeBufChain NULL maxHeadroom =
      pure (c, s.bufferSize c - roomFor size)) (hfit : TightestFit s.bufferSize frees (roomFor size) c) :
    ∃ s' frees', doAcquire s size = pure (some (c, s')) ∧ Detached base len s' frees' allocs c ∧
      (s.bufferSize c - roomFor size ≤ headerSize → frees' = frees.erase c ∧ s'.bufferSize c = s.bufferSize c) ∧
      (headerSize < s.bufferSize c - roomFor size →
        frees' = frees.map (fun a => if a = c then a + roomFor size else a) ∧ s'.bufferSize c = roomFor size) := by
  have hc : c ≠ NULL := ok.free.ne_null hfit.1
  obtain ⟨l₁, l₂, rfl⟩ := List.append_of_mem hfit.1
  have hnodup := (List.nodup_append'.mp (tiles_nodup ok.tiles)).1
  obtain ⟨-, hnd₂, hdis⟩ := List.nodup_append'.mp hnodup
  have h₁ : c ∉ l₁ := fun h => hdis h List.mem_cons_self
  have h₂ : c ∉ l₂ := (List.nodup_cons.mp hnd₂).1
  by_cases hhead : s.bufferSize c - roomFor size ≤ headerSize
  · obtain ⟨s', htake, hd, hsize⟩ := takeWhole_spec ok
    refine ⟨s', l₁ ++ l₂, ?_, hd, ?_, fun hlt => absurd hhead (by omega)⟩
    · simp only [doAcquire, hfind, pure_bind, hc, if_false, hhead, if_true, htake]
    · intro _
      rw [List.erase_append_right _ h₁, List.erase_cons_head, hsize]
      exact ⟨rfl, rfl⟩
  · obtain ⟨s', htake, hd, hsize⟩ := takeSplit_spec ar ok hroom h4 (by omega)
    refine ⟨s', l₁ ++ (c + roomFor size) :: l₂, ?_, hd, fun hle => absurd hle hhead, ?_⟩
    · simp only [doAcquire, hfind, pure_bind, hc, if_false, hhead, htake]
    · intro _
      have hkeep : ∀ l : List Nat, c ∉ l → l.map (fun a => if a = c then a + roomFor size else a) = l := by
        intro l hl
        refine (List.map_congr_left ?_).trans (List.map_id' l)
        intro a ha
        exact if_neg (ne_of_mem_of_not_mem ha hl)
      rw [List.map_append, List.map_cons, if_pos rfl, hkeep l₁ h₁, hkeep l₂ h₂]
      exact ⟨rfl, hsize⟩

/-- A request that some free chunk has room for is granted a tightest fit; any other one is refused. -/
theorem sharedMemAcquire_takes (ar : Arena base len) (ok : HeapOk base len s frees allocs) (h0 : 0 ≤ size)
    (h1 : size < 2 ^ 31) :
    (sharedMemAcquire s false size = .ok (.busy, NULL, s) ∧ ∀ a ∈ frees, s.bufferSize a < roomFor size) ∨
      ∃ s' frees', sharedMemAcquire s false size = .ok (.success, s'.alloccedBufChain + headerSize, s') ∧
        HeapOk base len s' frees' (s'.alloccedBufChain :: allocs) ∧ Takes s s' frees frees' (roomFor size) := by
  by_cases hfree : s.freeBufChain = NULL
  · refine .inl ⟨?_, ?_⟩
    · rw [sharedMemAcquire, if_neg Bool.false_ne_true, if_pos hfree]
      rfl
    · rw [(frees_nil_iff ok).mp hfree]
      simp
  · have hroom : headerSize ≤ roomFor size := by
      rw [roomFor_eq h0 h1]
      omega
    rcases findCandidate_spec (n := roomFor size) ar ok with ⟨hfind, hall⟩ | ⟨c, hfind, hfit⟩
    · refine .inl ⟨?_, hall⟩
      simp only [sharedMemAcquire, hfree, if_false, doAcquire, hfind, pure_bind, if_true, Bool.false_eq_true]
      rfl
    · obtain ⟨s₁, frees', htake, d, hwhole, hsplit⟩ := doAcquire_takes ar ok hroom (dvd_roomFor size) hfind hfit
      have hpush := sharedMemAcquire_granted ar hfree htake d
      exact .inr ⟨_, frees', hpush, push_ok _ ar d, hfit, hwhole, hsplit⟩

end Take

/-! ## Every reachable state -/

theorem aligned_eq {size : Int} (h0 : 0 ≤ size) : aligned size = ((size.toNat + 3) / 4 * 4 : Nat) := by
  rw [aligned]
  omega

section Every
variable {base len : Nat} {s : Shm} {frees allocs live : List Nat}

theorem sizeExact_iff (ar : Arena base len) (ok : HeapOk base len s frees allocs) (irq : Bool) :
    SizeExact s irq ↔ s.freeBufChain ≠ NULL ∧ irq = false := by
  constructor
  · rintro ⟨avail, hsize, hpos, hexact⟩
    have hfree : s.freeBufChain ≠ NULL := by
      intro hnone
      rw [sharedMemSize_empty hnone, Except.ok.injEq] at hsize
      omega
    refine ⟨hfree, ?_⟩
    -- nothing is asked for, so there is room, but in an interrupt even that is refused
    obtain ⟨dest, s', hgranted⟩ := (hexact 0 (le_refl 0) (by decide)).mpr hpos
    rcases irq with _ | _
    · rfl
    · cases hgranted
  · rintro ⟨hfree, rfl⟩
    obtain ⟨avail, hsize, hpos, havail⟩ := sharedMemSize_spec ar ok fun hnil => hfree ((frees_nil_iff ok).mpr hnil)
    refine ⟨avail, hsize, hpos, ?_⟩
    intro size h0 h1
    rw [aligned_eq h0, havail, ← roomFor_eq h0 h1]
    rcases sharedMemAcquire_takes ar ok h0 h1 with ⟨hbusy, hall⟩ | ⟨s', frees', hgranted, -, htakes⟩
    · refine iff_of_false ?_ ?_
      · rintro ⟨dest, s', h⟩
        cases hbusy.symm.trans h
      · rintro ⟨a, ha, hroom⟩
        exact absurd (hall a ha) (by omega)
    · exact iff_of_true ⟨_, s', hgranted⟩ ⟨_, htakes.tightest.1, htakes.tightest.2.1⟩

theorem bestFit (ar : Arena base len) (ok : HeapOk base len s frees allocs) (irq : Bool) : BestFit base len s irq := by
  intro size dest s' h0 h1 h
  rcases irq with _ | _
  · rcases sharedMemAcquire_takes ar ok h0 h1 with ⟨hbusy, -⟩ | ⟨s₁, frees', hgranted, ok', htakes⟩
    · cases hbusy.symm.trans h
    · cases hgranted.symm.trans h
      exact ⟨frees, allocs, frees', ok, ok', rfl, htakes⟩
  · cases h

/-- The size is exact and the fit the best one in every reachable state in which something is free, outside interrupts,
and in no other. -/
theorem shared_mem_size_exact_iff (ar : Arena base len) (h : Reachable base len s live) (irq : Bool) :
    SizeExact s irq ∧ BestFit base len s irq ↔ s.freeBufChain ≠ NULL ∧ irq = false := by
  obtain ⟨frees, allocs, ok, -⟩ := reachable_inv ar h
  rw [and_iff_left (bestFit ar ok irq)]
  exact sizeExact_iff ar ok irq

/-- When all that was acquired has been released, the arena is one free chunk again, whatever the run was. -/
theorem all_released (ar : Arena base len) (h : Reachable base len s []) :
    Shape base len s [base] [] ∧ s.bufferSize base = len ∧ sharedMemSize s = .ok (len - headerSize) := by
  obtain ⟨frees, allocs, ok, hlive⟩ := reachable_inv ar h
  obtain rfl : allocs = [] := List.map_eq_nil_iff.mp (List.nil_perm.mp hlive)
  have hheader := ar.header_lt
  have htiles := ok.tiles
  rw [List.append_nil] at htiles
  have hone : chunksOf s.bufferSize frees = [(base, len)] := by
    refine htiles.single (by omega) fun c hc d hd => ?_
    obtain ⟨a, ha, rfl⟩ := List.mem_map.mp hc
    obtain ⟨b, hb, rfl⟩ := List.mem_map.mp hd
    exact ok.shape.coalesced a ha b hb
  obtain ⟨a, rfl, ha⟩ := List.map_eq_singleton_iff.mp hone
  obtain ⟨rfl, hsize⟩ := Prod.mk.inj ha
  refine ⟨ok.shape, hsize, ?_⟩
  obtain ⟨avail, havail, hpos, hall⟩ := sharedMemSize_spec ar ok (List.cons_ne_nil _ _)
  have hfits := (hall (len - headerSize)).mpr ⟨a, List.mem_singleton_self a, by omega⟩
  obtain ⟨b, hb, hroom⟩ := (hall avail.toNat).mp (by omega)
  rw [List.mem_singleton.mp hb, hsize] at hroom
  rw [havail, show avail = len - headerSize by omega]

end Every

/-- Three buffers of a 256-byte arena, of which the first is released: 16 bytes are free below the others and 152
above them, and the ones below are the tighter fit for 8. -/
theorem shared_mem_size_exact_fragmented :
    ∃ s, Reachable 4096 256 s [4172, 4136] ∧ (∃ s', sharedMemAcquire s false 8 = .ok (.success, 4108, s')) ∧
      SizeExact s false ∧ BestFit 4096 256 s false := by
  have ar : Arena 4096 256 := ⟨by decide, by decide, by decide, by decide, by decide⟩
  obtain ⟨s₁, s₂, s₃, s, t, h₁, h₂, h₃, h₄, hfree, hfit⟩ : ∃ s₁ s₂ s₃ s t,
      sharedMemAcquire (sharedMemInit ⟨id, id⟩ id 4096 256) false 16 = .ok (.success, 4108, s₁) ∧
      sharedMemAcquire s₁ false 24 = .ok (.success, 4136, s₂) ∧ sharedMemAcquire s₂ false 16 = .ok (.success, 4172, s₃) ∧
      sharedMemRelease s₃ false 4108 = .ok s ∧ s.freeBufChain = 4096 ∧
      sharedMemAcquire s false 8 = .ok (.success, 4108, t) := ⟨_, _, _, _, _, rfl, rfl, rfl, rfl, rfl, rfl⟩
  have run₁ : Reachable 4096 256 s₁ [4108] := (Reachable.init ⟨id, id⟩ id).acquire (by decide) (by decide) h₁
  have run₂ : Reachable 4096 256 s₂ [4136, 4108] := run₁.acquire (by decide) (by decide) h₂
  have run₃ : Reachable 4096 256 s₃ [4172, 4136, 4108] := run₂.acquire (by decide) (by decide) h₃
  have run : Reachable 4096 256 s [4172, 4136] := run₃.release (by decide) h₄
  refine ⟨s, run, ⟨t, hfit⟩, (shared_mem_size_exact_iff ar run false).mpr ⟨?_, rfl⟩⟩
  rw [hfree]
  decide

theorem all_released_small : ∃ s t,
    sharedMemAcquire (sharedMemInit ⟨id, id⟩ id 4096 64) false 16 = .ok (.success, 4108, s) ∧
    sharedMemRelease s false 4108 = .ok t ∧ Shape 4096 64 t [4096] [] ∧ sharedMemSize t = .ok (64 - headerSize) := by
  obtain ⟨s, t, hs, ht⟩ : ∃ s t, sharedMemAcquire (sharedMemInit ⟨id, id⟩ id 4096 64) false 16 = .ok (.success, 4108, s) ∧
      sharedMemRelease s false 4108 = .ok t := ⟨_, _, rfl, rfl⟩
  have h₁ : Reachable 4096 64 s [4108] := (Reachable.init ⟨id, id⟩ id).acquire (by decide) (by decide) hs
  have h := all_released arena_small (h₁.release (by decide) ht)
  exact ⟨s, t, hs, ht, h.1, h.2.2⟩

/-- A buffer of 40 bytes takes the whole of a 64-byte arena, and the room that is left is negative. -/
theorem shared_mem_size_negative :
    ∃ s, Reachable 4096 64 s [4108] ∧ sharedMemSize s = .ok (-12) ∧ ¬SizeExact s false := by
  have h₀ : Reachable 4096 64 _ [] := Reachable.init ⟨id, id⟩ id
  obtain ⟨s, hs, hsize⟩ : ∃ s, sharedMemAcquire (sharedMemInit ⟨id, id⟩ id 4096 64) false 40 = .ok (.success, 4108, s) ∧
      sharedMemSize s = .ok (-12) := ⟨_, rfl, rfl⟩
  refine ⟨s, h₀.acquire (by decide) (by decide) hs, hsize, ?_⟩
  rintro ⟨avail, h, hpos, -⟩
  rw [hsize, Except.ok.injEq] at h
  omega

end ChromeEc.Shmalloc
