import ChromeEc.Shmalloc.Reachable

/- Releasing a pointer that is not handed out.

  The sanity check of `do_release` looks for the chunk on the allocated chain. It
  compares the head by itself and walks on from the chunk behind it, so it takes
  for granted that there is a head: with nothing allocated it follows `NULL`.
  Otherwise a stray pointer is turned away and nothing changes
  (`release_stray_iff`). -/
namespace ChromeEc.Shmalloc
open Lib Links

/-- A run of the allocator whose clients may release any pointer. -/
inductive Runs (base len : Nat) : Shm → List Nat → Prop
  | init (links : Links Nat) (sizes : Nat → Nat) :
      Runs base len (sharedMemInit links sizes base len) []
  | acquire {s s' : Shm} {live : List Nat} {irq : Bool} {size : Int} {rv : Ec} {dest : Nat} :
      Runs base len s live → 0 ≤ size → size < 2 ^ 31 → sharedMemAcquire s irq size = .ok (rv, dest, s') →
      Runs base len s' (if rv = .success then dest :: live else live)
  | release {s s' : Shm} {live : List Nat} {irq : Bool} {ptr : Nat} :
      Runs base len s live → ptr < addrSpace → sharedMemRelease s irq ptr = .ok s' →
      Runs base len s' (if irq then live else live.erase ptr)

/-! ## The sanity check -/

theorem findAllocced_absent {s : Shm} {ptr : Nat} : ∀ {l : List Nat} {p fuel : Nat},
    Seg s.links p l NULL → NULL ∉ l → ptr ∉ l → l.length < fuel →
    findAllocced s ptr fuel (l.headD NULL) = pure NULL := by
  intro l
  induction l with
  | nil =>
    intro p fuel _ _ _ hf
    obtain ⟨fuel, rfl⟩ : ∃ k, fuel = k + 1 := ⟨fuel - 1, by omega⟩
    rfl
  | cons a l ih =>
    intro p fuel hs h0 hm hf
    obtain ⟨fuel, rfl⟩ : ∃ k, fuel = k + 1 := ⟨fuel - 1, by omega⟩
    obtain ⟨hne, hm⟩ := List.ne_and_not_mem_of_not_mem_cons hm
    have ha : a ≠ NULL := fun e => h0 (by simp [e])
    rw [List.headD_cons, findAllocced, if_neg ha, if_neg (Ne.symm hne), next_of_ne ha, pure_bind, hs.2.1]
    exact ih hs.2.2 (fun h => h0 (List.mem_cons_of_mem a h)) hm (by simpa using hf)

section Check
variable {s : Shm} {c : Nat}

/-- A chunk that is not on the chain is turned away. -/
theorem takeAllocced_absent {allocs : List Nat} (chain : Chain s.links NULL s.alloccedBufChain allocs)
    (hlen : allocs.length ≤ addrSpace) (hsome : allocs ≠ []) (hc : c ∉ allocs) : takeAllocced s c = pure none := by
  obtain ⟨a, l, rfl⟩ := List.exists_cons_of_ne_nil hsome
  have hhead : s.alloccedBufChain = a := chain.head
  have ha : a ≠ NULL := chain.ne_null List.mem_cons_self
  have h0 : NULL ∉ l := fun h => chain.null_notMem (List.mem_cons_of_mem a h)
  obtain ⟨hne, hc⟩ := List.ne_and_not_mem_of_not_mem_cons hc
  have hwalk := findAllocced_absent chain.seg.2.2 h0 hc (Nat.lt_of_succ_le hlen)
  rw [takeAllocced, hhead, if_neg hne, next_of_ne ha, pure_bind, chain.seg.2.1, hwalk, pure_bind, if_pos rfl]

/-- With nothing allocated the check follows `NULL`, whatever it is asked for. -/
theorem takeAllocced_empty (hnone : s.alloccedBufChain = NULL) : takeAllocced s c = throw .nullDeref := by
  by_cases hc : c = NULL
  · rw [takeAllocced, hnone, if_pos hc, hc]
    rfl
  · rw [takeAllocced, hnone, if_neg hc]
    rfl

end Check

/-! ## The header in front of a pointer -/

/-- Only the pointer that was handed out with a chunk leads back to it. -/
theorem header_of_chunk {c ptr : Nat} (hptr : ptr < addrSpace) (hc : c + headerSize < addrSpace)
    (hback : wadd ptr (addrSpace - headerSize) = c) : ptr = c + headerSize := by
  rw [wadd] at hback
  simp only [addrSpace, headerSize] at *
  omega

theorem stray_header {base len : Nat} {s : Shm} {frees allocs live : List Nat} {ptr : Nat} (ar : Arena base len)
    (ok : HeapOk base len s frees allocs) (hlive : live.Perm (allocs.map (· + headerSize))) (hptr : ptr < addrSpace)
    (hstray : ptr ∉ live) : wadd ptr (addrSpace - headerSize) ∉ allocs := by
  intro hmem
  have hchunk := List.mem_append_right frees hmem
  have hsize := (ok.holdsHeader _ hchunk).1
  have hend := (chunk_facts ar ok.tiles hchunk).2.2
  have heq := header_of_chunk hptr (by omega) rfl
  refine hstray (hlive.mem_iff.mpr (List.mem_map.mpr ⟨_, hmem, heq.symm⟩))

/-! ## One release, and every run -/

section Release
variable {base len : Nat} {s : Shm} {live : List Nat} {ptr : Nat}

theorem sharedMemRelease_stray (ar : Arena base len) (inv : Inv base len s live) (irq : Bool) (hnull : ptr ≠ NULL)
    (hptr : ptr < addrSpace) (hstray : ptr ∉ live) :
    sharedMemRelease s irq ptr = if live ≠ [] ∨ irq = true then .ok s else .error .nullDeref := by
  obtain ⟨frees, allocs, ok, hlive⟩ := inv
  cases irq with
  | true => rw [if_pos (.inr rfl)]; rfl
  | false =>
    rw [sharedMemRelease, if_neg Bool.false_ne_true, if_neg hnull, doRelease]
    have hnone : live = [] ↔ allocs = [] := by
      rw [← List.length_eq_zero_iff, hlive.length_eq, List.length_map, List.length_eq_zero_iff]
    by_cases hempty : allocs = []
    · have hhead : s.alloccedBufChain = NULL := by
        rw [ok.allocced.head, hempty]
        rfl
      rw [takeAllocced_empty hhead, if_neg (by simp [hnone.mpr hempty])]
      rfl
    · have hlen : allocs.length ≤ addrSpace := by
        have hchunks := tiles_length ok.tiles
        have hend := ar.end_lt
        rw [List.length_append] at hchunks
        omega
      have habsent := stray_header ar ok hlive hptr hstray
      rw [takeAllocced_absent ok.allocced hlen hempty habsent, if_pos (.inl (fun h => hempty (hnone.mp h)))]
      rfl

theorem runs_reachable (ar : Arena base len) (h : Runs base len s live) : Reachable base len s live := by
  induction h with
  | init links sizes => exact .init links sizes
  | acquire _ h0 h1 he ih => exact ih.acquire h0 h1 he
  | @release s s' live irq ptr _ hptr he ih =>
    by_cases hmem : ptr ∈ live
    · exact ih.release hmem he
    · -- nothing was released: the pointer is `NULL`, or it is turned away
      have hsame : s' = s := by
        by_cases hnull : ptr = NULL
        · rw [sharedMemRelease, if_pos hnull, ite_self] at he
          cases he
          rfl
        · rw [sharedMemRelease_stray ar (reachable_inv ar ih) irq hnull hptr hmem] at he
          split at he
          · cases he
            rfl
          · cases he
      rw [hsame, List.erase_of_not_mem hmem, ite_self]
      exact ih

/-- A stray pointer is turned away, and nothing is changed, exactly when something is allocated or the call is made
in an interrupt. -/
theorem release_stray_iff (ar : Arena base len) (h : Runs base len s live) (irq : Bool) (hnull : ptr ≠ NULL)
    (hptr : ptr < addrSpace) (hstray : ptr ∉ live) :
    sharedMemRelease s irq ptr = .ok s ↔ live ≠ [] ∨ irq = true := by
  rw [sharedMemRelease_stray ar (reachable_inv ar (runs_reachable ar h)) irq hnull hptr hstray]
  by_cases hcond : live ≠ [] ∨ irq = true
  · rw [if_pos hcond]
    exact iff_of_true rfl hcond
  · rw [if_neg hcond]
    exact iff_of_false (by simp) hcond

end Release

/-- `acquire(8)` on a 64-byte arena hands out 4108; 4112 was never handed out. -/
theorem release_stray_small :
    ∃ s, Runs 4096 64 s [4108] ∧ sharedMemRelease s false 4112 = .ok s := by
  have h₀ : Runs 4096 64 _ [] := Runs.init ⟨id, id⟩ id
  obtain ⟨s, hs⟩ : ∃ s, sharedMemAcquire (sharedMemInit ⟨id, id⟩ id 4096 64) false 8 =
      .ok (.success, 4108, s) := ⟨_, rfl⟩
  have h : Runs 4096 64 s [4108] := h₀.acquire (by decide) (by decide) hs
  exact ⟨s, h, (release_stray_iff arena_small h false (by decide) (by decide) (by decide)).mpr (.inl (by decide))⟩

/-- Released when nothing is allocated yet, the pointer makes the check follow `NULL`. -/
theorem release_stray_faults :
    ∃ s, Runs 4096 64 s [] ∧ sharedMemRelease s false 4108 = .error .nullDeref ∧
      sharedMemRelease s false 4108 ≠ .ok s := by
  refine ⟨_, Runs.init ⟨id, id⟩ id, rfl, ?_⟩
  rw [show sharedMemRelease (sharedMemInit ⟨id, id⟩ id 4096 64) false 4108 = .error .nullDeref from rfl]
  intro h
  cases h

end ChromeEc.Shmalloc
