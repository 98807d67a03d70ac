import ChromeEc.Shmalloc.Release
import ChromeEc.Shmalloc.Acquire

/- Runs of the shared-memory allocator.

  `Reachable base len s live` is a run of `shared_mem_acquire` and
  `shared_mem_release` from `shared_mem_init`, in any order, in which only live
  pointers are released; `live` is the list of pointers handed out and not yet
  given back. What is proved: in every reachable state the heap has the shape
  its clients rely on, no call of such a run faults, and an acquired buffer has
  the room asked for (`shared_mem_heap_invariant`). -/
namespace ChromeEc.Shmalloc
open Lib Links

inductive Reachable (base len : Nat) : Shm → List Nat → Prop
  | init (links : Links Nat) (sizes : Nat → Nat) :
      Reachable base len (sharedMemInit links sizes base len) []
  | acquire {s s' : Shm} {live : List Nat} {irq : Bool} {size : Int} {rv : Ec} {dest : Nat} :
      Reachable base len s live → 0 ≤ size → size < 2 ^ 31 →
      sharedMemAcquire s irq size = .ok (rv, dest, s') →
      Reachable base len s' (if rv = .success then dest :: live else live)
  | release {s s' : Shm} {live : List Nat} {irq : Bool} {ptr : Nat} :
      Reachable base len s live → ptr ∈ live → sharedMemRelease s irq ptr = .ok s' →
      Reachable base len s' (if irq then live else live.erase ptr)

/-- The heap as seen from outside: two well-formed doubly linked chains, chunks
that tile the arena, and a free chain that ascends and is fully coalesced. -/
structure Shape (base len : Nat) (s : Shm) (frees allocs : List Nat) : Prop where
  freeChain : Chain s.links NULL s.freeBufChain frees
  alloccedChain : Chain s.links NULL s.alloccedBufChain allocs
  freeHead : s.freeBufChain ≠ NULL → s.links.prev s.freeBufChain = NULL
  alloccedHead : s.alloccedBufChain ≠ NULL → s.links.prev s.alloccedBufChain = NULL
  prev_next : ∀ l ∈ [frees, allocs], ∀ a ∈ l, s.links.next a ≠ NULL →
    s.links.next a ∈ l ∧ s.links.prev (s.links.next a) = a
  next_prev : ∀ l ∈ [frees, allocs], ∀ a ∈ l, s.links.prev a ≠ NULL →
    s.links.prev a ∈ l ∧ s.links.next (s.links.prev a) = a
  disjoint : (frees ++ allocs).Pairwise fun a b =>
    a + s.bufferSize a ≤ b ∨ b + s.bufferSize b ≤ a
  inside : ∀ a ∈ frees ++ allocs, base ≤ a ∧ a + s.bufferSize a ≤ base + len
  total : ((frees ++ allocs).map s.bufferSize).sum = len
  covered : ∀ x, base ≤ x → x < base + len →
    ∃! a, a ∈ frees ++ allocs ∧ a ≤ x ∧ x < a + s.bufferSize a
  ascending : frees.Pairwise (· < ·)
  coalesced : ∀ a ∈ frees, ∀ b ∈ frees, a + s.bufferSize a ≠ b

theorem HeapOk.shape {base len : Nat} {s : Shm} {frees allocs : List Nat}
    (ok : HeapOk base len s frees allocs) : Shape base len s frees allocs where
  freeChain := ok.free
  alloccedChain := ok.allocced
  freeHead := ok.free.head_prev
  alloccedHead := ok.allocced.head_prev
  prev_next l hl a ha hn := by
    simp only [List.mem_cons, List.not_mem_nil, or_false] at hl
    rcases hl with rfl | rfl
    · exact ok.free.prev_next ha hn
    · exact ok.allocced.prev_next ha hn
  next_prev l hl a ha hn := by
    simp only [List.mem_cons, List.not_mem_nil, or_false] at hl
    rcases hl with rfl | rfl
    · exact ok.free.next_prev ha hn
    · exact ok.allocced.next_prev ha hn
  disjoint := List.pairwise_map.mp ok.tiles.apart
  inside _ ha := tiles_inside ok.tiles ha
  total := by
    have h := ok.tiles.total
    rwa [chunksOf, List.map_map] at h
  covered x hlo hhi := by
    obtain ⟨c, ⟨hc, hcx⟩, huniq⟩ := ok.tiles.exists_unique hlo hhi
    obtain ⟨a, ha, rfl⟩ := List.mem_map.mp hc
    refine ⟨a, ⟨ha, hcx⟩, ?_⟩
    intro b hb
    exact congrArg Prod.fst (huniq (b, s.bufferSize b) ⟨mem_chunksOf hb.1, hb.2⟩)
  ascending := ok.ascending.imp fun h => by omega
  coalesced a ha b hb := by
    -- Of two free chunks the lower one ends before the upper one starts.
    intro hab
    have hpos := tiles_pos ok.tiles (List.mem_append_left allocs ha)
    obtain ⟨l₁, l₂, hl⟩ := List.append_of_mem ha
    have has := ok.ascending
    rw [hl] at has hb
    obtain ⟨-, hal, hlow⟩ := ascends_append.mp has
    simp only [List.mem_append, List.mem_cons] at hb
    rcases hb with hb | rfl | hb
    · have := hlow b hb a (by simp)
      omega
    · omega
    · have := (ascends_cons.mp hal).1 b hb
      omega

/-! ## One step -/

theorem roomFor_eq {size : Int} (h0 : 0 ≤ size) (h1 : size < 2 ^ 31) :
    roomFor size = (size.toNat + 3) / 4 * 4 + headerSize := by
  obtain ⟨n, rfl⟩ := Int.eq_ofNat_of_zero_le h0
  have hn : n < 2 ^ 31 := by exact_mod_cast h1
  have hmod : toSizeT (n : Int) = n := by
    simp only [toSizeT, addrSpace]
    omega
  simp only [roomFor, hmod, wadd, addrSpace, headerSize, Int.toNat_natCast]
  omega

theorem init_ok {base len : Nat} (ar : Arena base len) (links : Links Nat) (sizes : Nat → Nat) :
    HeapOk base len (sharedMemInit links sizes base len) [base] [] := by
  have hb := ar.base_pos
  have hsz : (sharedMemInit links sizes base len).bufferSize base = len := by simp [sharedMemInit]
  have hseg : Seg (sharedMemInit links sizes base len).links NULL [base] NULL :=
    ⟨by simp [sharedMemInit], by simp [sharedMemInit], trivial⟩
  refine ⟨⟨rfl, ?_, by simp, hseg⟩, ⟨rfl, by simp, by simp, trivial⟩, ?_, ?_, ?_⟩
  · simp only [List.mem_singleton]
    intro h
    have h : 0 = base := h
    omega
  · exact List.pairwise_singleton _ _
  · refine ⟨List.pairwise_singleton _ _, ?_, ?_, ?_⟩
    · simp [chunksOf, hsz]
    · have := ar.header_lt
      simp only [chunksOf, List.append_nil, List.map_cons, List.map_nil, List.mem_singleton,
        forall_eq, hsz]
      omega
    · simp [chunksOf, hsz]
  · have h := ar.header_lt
    simp only [List.append_nil, List.mem_singleton, forall_eq, hsz]
    exact ⟨by omega, ar.aligned⟩

/-- The state's chunks, and the pointers its clients hold. -/
def Inv (base len : Nat) (s : Shm) (live : List Nat) : Prop :=
  ∃ frees allocs, HeapOk base len s frees allocs ∧ live.Perm (allocs.map (· + headerSize))

/-- The chunk that `do_acquire` settled on is pushed onto the allocated chain and handed out. -/
theorem sharedMemAcquire_granted {base len : Nat} {s s₁ : Shm} {frees allocs : List Nat} {c : Nat} {size : Int}
    (ar : Arena base len) (hfree : s.freeBufChain ≠ NULL) (htake : doAcquire s size = pure (some (c, s₁)))
    (d : Detached base len s₁ frees allocs c) :
    sharedMemAcquire s false size = .ok (.success, c + headerSize, { s₁ with
      links := s₁.links.insert NULL [] c allocs
      alloccedBufChain := c
      maxAllocatedSize := if s₁.maxAllocatedSize < size then size else s₁.maxAllocatedSize }) := by
  obtain ⟨hc, -, hend⟩ := chunk_facts ar d.tiles (List.mem_cons_self (a := c))
  have hhdr := (d.holdsHeader c List.mem_cons_self).1
  have hdest : wadd c headerSize = c + headerSize := Nat.mod_eq_of_lt (by omega)
  simp only [sharedMemAcquire, hfree, if_false, htake, pure_bind, setNext_of_ne hc, setPrev_of_ne hc, d.allocced.head,
    setPrevIf_headD d.allocced.null_notMem, hdest, Bool.false_eq_true]
  rfl

/-- An acquire returns; a successful one hands out a chunk with the room asked
for, any other one changes nothing. -/
theorem sharedMemAcquire_spec {base len : Nat} {s : Shm} {live : List Nat} {size : Int}
    (ar : Arena base len) (inv : Inv base len s live) (irq : Bool) (h0 : 0 ≤ size)
    (h1 : size < 2 ^ 31) :
    ∃ rv dest s', sharedMemAcquire s irq size = .ok (rv, dest, s') ∧
      Inv base len s' (if rv = .success then dest :: live else live) ∧
      (rv = .success → dest = s'.alloccedBufChain + headerSize ∧
        size ≤ s'.bufferSize s'.alloccedBufChain - headerSize) ∧
      (rv ≠ .success → dest = NULL ∧ s' = s) := by
  obtain ⟨frees, allocs, ok, hlive⟩ := inv
  have inv : Inv base len s live := ⟨frees, allocs, ok, hlive⟩
  have hroom := roomFor_eq h0 h1
  cases irq with
  | true => exact ⟨.inval, NULL, s, rfl, inv, by simp, by simp⟩
  | false =>
    by_cases hfree : s.freeBufChain = NULL
    · exact ⟨.busy, NULL, s, by simp [sharedMemAcquire, hfree]; rfl, inv, by simp, by simp⟩
    · rcases doAcquire_spec size ar ok (by omega) with ⟨he, -⟩ | ⟨c, s₁, frees', he, -, d, hsz⟩
      · exact ⟨.busy, NULL, s, by simp [sharedMemAcquire, hfree, he]; rfl, inv, by simp, by simp⟩
      · obtain ⟨hc, -, hend⟩ := chunk_facts ar d.tiles (List.mem_cons_self (a := c))
        have hdest : wadd c headerSize = c + headerSize := Nat.mod_eq_of_lt (by omega)
        have h02 : NULL ∉ allocs := d.allocced.null_notMem
        have hok := push_ok (if s₁.maxAllocatedSize < size then size else s₁.maxAllocatedSize) ar d
        refine ⟨.success, c + headerSize, _, ?_, ⟨frees', c :: allocs, hok, ?_⟩, ?_, by simp⟩
        · simp only [sharedMemAcquire, hfree, if_false, he, pure_bind, setNext_of_ne hc,
            setPrev_of_ne hc, d.allocced.head, setPrevIf_headD h02, hdest, Bool.false_eq_true]
          rfl
        · simpa using hlive
        · intro _
          refine ⟨rfl, ?_⟩
          show size ≤ (s₁.bufferSize c : Int) - (headerSize : Int)
          omega

theorem sharedMemRelease_spec {base len : Nat} {s : Shm} {live : List Nat} {ptr : Nat}
    (ar : Arena base len) (inv : Inv base len s live) (irq : Bool) (hptr : ptr ∈ live) :
    ∃ s', sharedMemRelease s irq ptr = .ok s' ∧
      Inv base len s' (if irq then live else live.erase ptr) := by
  obtain ⟨frees, allocs, ok, hlive⟩ := inv
  cases irq with
  | true => exact ⟨s, rfl, frees, allocs, ok, hlive⟩
  | false =>
    obtain ⟨c, hc, rfl⟩ := List.mem_map.mp (hlive.mem_iff.mp hptr)
    obtain ⟨-, -, hend⟩ := chunk_facts ar ok.tiles (List.mem_append_right frees hc)
    have hback : wadd (c + headerSize) (addrSpace - headerSize) = c := by
      have hs : headerSize ≤ addrSpace := by decide
      rw [wadd, show c + headerSize + (addrSpace - headerSize) = c + addrSpace by omega,
        Nat.add_mod_right]
      exact Nat.mod_eq_of_lt (by omega)
    have hne : c + headerSize ≠ NULL := by simp [headerSize]
    obtain ⟨s', frees', allocs', he, ok', hperm⟩ := doRelease_spec ar ok hc
    refine ⟨s', ?_, frees', allocs', ok', ?_⟩
    · simp only [sharedMemRelease, Bool.false_eq_true, if_false, hne, hback, he]
      rfl
    · have h := (hlive.trans (hperm.map _)).erase (c + headerSize)
      simpa using h

/-! ## Every run -/

theorem reachable_inv {base len : Nat} (ar : Arena base len) {s : Shm} {live : List Nat}
    (h : Reachable base len s live) : Inv base len s live := by
  induction h with
  | init links sizes => exact ⟨[base], [], init_ok ar links sizes, by simp⟩
  | @acquire s s' live irq size rv dest _ h0 h1 he ih =>
    obtain ⟨rv', dest', s'', he', inv, -⟩ := sharedMemAcquire_spec ar ih irq h0 h1
    rw [he] at he'
    cases he'
    exact inv
  | @release s s' live irq ptr _ hptr he ih =>
    obtain ⟨s'', he', inv⟩ := sharedMemRelease_spec ar ih irq hptr
    rw [he] at he'
    cases he'
    exact inv

theorem shared_mem_heap_invariant (base len : Nat) (ar : Arena base len) (s : Shm)
    (live : List Nat) (h : Reachable base len s live) :
    (∃ frees allocs, Shape base len s frees allocs ∧
      live.Perm (allocs.map (· + headerSize))) ∧
    (∀ irq size, 0 ≤ size → size < 2 ^ 31 →
      ∃ rv dest s', sharedMemAcquire s irq size = .ok (rv, dest, s') ∧
        (rv = .success → dest = s'.alloccedBufChain + headerSize ∧
          size ≤ s'.bufferSize s'.alloccedBufChain - headerSize)) ∧
    (∀ irq, ∀ ptr ∈ live, ∃ s', sharedMemRelease s irq ptr = .ok s') := by
  have inv := reachable_inv ar h
  refine ⟨?_, ?_, ?_⟩
  · obtain ⟨frees, allocs, ok, hlive⟩ := inv
    exact ⟨frees, allocs, ok.shape, hlive⟩
  · intro irq size h0 h1
    obtain ⟨rv, dest, s', he, -, hs, -⟩ := sharedMemAcquire_spec ar inv irq h0 h1
    exact ⟨rv, dest, s', he, hs⟩
  · intro irq ptr hptr
    obtain ⟨s', he, -⟩ := sharedMemRelease_spec ar inv irq hptr
    exact ⟨s', he⟩

theorem arena_small : Arena 4096 64 := ⟨by decide, by decide, by decide, by decide, by decide⟩

/-- A run that reaches a state with a buffer handed out: `acquire(8)` on a 64-byte arena. -/
theorem shared_mem_heap_invariant_small :
    ∃ s, Reachable 4096 64 s [4108] ∧
      (∃ frees allocs, Shape 4096 64 s frees allocs ∧
        [4108].Perm (allocs.map (· + headerSize))) ∧
      ∃ s', sharedMemRelease s false 4108 = .ok s' := by
  have h₀ : Reachable 4096 64 _ [] := Reachable.init ⟨id, id⟩ id
  obtain ⟨s, hs⟩ : ∃ s, sharedMemAcquire (sharedMemInit ⟨id, id⟩ id 4096 64) false 8 =
      .ok (.success, 4108, s) := ⟨_, rfl⟩
  have h : Reachable 4096 64 s [4108] := h₀.acquire (by decide) (by decide) hs
  have hall := shared_mem_heap_invariant 4096 64 arena_small s [4108] h
  exact ⟨s, h, hall.1, hall.2.2 false 4108 (by simp)⟩

end ChromeEc.Shmalloc
