import Mathlib.Data.List.Infix
import Mathlib.Data.Nat.Bitwise
import ChromeEc.SpiNor.Model

/- The page programs that `spi_nor_write` sends.

  The commands that have been sent tell which cells are programmed (`programs`). On any bus those of
  spi_nor_write stay within a page each, and program a beginning of the data, cell by cell; all of it, if
  the function succeeds (`writeLoop_programs`). -/
namespace ChromeEc.SpiNor

/-! ## Addresses -/

/-- How far the addresses of the mode reach. -/
def addressable (dev : Device) : Nat := if dev.in4bAddressingMode then 2 ^ 32 else 2 ^ 24

def addressOf (bytes : List UInt8) : Nat := bytes.foldl (fun address b => address * 256 + b.toNat) 0

def addressSize (dev : Device) : Nat := if dev.in4bAddressingMode then 4 else 3

theorem length_addressBytes (dev : Device) (offset : Nat) : (addressBytes dev offset).length = addressSize dev := by
  rw [addressBytes, addressSize]
  split <;> rfl

theorem addressable_le (dev : Device) : addressable dev ≤ 2 ^ 32 := by
  rw [addressable]
  split <;> decide

theorem toNat_addressByte (offset k : Nat) :
    (UInt8.ofNat ((offset &&& (0xFF <<< k)) >>> k)).toNat = offset / 2 ^ k % 256 := by
  have hmask : (0xFF <<< k) >>> k = 2 ^ 8 - 1 := Nat.shiftLeft_shiftRight 0xFF k
  rw [Nat.shiftRight_and_distrib, hmask, Nat.and_two_pow_sub_one_eq_mod, Nat.shiftRight_eq_div_pow, UInt8.toNat_ofNat']
  exact Nat.mod_mod _ _

theorem addressOf_addressBytes (dev : Device) (offset : Nat) :
    addressOf (addressBytes dev offset) = offset % addressable dev := by
  have h₀ := toNat_addressByte offset 0
  have h₁ := toNat_addressByte offset 8
  have h₂ := toNat_addressByte offset 16
  have h₃ := toNat_addressByte offset 24
  rw [Nat.shiftRight_zero] at h₀
  simp only [Nat.reduceShiftLeft] at h₀ h₁ h₂ h₃
  rw [addressBytes, addressable]
  split
  · simp only [addressOf, List.foldl_cons, List.foldl_nil, h₀, h₁, h₂, h₃]
    omega
  · simp only [addressOf, List.foldl_cons, List.foldl_nil, h₀, h₁, h₂]
    omega

/-! ## Page programs -/

def programOf (dev : Device) : List UInt8 → Option (Nat × List UInt8)
  | opcode :: rest =>
    if opcode = opcodePageProgram then
      some (addressOf (rest.take (addressSize dev)), rest.drop (addressSize dev))
    else none
  | [] => none

def programs (dev : Device) (sent : List (List UInt8)) : List (Nat × List UInt8) := sent.filterMap (programOf dev)

/-- The cells from an address on, with what is programmed into them. -/
def cells : Nat → List UInt8 → List (Nat × UInt8)
  | _, [] => []
  | address, x :: data => (address, x) :: cells (address + 1) data

theorem cells_append (address : Nat) (data data' : List UInt8) :
    cells address (data ++ data') = cells address data ++ cells (address + data.length) data' := by
  induction data generalizing address with
  | nil => rfl
  | cons x data ih =>
    rw [List.cons_append, cells, cells, ih, List.cons_append, List.length_cons, Nat.add_right_comm, Nat.add_assoc]

def WithinPage (pageSize : Nat) (p : Nat × List UInt8) : Prop := 0 < p.2.length ∧ p.1 % pageSize + p.2.length ≤ pageSize

/-- The commands program the data from the offset on, or the beginning of it if there has been an error. -/
structure Programs (dev : Device) (offset : Nat) (data : List UInt8) (rv : Option Int)
    (sent : List (List UInt8)) : Prop where
  within : ∀ p ∈ programs dev sent, WithinPage dev.pageSize p
  covers : ((programs dev sent).flatMap fun p => cells p.1 p.2) <+: cells offset data
  complete : rv = some ecSuccess → ((programs dev sent).flatMap fun p => cells p.1 p.2) = cells offset data

section

variable {σ : Type} {b : Bus σ} {cfg : Config} {dev : Device} {polls : Nat}

theorem programOf_program (dev : Device) (offset : Nat) (data : List UInt8) :
    programOf dev (opcodePageProgram :: (addressBytes dev offset ++ data)) = some (offset % addressable dev, data) := by
  rw [programOf, if_pos rfl, ← length_addressBytes dev offset, List.take_left, List.drop_left, addressOf_addressBytes]

theorem within_of_dvd {unit pageSize address n : Nat} (hdvd : unit ∣ pageSize) (hpos : 0 < pageSize)
    (h : address % unit + n ≤ unit) : address % pageSize + n ≤ pageSize := by
  obtain ⟨k, rfl⟩ := hdvd
  have hk : 0 < k := Nat.pos_of_mul_pos_left hpos
  have hlt : address / unit % k < k := Nat.mod_lt _ hk
  rw [Nat.mod_mul]
  calc address % unit + unit * (address / unit % k) + n
      ≤ unit + unit * (address / unit % k) := by omega
    _ = unit * (address / unit % k + 1) := by rw [Nat.mul_add, Nat.mul_one, Nat.add_comm]
    _ ≤ unit * k := Nat.mul_le_mul_left unit hlt

/-- The commands sent since, none of which is a page program. -/
def Silent (dev : Device) (r r' : Run σ) : Prop := ∃ sent, r'.sent = r.sent ++ sent ∧ programs dev sent = []

theorem Silent.refl (r : Run σ) : Silent dev r r := ⟨[], (List.append_nil _).symm, rfl⟩

theorem Silent.trans {r r' r'' : Run σ} (h : Silent dev r r') (h' : Silent dev r' r'') : Silent dev r r'' := by
  obtain ⟨sent, hsent, hnone⟩ := h
  obtain ⟨sent', hsent', hnone'⟩ := h'
  refine ⟨sent ++ sent', ?_, ?_⟩
  · rw [hsent', hsent, List.append_assoc]
  · rw [programs, List.filterMap_append, ← programs, ← programs, hnone, hnone', List.append_nil]

theorem silent_transact {tx : List UInt8} (htx : programOf dev tx = none) (rxlen : Nat) (r : Run σ) :
    Silent dev r (transact b tx rxlen r).2.2 := by
  refine ⟨[tx], rfl, ?_⟩
  rw [programs, List.filterMap_cons_none htx, List.filterMap_nil]

theorem programOf_other {opcode : UInt8} (h : opcode ≠ opcodePageProgram) (rest : List UInt8) :
    programOf dev (opcode :: rest) = none := if_neg h

theorem silent_readStatus (r : Run σ) : Silent dev r (spiNorReadStatus b r).2.2 :=
  silent_transact (programOf_other (by decide) []) 1 r

theorem andThen_cases {x : Result σ} {rest : Run σ → Result σ} {P : Result σ → Prop}
    (herror : x.1 ≠ some ecSuccess → P x)
    (hrest : x.1 = some ecSuccess → P (rest x.2)) : P (andThen x rest) := by
  rw [andThen]
  split
  · next hok => exact hrest hok
  · next hne => exact herror hne

theorem silent_writeEnable (r : Run σ) : Silent dev r (spiNorWriteEnable b r).2 := by
  have hsend : Silent dev r (send b [opcodeWriteEnable] r).2 := silent_transact (programOf_other (by decide) []) 0 r
  refine andThen_cases (P := fun x => Silent dev r x.2) (fun _ => hsend) fun _ => ?_
  have hstatus := hsend.trans (silent_readStatus (b := b) (send b [opcodeWriteEnable] r).2)
  dsimp only
  split
  · exact hstatus
  · split
    · exact hstatus
    · exact hstatus

theorem silent_waitLoop (timeout : Nat) (status : UInt8) (r : Run σ) :
    Silent dev r (waitLoop b timeout polls status r).2 := by
  induction polls generalizing status r with
  | zero => exact .refl r
  | succ polls ih =>
    have hslept : Silent dev r ⟨b.usleep r.bus, r.sent⟩ := ⟨[], (List.append_nil _).symm, rfl⟩
    have hstatus := hslept.trans (silent_readStatus (b := b) ⟨b.usleep r.bus, r.sent⟩)
    rw [waitLoop]
    split
    · dsimp only
      split
      · exact hslept
      · split
        · exact hstatus
        · exact hstatus.trans (ih _ _)
    · exact .refl r

theorem silent_wait (r : Run σ) : Silent dev r (spiNorWait b dev polls r).2 := by
  have hstatus : Silent dev r (spiNorReadStatus b r).2.2 := silent_readStatus r
  rw [spiNorWait]
  dsimp only
  split
  · exact hstatus
  · exact hstatus.trans (silent_waitLoop _ _ _)

/-! ## Writing -/

theorem Programs.error {offset : Nat} {data : List UInt8} {rv : Option Int} (h : rv ≠ some ecSuccess) :
    Programs dev offset data rv [] :=
  ⟨fun _ hp => absurd hp List.not_mem_nil, List.nil_prefix, fun hok => absurd hok h⟩

structure PowersOfTwo (cfg : Config) (dev : Device) : Prop where
  page : ∃ k, dev.pageSize = 2 ^ k
  write : ∃ k, cfg.maxWriteSize = 2 ^ k

theorem PowersOfTwo.effective (h : PowersOfTwo cfg dev) :
    ∃ k, effectivePageSize cfg dev = 2 ^ k ∧ 2 ^ k ∣ dev.pageSize := by
  obtain ⟨i, hi⟩ := h.page
  obtain ⟨j, hj⟩ := h.write
  rw [effectivePageSize, hi, hj]
  rcases Nat.le_total i j with hij | hij
  · exact ⟨i, Nat.min_eq_left (Nat.pow_le_pow_right (by decide) hij), Nat.dvd_refl _⟩
  · exact ⟨j, Nat.min_eq_right (Nat.pow_le_pow_right (by decide) hij), Nat.pow_dvd_pow 2 hij⟩

theorem Programs.cons {offset n : Nat} {data : List UInt8} {rv : Option Int} {silent sent : List (List UInt8)}
    (hsilent : programs dev silent = []) (hoffset : offset < addressable dev)
    (hwithin : WithinPage dev.pageSize (offset, data.take n)) (hn : n ≤ data.length)
    (h : Programs dev (offset + n) (data.drop n) rv sent) :
    Programs dev offset data rv (silent ++ (opcodePageProgram :: (addressBytes dev offset ++ data.take n)) :: sent) := by
  have hprograms : programs dev (silent ++ (opcodePageProgram :: (addressBytes dev offset ++ data.take n)) :: sent) =
      (offset, data.take n) :: programs dev sent := by
    rw [programs, List.filterMap_append, ← programs, hsilent, List.nil_append,
      List.filterMap_cons_some (programOf_program _ _ _),
      Nat.mod_eq_of_lt hoffset, programs]
  have hcells : cells offset data = cells offset (data.take n) ++ cells (offset + n) (data.drop n) := by
    have happend := cells_append offset (data.take n) (data.drop n)
    rwa [List.take_append_drop, List.length_take, Nat.min_eq_left hn] at happend
  refine ⟨?_, ?_, ?_⟩
  · rw [hprograms]
    intro p hp
    rcases List.mem_cons.mp hp with rfl | hp
    · exact hwithin
    · exact h.within p hp
  · rw [hprograms, List.flatMap_cons, hcells]
    exact (List.prefix_append_right_inj _).mpr h.covers
  · intro hok
    rw [hprograms, List.flatMap_cons, h.complete hok, hcells]

theorem Programs.moved {offset offset' : Nat} {data : List UInt8} {rv : Option Int} {sent : List (List UInt8)}
    (h : Programs dev offset data rv sent) (hcells : cells offset data = cells offset' data) :
    Programs dev offset' data rv sent :=
  ⟨h.within, hcells ▸ h.covers, fun hok => (h.complete hok).trans hcells⟩

theorem Programs.silent {offset : Nat} {data : List UInt8} {rv : Option Int} {silent : List (List UInt8)}
    (hsilent : programs dev silent = []) (h : Programs dev offset data rv []) : Programs dev offset data rv silent := by
  have hnone : programs dev silent = programs dev [] := hsilent
  exact ⟨hnone ▸ h.within, hnone ▸ h.covers, hnone ▸ h.complete⟩

/-- A write of the driver lies in a page, and takes at least one byte. -/
theorem PowersOfTwo.write_size (h : PowersOfTwo cfg dev) {offset size writeSize : Nat} (hsize : 0 < size)
    (hwrite : writeSize = min size (effectivePageSize cfg dev - (offset &&& (effectivePageSize cfg dev - 1)))) :
    0 < writeSize ∧ writeSize ≤ size ∧ offset % dev.pageSize + writeSize ≤ dev.pageSize := by
  obtain ⟨k, heffective, hdvd⟩ := h.effective
  obtain ⟨i, hi⟩ := h.page
  rw [heffective, Nat.and_two_pow_sub_one_eq_mod] at hwrite
  have hlt : offset % 2 ^ k < 2 ^ k := Nat.mod_lt _ (Nat.two_pow_pos k)
  refine ⟨by omega, by omega, within_of_dvd hdvd ?_ (show offset % 2 ^ k + writeSize ≤ 2 ^ k by omega)⟩
  rw [hi]
  exact Nat.two_pow_pos i

/-- The offset of the next turn: it wraps around only where nothing is left. -/
theorem next_offset {offset n size : Nat} (hn : n ≤ size) (hend : offset + size ≤ addressable dev) :
    (offset + n) % 2 ^ 32 + (size - n) ≤ addressable dev ∧ (n < size → (offset + n) % 2 ^ 32 = offset + n) := by
  have hle := addressable_le dev
  by_cases hlast : n = size
  · have hmod := Nat.mod_le (offset + n) (2 ^ 32)
    exact ⟨by omega, fun hlt => absurd hlast (Nat.ne_of_lt hlt)⟩
  · have hsame : (offset + n) % 2 ^ 32 = offset + n := Nat.mod_eq_of_lt (by omega)
    exact ⟨by omega, fun _ => hsame⟩

/-- What a function has sent since `r` programs the data. -/
def Wrote (dev : Device) (offset : Nat) (data : List UInt8) (r : Run σ) (x : Result σ) : Prop :=
  ∃ sent, x.2.sent = r.sent ++ sent ∧ Programs dev offset data x.1 sent

theorem Silent.wrote {r : Run σ} {x : Result σ} (h : Silent dev r x.2) (hne : x.1 ≠ some ecSuccess) (offset : Nat)
    (data : List UInt8) : Wrote dev offset data r x := by
  obtain ⟨sent, hsent, hnone⟩ := h
  exact ⟨sent, hsent, .silent hnone (.error hne)⟩

theorem writeLoop_programs (hpow : PowersOfTwo cfg dev) (turns : Nat) {offset : Nat} {data : List UInt8} (r : Run σ)
    (hend : offset + data.length ≤ addressable dev) :
    Wrote dev offset data r (writeLoop b cfg dev polls turns offset data r) := by
  induction turns generalizing offset data r with
  | zero => exact (Silent.refl r).wrote (x := (none, r)) (fun hnone => nomatch hnone) offset data
  | succ turns ih =>
    rw [writeLoop]
    by_cases hmore : 0 < data.length
    · rw [if_pos hmore]
      dsimp only
      obtain ⟨n, hn⟩ : ∃ n, n =
          min data.length (effectivePageSize cfg dev - (offset &&& (effectivePageSize cfg dev - 1))) :=
        ⟨_, rfl⟩
      obtain ⟨hpos, hle, hwithin⟩ := hpow.write_size hmore hn
      rw [← hn]
      obtain ⟨hend', hsame⟩ := next_offset hle hend
      have hpage : WithinPage dev.pageSize (offset, data.take n) := by
        rw [WithinPage, List.length_take, Nat.min_eq_left hle]
        exact ⟨hpos, hwithin⟩
      have hwait : Silent dev r (spiNorWait b dev polls r).2 := silent_wait r
      refine andThen_cases (P := Wrote dev offset data r) (fun hne => hwait.wrote hne offset data) fun _ => ?_
      have henable := hwait.trans (silent_writeEnable (b := b) (spiNorWait b dev polls r).2)
      refine andThen_cases (P := Wrote dev offset data r) (fun hne => henable.wrote hne offset data) fun _ => ?_
      generalize (spiNorWriteEnable b (spiNorWait b dev polls r).2).2 = r' at henable
      obtain ⟨silent, hsent, hnone⟩ := henable
      have hsend : (send b (opcodePageProgram :: (addressBytes dev offset ++ data.take n)) r').2.sent =
          r.sent ++ (silent ++ [opcodePageProgram :: (addressBytes dev offset ++ data.take n)]) := by
        rw [← List.append_assoc, ← hsent]
        rfl
      -- from here on the command has been sent, whatever the bus says of it
      refine andThen_cases (P := Wrote dev offset data r) ?_ fun _ => ?_
      · intro hne
        exact ⟨_, hsend, .cons hnone (by omega) hpage hle (.error hne)⟩
      · generalize send b (opcodePageProgram :: (addressBytes dev offset ++ data.take n)) r' = x at hsend
        rw [← List.length_drop] at hend'
        obtain ⟨sent, hrest, hprograms⟩ := ih x.2 hend'
        refine ⟨silent ++ (opcodePageProgram :: (addressBytes dev offset ++ data.take n)) :: sent, ?_, ?_⟩
        · rw [hrest, hsend]
          simp only [List.append_assoc, List.singleton_append]
        · have hcells : cells ((offset + n) % 2 ^ 32) (data.drop n) = cells (offset + n) (data.drop n) := by
            -- the offset may wrap around only where there is nothing more to program
            by_cases hlast : n < data.length
            · rw [hsame hlast]
            · rw [List.drop_eq_nil_of_le (Nat.not_lt.mp hlast)]
              rfl
          exact .cons hnone (by omega) hpage hle (hprograms.moved hcells)
    · -- all data has been programmed
      have hwait : Silent dev r (spiNorWait b dev polls r).2 := silent_wait r
      obtain ⟨sent, hsent, hnone⟩ := hwait
      obtain rfl : data = [] := List.eq_nil_of_length_eq_zero (by omega)
      rw [if_neg hmore]
      exact ⟨sent, hsent, .silent hnone ⟨fun _ hp => absurd hp List.not_mem_nil, List.nil_prefix, fun _ => rfl⟩⟩

end

end ChromeEc.SpiNor
