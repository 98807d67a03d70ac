import ChromeEc.Lib.Memory
import ChromeEc.SpiNor.Programs

/- What `spi_nor_erase` and `spi_nor_write` do to the chip.

  `Works` is a chip on which every command succeeds, by what it does to the contents: a sector or a
  block is erased as a whole, from where it starts, and programming clears bits. Each turn of the loop of
  spi_nor_erase starts where the unit starts that it erases, or skips a unit that is erased already, so the
  loop fills the range (`eraseLoop_erases`).

  The driver does not look at the capacity. With addresses of three bytes an offset above 16 MiB loses its
  highest byte, and a sector at the beginning of the chip is erased (`far_sector_erases`). -/
namespace ChromeEc.SpiNor
open Lib Lib.Memory

/-! ## The chip -/

/-- Bits are cleared, and none is set. -/
def programmed (m : Nat → UInt8) (offset : Nat) (data : List UInt8) : Nat → UInt8 := fun a =>
  if offset ≤ a ∧ a < offset + data.length then m a &&& data.getD (a - offset) 0 else m a

def unitOf (opcode : UInt8) : Option Nat :=
  if opcode = opcode4KibErase then some 4096 else if opcode = opcode64KibErase then some 65536 else none

/-- A chip on which every command succeeds, and what it does to the contents. -/
structure Works {σ : Type} (b : Bus σ) (dev : Device) (polls : Nat) (contents : σ → Nat → UInt8)
    (busy latch : σ → Bool) :
    Prop where
  status : ∀ s, ∃ status s', b.spiTransaction s [opcodeReadStatus] 1 = (ecSuccess, [status], s') ∧
    (status &&& statusRegisterWip ≠ 0 ↔ busy s' = true) ∧ (status &&& statusRegisterWel ≠ 0 ↔ latch s' = true) ∧
    contents s' = contents s ∧ latch s' = latch s ∧ (busy s = false → busy s' = false)
  usleep : ∀ s, contents (b.usleep s) = contents s
  ready : ∀ r, (spiNorWait b dev polls r).1 = some ecSuccess
  enable : ∀ s, busy s = false → ∃ s', b.spiTransaction s [opcodeWriteEnable] 0 = (ecSuccess, [], s') ∧
    contents s' = contents s ∧ busy s' = false ∧ latch s' = true
  read : ∀ s address n, busy s = false → 0 < n → address + n ≤ addressable dev →
    ∃ s', b.spiTransaction s (opcodeSlowRead :: addressBytes dev address) n =
      (ecSuccess, read (contents s) address n, s') ∧
      contents s' = contents s ∧ busy s' = false
  erase : ∀ s opcode unit address, unitOf opcode = some unit → busy s = false → latch s = true →
    address < addressable dev →
    ∃ s', b.spiTransaction s (opcode :: addressBytes dev address) 0 = (ecSuccess, [], s') ∧
      contents s' = fill (contents s) (address / unit * unit) unit 0xff
  program : ∀ s address data, busy s = false → latch s = true → WithinPage dev.pageSize (address, data) →
    address + data.length ≤ addressable dev →
    ∃ s', b.spiTransaction s (opcodePageProgram :: (addressBytes dev address ++ data)) 0 = (ecSuccess, [], s') ∧
      contents s' = programmed (contents s) address data

section

variable {σ : Type} {b : Bus σ} {cfg : Config} {dev : Device} {polls : Nat} {contents : σ → Nat → UInt8}
  {busy latch : σ → Bool}

theorem andThen_ok {r : Run σ} (rest : Run σ → Result σ) : andThen (some ecSuccess, r) rest = rest r := if_pos rfl

theorem Works.readStatus (hw : Works b dev polls contents busy latch) (r : Run σ) :
    ∃ status r', spiNorReadStatus b r = (ecSuccess, status, r') ∧
      (status &&& statusRegisterWip ≠ 0 ↔ busy r'.bus = true) ∧
      (status &&& statusRegisterWel ≠ 0 ↔ latch r'.bus = true) ∧
      contents r'.bus = contents r.bus ∧ latch r'.bus = latch r.bus ∧ (busy r.bus = false → busy r'.bus = false) := by
  obtain ⟨status, s', hstatus, hfacts⟩ := hw.status r.bus
  refine ⟨status, ⟨s', r.sent ++ [[opcodeReadStatus]]⟩, ?_, hfacts⟩
  rw [spiNorReadStatus, transact, hstatus]
  rfl

theorem Works.waitLoop (hw : Works b dev polls contents busy latch) {timeout turns : Nat} {status : UInt8} {r : Run σ}
    (hstatus : status &&& statusRegisterWip ≠ 0 ↔ busy r.bus = true)
    (hready : (waitLoop b timeout turns status r).1 = some ecSuccess) :
    contents (waitLoop b timeout turns status r).2.bus = contents r.bus ∧
      busy (waitLoop b timeout turns status r).2.bus = false := by
  induction turns generalizing status r with
  | zero => cases hready
  | succ turns ih =>
    rw [SpiNor.waitLoop] at hready ⊢
    by_cases hwip : status &&& statusRegisterWip ≠ 0
    · rw [if_pos hwip] at hready ⊢
      obtain ⟨status', r', hread, hwip', -, hsame, -, -⟩ := hw.readStatus ⟨b.usleep r.bus, r.sent⟩
      dsimp only at hready ⊢
      split at hready
      · cases hready
      · next htime =>
        rw [if_neg htime]
        rw [hread] at hready ⊢
        dsimp only at hready ⊢
        rw [if_neg (not_not.mpr rfl)] at hready ⊢
        -- the chip was busy: neither the sleep nor the status changes what it holds
        obtain ⟨hcontents, hidle⟩ := ih hwip' hready
        exact ⟨hcontents.trans (hsame.trans (hw.usleep r.bus)), hidle⟩
    · rw [if_neg hwip]
      refine ⟨rfl, ?_⟩
      rw [← Bool.not_eq_true]
      exact fun hbusy => hwip (hstatus.mpr hbusy)

/-- After a wait the chip is ready, with the same contents. -/
theorem Works.wait (hw : Works b dev polls contents busy latch) (r : Run σ) :
    ∃ r', spiNorWait b dev polls r = (some ecSuccess, r') ∧ contents r'.bus = contents r.bus ∧ busy r'.bus = false := by
  obtain ⟨status, r', hread, hwip, -, hsame, -, -⟩ := hw.readStatus r
  have hready := hw.ready r
  have heq : spiNorWait b dev polls r = SpiNor.waitLoop b (b.getTime r'.bus + dev.timeoutUsec) polls status r' := by
    rw [spiNorWait, hread]
    exact if_neg (not_not.mpr rfl)
  rw [heq] at hready ⊢
  obtain ⟨hcontents, hidle⟩ := hw.waitLoop hwip hready
  exact ⟨_, Prod.ext hready rfl, hcontents.trans hsame, hidle⟩

theorem Works.writeEnable (hw : Works b dev polls contents busy latch) {r : Run σ} (hidle : busy r.bus = false) :
    ∃ r', spiNorWriteEnable b r = (some ecSuccess, r') ∧ contents r'.bus = contents r.bus ∧ busy r'.bus = false ∧
      latch r'.bus = true := by
  obtain ⟨s₁, henable, hsame₁, hidle₁, hlatch₁⟩ := hw.enable r.bus hidle
  obtain ⟨status, r₂, hread, -, hwel, hsame₂, hlatch₂, hidle₂⟩ :=
    hw.readStatus ⟨s₁, r.sent ++ [[opcodeWriteEnable]]⟩
  have hsend : send b [opcodeWriteEnable] r = (some ecSuccess, ⟨s₁, r.sent ++ [[opcodeWriteEnable]]⟩) := by
    rw [send, transact, henable]
  have hlatch : latch r₂.bus = true := hlatch₂.trans hlatch₁
  refine ⟨r₂, ?_, hsame₂.trans hsame₁, hidle₂ hidle₁, hlatch⟩
  rw [spiNorWriteEnable, hsend, andThen_ok, hread]
  dsimp only
  rw [if_neg (not_not.mpr rfl), if_neg (hwel.mpr hlatch)]

/-! ## Erasing -/

theorem Works.readLoop (hw : Works b dev polls contents busy latch) (hread : 0 < cfg.maxReadSize)
    {turns offset size : Nat} {r : Run σ} (hidle : busy r.bus = false)
    (hend : offset + size ≤ addressable dev) (hturns : size ≤ turns) :
    ∃ r', readLoop b cfg dev turns offset size r = (ecSuccess, Memory.read (contents r.bus) offset size, r') ∧
      contents r'.bus = contents r.bus ∧ busy r'.bus = false := by
  induction turns generalizing offset size r with
  | zero =>
    obtain rfl : size = 0 := Nat.le_zero.mp hturns
    exact ⟨r, rfl, rfl, hidle⟩
  | succ turns ih =>
    rw [SpiNor.readLoop]
    by_cases hmore : 0 < size
    · obtain ⟨n, hn⟩ : ∃ n, n = min size cfg.maxReadSize := ⟨_, rfl⟩
      have hle : n ≤ size := by omega
      obtain ⟨hend', hsame⟩ := next_offset hle hend
      obtain ⟨s', hbytes, hcontents, hidle'⟩ := hw.read r.bus offset n hidle (by omega) (by omega)
      obtain ⟨r', hrest, hcontents', hidle''⟩ :=
        @ih ((offset + n) % 2 ^ 32) (size - n) ⟨s', r.sent ++ [opcodeSlowRead :: addressBytes dev offset]⟩ hidle' hend'
          (by omega)
      refine ⟨r', ?_, hcontents'.trans hcontents, hidle''⟩
      rw [if_pos hmore]
      dsimp only
      rw [← hn, transact, hbytes]
      dsimp only
      rw [if_neg (not_not.mpr rfl), hrest]
      dsimp only
      rw [hcontents]
      have hsplit := read_add (contents r.bus) offset n (size - n)
      rw [Nat.add_sub_cancel' hle] at hsplit
      by_cases hlast : n < size
      · rw [hsame hlast, ← hsplit]
      · rw [show size - n = 0 by omega] at hsplit ⊢
        rw [hsplit]
        rfl
    · rw [if_neg hmore]
      obtain rfl : size = 0 := by omega
      exact ⟨r, rfl, rfl, hidle⟩

theorem verifyOffset_eq {buffer : List UInt8} (hwords : 4 ∣ buffer.length) (h : verifyOffset buffer = buffer.length) :
    ∀ x ∈ buffer, x = 0xff := by
  induction buffer using verifyOffset.induct with
  | case1 w₀ w₁ w₂ w₃ buffer hones ih =>
    rw [verifyOffset, if_pos hones] at h
    simp only [List.length_cons] at h hwords
    obtain ⟨h₀, h₁, h₂, h₃⟩ := hones
    have hrest := ih (by omega) (by omega)
    intro x hx
    simp only [List.mem_cons] at hx
    rcases hx with rfl | rfl | rfl | rfl | hx
    · exact h₀
    · exact h₁
    · exact h₂
    · exact h₃
    · exact hrest x hx
  | case2 w₀ w₁ w₂ w₃ buffer hother =>
    rw [verifyOffset, if_neg hother] at h
    simp only [List.length_cons] at h
    omega
  -- fewer than four bytes are no word, so there are none
  | case3 buffer hshort =>
    match buffer, hshort with
    | [], _ => exact fun _ hx => absurd hx List.not_mem_nil
    | [_], _ => simp at hwords
    | [_, _], _ => simp at hwords
    | [_, _, _], _ => simp at hwords
    | w₀ :: w₁ :: w₂ :: w₃ :: rest, hshort => exact absurd rfl (hshort w₀ w₁ w₂ w₃ rest)

/-- What CONFIG_SPI_NOR_MAX_READ_SIZE is checked for at build time. -/
structure ReadSize (cfg : Config) : Prop where
  pos : 0 < cfg.maxReadSize
  words : 4 ∣ cfg.maxReadSize

theorem Works.blankLoop (hw : Works b dev polls contents busy latch) (hread : ReadSize cfg) {turns offset size : Nat}
    {r : Run σ} (hidle : busy r.bus = false) (hend : offset + size ≤ addressable dev) (hwords : 4 ∣ size) :
    ∃ left r', blankLoop b cfg dev turns offset size r = (left, r') ∧ contents r'.bus = contents r.bus ∧
      busy r'.bus = false ∧
      (left = 0 → ∀ i < size, contents r.bus (offset + i) = 0xff) := by
  induction turns generalizing offset size r with
  | zero =>
    refine ⟨size, r, rfl, rfl, hidle, ?_⟩
    rintro rfl i hi
    omega
  | succ turns ih =>
    rw [SpiNor.blankLoop]
    by_cases hmore : size ≠ 0
    · obtain ⟨n, hn⟩ : ∃ n, n = min size cfg.maxReadSize := ⟨_, rfl⟩
      have hle : n ≤ size := by omega
      have hnwords : 4 ∣ n := by
        rw [hn]
        rcases Nat.le_total size cfg.maxReadSize with hsmall | hlarge
        · rwa [Nat.min_eq_left hsmall]
        · rw [Nat.min_eq_right hlarge]
          exact hread.words
      obtain ⟨hend', hsame⟩ := next_offset hle hend
      have hinside : offset + n ≤ addressable dev := by omega
      obtain ⟨r₁, hbytes, hcontents, hidle₁⟩ := hw.readLoop hread.pos hidle hinside (Nat.le_refl n)
      rw [if_pos hmore]
      dsimp only
      rw [← hn, spiNorReadInternal, hbytes]
      dsimp only
      rw [if_neg (not_not.mpr rfl)]
      by_cases hblank : verifyOffset (Memory.read (contents r.bus) offset n) = n
      · rw [if_neg (not_not.mpr hblank)]
        have hones : ∀ i < n, contents r.bus (offset + i) = 0xff := by
          intro i hi
          refine verifyOffset_eq (by rwa [length_read]) (hblank.trans length_read.symm) _ ?_
          exact List.mem_map.mpr ⟨i, List.mem_range.mpr hi, rfl⟩
        obtain ⟨left, r', hloop, hcontents', hidle', hleft⟩ := ih hidle₁ hend' (Nat.dvd_sub hwords hnwords)
        refine ⟨left, r', hloop, hcontents'.trans hcontents, hidle', ?_⟩
        intro hzero i hi
        -- in the part that has just been compared, or in the rest
        by_cases hfirst : i < n
        · exact hones i hfirst
        · have hrest := hleft hzero (i - n) (by omega)
          rwa [hsame (by omega), hcontents, show offset + n + (i - n) = offset + i by omega] at hrest
      · rw [if_pos hblank]
        exact ⟨size, r₁, rfl, hcontents, hidle₁, fun hzero => absurd hzero hmore⟩
    · rw [if_neg hmore]
      refine ⟨size, r, rfl, rfl, hidle, ?_⟩
      intro hzero i hi
      omega

/-- What is erased next starts where a unit starts, and ends within the range. -/
theorem eraseUnit_spec {offset size : Nat} (hoffset : offset % 4096 = 0) (hsize : size % 4096 = 0) (hmore : 0 < size) :
    ∃ opcode unit, eraseUnit cfg offset size = (opcode, unit) ∧ unitOf opcode = some unit ∧ offset % unit = 0 ∧
      unit ≤ size ∧
      0 < unit ∧ unit % 4096 = 0 := by
  rw [eraseUnit]
  split
  · next hblock => exact ⟨_, _, rfl, rfl, hblock.2.1, hblock.2.2, by decide, by decide⟩
  · exact ⟨_, _, rfl, rfl, hoffset, by omega, by decide, by decide⟩

theorem Works.eraseNeeded (hw : Works b dev polls contents busy latch) (hread : cfg.smartErase = true → ReadSize cfg)
    {offset unit : Nat} {r : Run σ} (hidle : busy r.bus = false) (hend : offset + unit ≤ addressable dev) (hpos : 0 < unit)
    (hwords : 4 ∣ unit) :
    ∃ left r', eraseNeeded b cfg dev offset unit r = (left, r') ∧ contents r'.bus = contents r.bus ∧
      busy r'.bus = false ∧
      (left = 0 → ∀ i < unit, contents r.bus (offset + i) = 0xff) := by
  rw [SpiNor.eraseNeeded]
  by_cases hsmart : cfg.smartErase = true
  · rw [if_pos hsmart]
    exact hw.blankLoop (hread hsmart) hidle hend hwords
  · rw [if_neg hsmart]
    exact ⟨unit, r, rfl, rfl, hidle, fun hzero => absurd hzero (Nat.ne_of_gt hpos)⟩

/-- One unit after the other is erased, or is erased already. -/
theorem eraseLoop_erases (hw : Works b dev polls contents busy latch) (hread : cfg.smartErase = true → ReadSize cfg)
    {turns offset size : Nat} (r : Run σ) (hoffset : offset % 4096 = 0) (hsize : size % 4096 = 0)
    (hend : offset + size ≤ addressable dev) (hturns : size < turns) :
    ∃ r', eraseLoop b cfg dev polls turns offset size r = (some ecSuccess, r') ∧
      contents r'.bus = fill (contents r.bus) offset size 0xff := by
  induction turns generalizing offset size r with
  | zero => exact absurd hturns (Nat.not_lt_zero _)
  | succ turns ih =>
    rw [eraseLoop]
    obtain ⟨r₁, hwait, hsame₁, hidle₁⟩ := hw.wait r
    by_cases hmore : 0 < size
    · obtain ⟨opcode, unit, hunit, hopcode, halign, hle, hpos, hsectors⟩ :=
        @eraseUnit_spec cfg offset size hoffset hsize hmore
      obtain ⟨hend', hplace⟩ := next_offset hle hend
      obtain ⟨left, r₂, hneeded, hsame₂, hidle₂, hblank⟩ :=
        hw.eraseNeeded hread hidle₁ (show offset + unit ≤ addressable dev by omega) hpos (by omega)
      -- the rest of the range, from contents where this unit is erased
      have hrest : ∀ r₃ : Run σ, contents r₃.bus = fill (contents r.bus) offset unit 0xff →
          ∃ r', eraseLoop b cfg dev polls turns ((offset + unit) % 2 ^ 32) (size - unit) r₃ = (some ecSuccess, r') ∧
            contents r'.bus = fill (contents r.bus) offset size 0xff := by
        intro r₃ hunitErased
        obtain ⟨r', hloop, herased⟩ := ih r₃ (by omega) (by omega) hend' (by omega)
        refine ⟨r', hloop, ?_⟩
        rw [herased, hunitErased]
        by_cases hlast : unit < size
        · rw [hplace hlast, fill_fill, Nat.add_sub_cancel' hle]
        · rw [show size - unit = 0 by omega, show size = unit by omega, fill, copy_zero]
      rw [if_pos hmore, hwait, andThen_ok, hunit]
      dsimp only
      rw [hneeded]
      dsimp only
      -- a unit that is skipped was blank, which is what an erase would have left
      by_cases hskip : left = 0
      · rw [if_pos hskip]
        refine hrest r₂ ?_
        rw [hsame₂, hsame₁, fill_same]
        exact fun i hi => hsame₁ ▸ hblank hskip i hi
      · rw [if_neg hskip]
        obtain ⟨r₃, henable, hsame₃, hidle₃, hlatch⟩ := hw.writeEnable hidle₂
        obtain ⟨s', herase, herased⟩ := hw.erase r₃.bus opcode unit offset hopcode hidle₃ hlatch (by omega)
        have hsend : send b (opcode :: addressBytes dev offset) r₃ =
            (some ecSuccess, ⟨s', r₃.sent ++ [opcode :: addressBytes dev offset]⟩) := by
          rw [send, transact, herase]
        rw [henable, andThen_ok, hsend, andThen_ok]
        refine hrest _ ?_
        have hstart : offset / unit * unit = offset := Nat.div_mul_cancel (Nat.dvd_of_mod_eq_zero halign)
        rw [herased, hsame₃, hsame₂, hsame₁, hstart]
    · obtain rfl : size = 0 := by omega
      rw [if_neg hmore, hwait]
      exact ⟨r₁, rfl, by rw [hsame₁, fill, copy_zero]⟩

/-! ## Writing -/

theorem programmed_nil (m : Nat → UInt8) (offset : Nat) : programmed m offset [] = m := by
  funext a
  exact if_neg fun hin => Nat.not_lt_of_le hin.1 hin.2

theorem programmed_append (m : Nat → UInt8) (offset : Nat) (data data' : List UInt8) :
    programmed (programmed m offset data) (offset + data.length) data' = programmed m offset (data ++ data') := by
  funext a
  simp only [programmed, List.length_append]
  by_cases hsecond : offset + data.length ≤ a ∧ a < offset + data.length + data'.length
  · rw [if_pos hsecond, if_neg (by omega), if_pos (by omega), List.getD_append_right _ _ _ _ (by omega),
      show a - offset - data.length = a - (offset + data.length) by omega]
  · rw [if_neg hsecond]
    by_cases hfirst : offset ≤ a ∧ a < offset + data.length
    · rw [if_pos hfirst, if_pos (by omega), List.getD_append _ _ _ _ (by omega)]
    · rw [if_neg hfirst, if_neg (by omega)]

theorem writeLoop_writes (hw : Works b dev polls contents busy latch) (hpow : PowersOfTwo cfg dev) {turns offset : Nat}
    {data : List UInt8} (r : Run σ) (hend : offset + data.length ≤ addressable dev) (hturns : data.length < turns) :
    ∃ r', writeLoop b cfg dev polls turns offset data r = (some ecSuccess, r') ∧
      contents r'.bus = programmed (contents r.bus) offset data ∧ busy r'.bus = false := by
  induction turns generalizing offset data r with
  | zero => exact absurd hturns (Nat.not_lt_zero _)
  | succ turns ih =>
    rw [writeLoop]
    obtain ⟨r₁, hwait, hsame₁, hidle₁⟩ := hw.wait r
    by_cases hmore : 0 < data.length
    · obtain ⟨n, hn⟩ : ∃ n, n =
          min data.length (effectivePageSize cfg dev - (offset &&& (effectivePageSize cfg dev - 1))) :=
        ⟨_, rfl⟩
      obtain ⟨hpos, hle, hwithin⟩ := hpow.write_size hmore hn
      obtain ⟨hend', hplace⟩ := next_offset hle hend
      have hlength : (data.take n).length = n := by rw [List.length_take, Nat.min_eq_left hle]
      have hpage : WithinPage dev.pageSize (offset, data.take n) := by
        rw [WithinPage, hlength]
        exact ⟨hpos, hwithin⟩
      obtain ⟨r₂, henable, hsame₂, hidle₂, hlatch⟩ := hw.writeEnable hidle₁
      obtain ⟨s', hprogram, hprogrammed⟩ :=
        hw.program r₂.bus offset (data.take n) hidle₂ hlatch hpage (by rw [hlength]; omega)
      have hsend : send b (opcodePageProgram :: (addressBytes dev offset ++ data.take n)) r₂ =
          (some ecSuccess, ⟨s', r₂.sent ++ [opcodePageProgram :: (addressBytes dev offset ++ data.take n)]⟩) := by
        rw [send, transact, hprogram]
      rw [if_pos hmore]
      dsimp only
      rw [← hn, hwait, andThen_ok, henable, andThen_ok, hsend, andThen_ok]
      rw [← List.length_drop] at hend'
      obtain ⟨r', hloop, hcontents, hidle'⟩ :=
        ih ⟨s', r₂.sent ++ [opcodePageProgram :: (addressBytes dev offset ++ data.take n)]⟩ hend'
          (by rw [List.length_drop]; omega)
      refine ⟨r', hloop, ?_, hidle'⟩
      rw [hcontents, hprogrammed, hsame₂, hsame₁]
      have hsplit := programmed_append (contents r.bus) offset (data.take n) (data.drop n)
      rw [List.take_append_drop, hlength] at hsplit
      rw [← hsplit]
      by_cases hlast : n < data.length
      · rw [hplace hlast]
      · rw [List.drop_eq_nil_of_le (Nat.not_lt.mp hlast), programmed_nil, programmed_nil]
    · obtain rfl : data = [] := List.eq_nil_of_length_eq_zero (by omega)
      rw [if_neg hmore, hwait]
      exact ⟨r₁, rfl, by rw [hsame₁, programmed_nil], hidle₁⟩

/-! ## Ranges -/

/-- What spi_nor_erase takes. -/
def Accepted (offset size : Nat) : Prop := offset % 4096 = 0 ∧ size % 4096 = 0 ∧ 4096 ≤ size

structure ErasesRange (contents : σ → Nat → UInt8) (offset size : Nat) (r : Run σ) (x : Result σ) : Prop where
  ends : x.1 = some ecSuccess
  erased : ∀ a, offset ≤ a → a < offset + size → contents x.2.bus a = 0xff
  kept : ∀ a, a < offset ∨ offset + size ≤ a → contents x.2.bus a = contents r.bus a

theorem erase_accepted {offset size : Nat} (h : Accepted offset size) (r : Run σ) :
    spiNorErase b cfg dev polls offset size r = eraseLoop b cfg dev polls (size + 1) offset size r := by
  rw [Accepted] at h
  exact if_neg (by omega)

theorem erases_range (hw : Works b dev polls contents busy latch) (hread : cfg.smartErase = true → ReadSize cfg)
    {offset size : Nat} (r : Run σ) (haccepted : Accepted offset size) (hend : offset + size ≤ addressable dev) :
    ErasesRange contents offset size r (spiNorErase b cfg dev polls offset size r) := by
  obtain ⟨r', hloop, herased⟩ :=
    eraseLoop_erases hw hread r haccepted.1 haccepted.2.1 hend (Nat.lt_succ_self size)
  rw [erase_accepted haccepted, hloop]
  refine ⟨rfl, ?_, ?_⟩
  · intro a hlow hhigh
    rw [herased]
    exact if_pos ⟨hlow, hhigh⟩
  · intro a hout
    rw [herased]
    exact if_neg (by omega)

/-- A write programs its range, page by page, and all of it on a chip that works; an erase of a range that the addresses
reach erases it on such a chip. -/
theorem ranges_exact (hpow : PowersOfTwo cfg dev) (hread : cfg.smartErase = true → ReadSize cfg) :
    (∀ offset data (r : Run σ), offset + data.length ≤ addressable dev →
      Wrote dev offset data r (spiNorWrite b cfg dev polls offset data r)) ∧
    (Works b dev polls contents busy latch →
      (∀ offset data (r : Run σ), offset + data.length ≤ addressable dev →
        (spiNorWrite b cfg dev polls offset data r).1 = some ecSuccess) ∧
      ∀ offset size (r : Run σ), Accepted offset size → offset + size ≤ addressable dev →
        ErasesRange contents offset size r (spiNorErase b cfg dev polls offset size r)) := by
  refine ⟨fun offset data r hend => writeLoop_programs hpow _ r hend, fun hw => ⟨?_, ?_⟩⟩
  · intro offset data r hend
    obtain ⟨r', hloop, -⟩ := writeLoop_writes hw hpow r hend (Nat.lt_succ_self data.length)
    rw [spiNorWrite, hloop]
  · exact fun offset size r haccepted hend => erases_range hw hread r haccepted hend

/-- In a range that is erased any data can be written anywhere, and is read back. The rest of the range is blank, and
what is outside it as it was. -/
theorem erase_write_read (hw : Works b dev polls contents busy latch) (hpow : PowersOfTwo cfg dev) (hread : ReadSize cfg)
    {offset size place : Nat} {data : List UInt8} (r : Run σ) (haccepted : Accepted offset size)
    (hend : offset + size ≤ addressable dev) (hplace : offset ≤ place) (hfits : place + data.length ≤ offset + size) :
    ∃ erased written back,
      spiNorErase b cfg dev polls offset size r = (some ecSuccess, erased) ∧
      spiNorWrite b cfg dev polls place data erased = (some ecSuccess, written) ∧
      spiNorReadInternal b cfg dev place data.length written = (ecSuccess, data, back) ∧
      ∀ a, contents back.bus a =
        if place ≤ a ∧ a < place + data.length then data.getD (a - place) 0
        else if offset ≤ a ∧ a < offset + size then 0xff else contents r.bus a := by
  obtain ⟨erased, herase, herased⟩ :=
    eraseLoop_erases hw (fun _ => hread) r haccepted.1 haccepted.2.1 hend (Nat.lt_succ_self size)
  obtain ⟨written, hwrite, hwritten, hidle⟩ :=
    writeLoop_writes hw hpow erased (Nat.le_trans hfits hend) (Nat.lt_succ_self data.length)
  obtain ⟨back, hback, hsame, -⟩ :=
    hw.readLoop hread.pos hidle (Nat.le_trans hfits hend) (Nat.le_refl data.length)
  have hcells : ∀ a, contents written.bus a =
      if place ≤ a ∧ a < place + data.length then data.getD (a - place) 0
      else if offset ≤ a ∧ a < offset + size then 0xff else contents r.bus a := by
    intro a
    rw [hwritten, herased, programmed]
    split
    · have hones : ∀ x : UInt8, 0xff &&& x = x := fun x => UInt8.eq_of_toBitVec_eq BitVec.allOnes_and
      rw [fill, copy, if_pos (by omega), hones]
    · rfl
  have hdata : read (contents written.bus) place data.length = data := by
    refine read_eq_iff.mpr fun i hi => ?_
    rw [hcells, if_pos (by omega), Nat.add_sub_cancel_left, List.getD_eq_getElem _ _ hi]
    rfl
  rw [hdata] at hback
  exact ⟨erased, written, back, (erase_accepted haccepted r).trans herase, hwrite, hback, fun a => hsame ▸ hcells a⟩

end

/-! ## A chip -/

/-- The contents, the write enable latch, and whether an operation is going on. -/
structure Flash where
  mem : Nat → UInt8
  latch : Bool
  busy : Bool

/-- An operation takes until the driver has slept. -/
def flashBus (dev : Device) : Bus Flash where
  spiTransaction s tx n :=
    match tx with
    | [] => (ecErrorUnknown, [], s)
    | opcode :: rest =>
      if opcode = opcodeReadStatus then
        (ecSuccess, [(if s.busy then statusRegisterWip else 0) ||| (if s.latch then statusRegisterWel else 0)], s)
      else if s.busy then (ecErrorUnknown, [], s)
      else if opcode = opcodeWriteEnable then (ecSuccess, [], { s with latch := true })
      else if opcode = opcodeSlowRead then (ecSuccess, read s.mem (addressOf rest) n, s)
      else if !s.latch then (ecErrorUnknown, [], s)
      else if opcode = opcodePageProgram then
        (ecSuccess, [], ⟨programmed s.mem (addressOf (rest.take (addressSize dev)))
          (rest.drop (addressSize dev)), false, true⟩)
      else
        match unitOf opcode with
        | some unit => (ecSuccess, [], ⟨fill s.mem (addressOf rest / unit * unit) unit 0xff, false, true⟩)
        | none => (ecErrorUnknown, [], s)
  getTime _ := 0
  usleep s := { s with busy := false }

theorem flashBus_status : ∀ busy latch : Bool,
    (((if busy then statusRegisterWip else 0) ||| (if latch then statusRegisterWel else 0)) &&& statusRegisterWip ≠ 0 ↔
      busy = true) ∧
    (((if busy then statusRegisterWip else 0) ||| (if latch then statusRegisterWel else 0)) &&& statusRegisterWel ≠ 0 ↔
      latch = true) := by
  decide

theorem flashBus_erase {dev : Device} {opcode : UInt8} {unit : Nat}
    (hopcode : unitOf opcode = some unit) {mem : Nat → UInt8}
    {address : List UInt8} : (flashBus dev).spiTransaction ⟨mem, true, false⟩ (opcode :: address) 0 =
      (ecSuccess, [], ⟨fill mem (addressOf address / unit * unit) unit 0xff, false, true⟩) := by
  have hother : ∀ {code}, unitOf code = none → opcode ≠ code := by
    rintro code hnone rfl
    rw [hnone] at hopcode
    cases hopcode
  simp only [flashBus]
  rw [if_neg (hother (by decide)), if_neg Bool.false_ne_true, if_neg (hother (by decide)), if_neg (hother (by decide)),
    if_neg (by decide), if_neg (hother (by decide)), hopcode]

theorem flashBus_works (dev : Device) : Works (flashBus dev) dev 2 Flash.mem Flash.busy Flash.latch := by
  refine ⟨?_, fun _ => rfl, ?_, ?_, ?_, ?_, ?_⟩
  · intro s
    exact ⟨_, s, rfl, (flashBus_status s.busy s.latch).1, (flashBus_status s.busy s.latch).2, rfl, rfl, id⟩
  · rintro ⟨⟨mem, latch, busy⟩, sent⟩
    have hidle : (2 : UInt8) &&& 1 = 0 := by decide
    have hboth : ((1 : UInt8) ||| 2) &&& 1 = 1 := by decide
    cases latch <;> cases busy <;> simp [spiNorWait, waitLoop, spiNorReadStatus, transact, flashBus, statusRegisterWip,
      statusRegisterWel, ecSuccess, hidle, hboth]
  · rintro ⟨mem, latch, busy⟩ rfl
    exact ⟨_, rfl, rfl, rfl, rfl⟩
  · rintro ⟨mem, latch, busy⟩ address n rfl hpos hend
    refine ⟨⟨mem, latch, false⟩, ?_, rfl, rfl⟩
    have haddress : addressOf (addressBytes dev address) = address := by
      rw [addressOf_addressBytes, Nat.mod_eq_of_lt (by omega)]
    show (ecSuccess, read mem (addressOf (addressBytes dev address)) n, _) = _
    rw [haddress]
  · rintro ⟨mem, latch, busy⟩ opcode unit address hopcode rfl rfl hend
    have haddress : addressOf (addressBytes dev address) = address := by
      rw [addressOf_addressBytes, Nat.mod_eq_of_lt hend]
    refine ⟨⟨fill mem (address / unit * unit) unit 0xff, false, true⟩, ?_, rfl⟩
    rw [flashBus_erase hopcode, haddress]
  · rintro ⟨mem, latch, busy⟩ address data rfl rfl hpage hend
    have hpos : 0 < data.length := hpage.1
    have haddress : addressOf (addressBytes dev address) = address := by
      rw [addressOf_addressBytes, Nat.mod_eq_of_lt (by omega)]
    refine ⟨⟨programmed mem address data, false, true⟩, ?_, rfl⟩
    show (ecSuccess, [], (⟨programmed mem (addressOf ((addressBytes dev address ++ data).take (addressSize dev)))
      ((addressBytes dev address ++ data).drop (addressSize dev)), false, true⟩ : Flash)) = _
    rw [← length_addressBytes dev address, List.take_left, List.drop_left, haddress]

/-- Addresses of three bytes. -/
def smallDevice : Device := ⟨1000, 256, false⟩

def plainConfig : Config := ⟨16, 64, true, true⟩

theorem ranges_exact_plain :
    (∀ offset data (r : Run Flash), offset + data.length ≤ addressable smallDevice →
      Wrote smallDevice offset data r (spiNorWrite (flashBus smallDevice) plainConfig smallDevice 2 offset data r)) ∧
    (∀ offset data (r : Run Flash), offset + data.length ≤ addressable smallDevice →
      (spiNorWrite (flashBus smallDevice) plainConfig smallDevice 2 offset data r).1 = some ecSuccess) ∧
    ∀ offset size (r : Run Flash), Accepted offset size → offset + size ≤ addressable smallDevice →
      ErasesRange Flash.mem offset size r
        (spiNorErase (flashBus smallDevice) plainConfig smallDevice 2 offset size r) := by
  have hpow : PowersOfTwo plainConfig smallDevice := ⟨⟨8, rfl⟩, ⟨6, rfl⟩⟩
  obtain ⟨hprograms, hworks⟩ := @ranges_exact _ _ plainConfig _ 2 _ _ _ hpow fun _ => ⟨by decide, by decide⟩
  exact ⟨hprograms, hworks (flashBus_works smallDevice)⟩

theorem erase_write_read_plain : ∃ erased written back,
    spiNorErase (flashBus smallDevice) plainConfig smallDevice 2 0 4096 ⟨⟨fun _ => 7, false, true⟩, []⟩ =
      (some ecSuccess, erased) ∧
    spiNorWrite (flashBus smallDevice) plainConfig smallDevice 2 255 [1, 2, 3] erased = (some ecSuccess, written) ∧
    spiNorReadInternal (flashBus smallDevice) plainConfig smallDevice 255 3 written = (ecSuccess, [1, 2, 3], back) ∧
    ∀ a, back.bus.mem a =
      if 255 ≤ a ∧ a < 258 then [1, 2, 3].getD (a - 255) 0 else if 0 ≤ a ∧ a < 0 + 4096 then 0xff else 7 :=
  erase_write_read (flashBus_works smallDevice) ⟨⟨8, rfl⟩, ⟨6, rfl⟩⟩ ⟨by decide, by decide⟩ _
    ⟨rfl, rfl, by decide⟩ (by decide) (by decide) (by decide)

/-- The sector at 16 MiB is accepted, and the first one is erased. -/
theorem far_sector_erases : ¬∀ offset size (r : Run Flash), Accepted offset size →
    ErasesRange Flash.mem offset size r (spiNorErase (flashBus smallDevice) plainConfig smallDevice 2 offset size r) := by
  intro h
  have herases := h 0x1000000 4096 ⟨⟨fun _ => 0, false, false⟩, []⟩ ⟨by decide, by decide, by decide⟩
  have hfirst := herases.kept 0 (.inl (by decide))
  revert hfirst
  decide +kernel

end ChromeEc.SpiNor
