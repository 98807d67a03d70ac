import ChromeEc.HostCommand.Model

/- The framing of host command packets.

  A request is looked at as it is received, or in the temporary buffer as it is copied there:
  either way the header and the data are those received, and the sum is theirs (`takeIn_eq`,
  `taken_cell`). So the checks decide on the received bytes alone (`Accepts`), and the buffer
  that a handler is given holds the request data even after the response buffer is cleared
  (`seen_accepted`). A response is summed with its checksum byte zero, and then sealed
  (`respond_wellFormed`). -/
namespace ChromeEc.HostCommand
open ChromeEc.Lib ChromeEc.Lib.Memory ChromeEc.Lib.Checksum ChromeEc.Lib.Steps

variable {m : Mem} {pkt : Packet} {s s' : State} {env : Env} {status : Bool} {n k src t csum : Nat}

/-! ## Loops -/

theorem checksumLoop_eq : checksumLoop m src n csum = csum + byteSum m src n := by
  induction n generalizing src csum with
  | zero => rfl
  | succ n ih => rw [checksumLoop, ih, byteSum_succ, Nat.add_assoc]

theorem copy_store (h : src + (n + 1) ≤ t ∨ t + (n + 1) ≤ src) :
    copy (store m t (m src)) (t + 1) n (fun i => store m t (m src) (src + 1 + i)) =
      copy m t (n + 1) fun i => m (src + i) := by
  funext a
  simp only [copy, store]
  by_cases hfirst : a = t
  · subst hfirst
    have hout : ¬(a + 1 ≤ a ∧ a < a + 1 + n) := by omega
    have hin : a ≤ a ∧ a < a + (n + 1) := by omega
    rw [if_neg hout, if_pos rfl, if_pos hin, Nat.sub_self, Nat.add_zero]
  · by_cases hin : t + 1 ≤ a ∧ a < t + 1 + n
    · have hin' : t ≤ a ∧ a < t + (n + 1) := by omega
      have hcell : src + 1 + (a - (t + 1)) = src + (a - t) := by omega
      have hother : src + (a - t) ≠ t := by omega
      rw [if_pos hin, if_pos hin', hcell, if_neg hother]
    · have hin' : ¬(t ≤ a ∧ a < t + (n + 1)) := by omega
      rw [if_neg hin, if_neg hin', if_neg hfirst]

theorem copyLoop_eq (h : src + n ≤ t ∨ t + n ≤ src) :
    copyLoop m src t n csum = (copy m t n (fun i => m (src + i)), csum + byteSum m src n) := by
  induction n generalizing m src t csum with
  | zero => simp [copyLoop]
  | succ n ih =>
    have hrest : byteSum (store m t (m src)) (src + 1) n = byteSum m (src + 1) n :=
      byteSum_congr fun a _ _ => store_of_ne (by omega)
    rw [copyLoop, ih (by omega), copy_store h, hrest, store_self, byteSum_succ, Nat.add_assoc]

/-! ## The buffers of a packet -/

/-- What `host_packet` asks of its driver: the temporary buffer is one of its own, and where
there is none the request and the response do not overlap. -/
structure Laid (pkt : Packet) : Prop where
  temp : ∀ t, pkt.requestTemp = some t →
    (pkt.request + pkt.requestMax.toNat ≤ t ∨ t + pkt.requestMax.toNat ≤ pkt.request) ∧
      (pkt.response + pkt.responseMax.toNat ≤ t ∨ t + pkt.requestMax.toNat ≤ pkt.response)
  shared : pkt.requestTemp = none →
    pkt.response + pkt.responseMax.toNat ≤ pkt.request ∨ pkt.request + pkt.requestMax.toNat ≤ pkt.response

/-- The memory once `n` bytes of the request are taken in. -/
def taken (m : Mem) (pkt : Packet) (n : Nat) : Mem :=
  match pkt.requestTemp with
  | some t => copy m t n fun i => m (pkt.request + i)
  | none => m

def base (pkt : Packet) : Nat := pkt.requestTemp.getD pkt.request

theorem takeIn_first (h : Laid pkt) (hn : n ≤ pkt.requestMax.toNat) :
    takeIn m pkt.request pkt.requestTemp n 0 = (taken m pkt n, byteSum m pkt.request n) := by
  unfold takeIn taken
  cases ht : pkt.requestTemp with
  | none => simp only [checksumLoop_eq, Nat.zero_add]
  | some t =>
    have hapart := (h.temp t ht).1
    simp only [copyLoop_eq (show pkt.request + n ≤ t ∨ t + n ≤ pkt.request by omega), Nat.zero_add]

theorem copy_copy {f : Nat → UInt8} : copy (copy m t n f) (t + n) k (fun i => f (n + i)) = copy m t (n + k) f := by
  funext a
  simp only [copy]
  by_cases hin : t + n ≤ a ∧ a < t + n + k
  · have hin' : t ≤ a ∧ a < t + (n + k) := by omega
    have hcell : n + (a - (t + n)) = a - t := by omega
    rw [if_pos hin, if_pos hin', hcell]
  · by_cases hfirst : t ≤ a ∧ a < t + n
    · have hin' : t ≤ a ∧ a < t + (n + k) := by omega
      rw [if_neg hin, if_pos hfirst, if_pos hin']
    · have hin' : ¬(t ≤ a ∧ a < t + (n + k)) := by omega
      rw [if_neg hin, if_neg hfirst, if_neg hin']

theorem takeIn_next (m : Mem) (csum : Nat) (h : Laid pkt) (hn : n + k ≤ pkt.requestMax.toNat) :
    takeIn (taken m pkt n) (pkt.request + n) (pkt.requestTemp.map (· + n)) k csum =
      (taken m pkt (n + k), csum + byteSum m (pkt.request + n) k) := by
  unfold takeIn taken
  cases ht : pkt.requestTemp with
  | none => simp only [Option.map_none, checksumLoop_eq]
  | some t =>
    have hapart := (h.temp t ht).1
    have hread : ∀ a, pkt.request + n ≤ a → a < pkt.request + n + k →
        copy m t n (fun i => m (pkt.request + i)) a = m a := by
      intro a hlo hhi
      rcases hapart with hbelow | habove
      · exact copy_of_lt (by omega)
      · exact copy_of_ge (by omega)
    have hsum : byteSum (copy m t n fun i => m (pkt.request + i)) (pkt.request + n) k =
        byteSum m (pkt.request + n) k := byteSum_congr hread
    have hblock : copy (copy m t n fun i => m (pkt.request + i)) (t + n) k
        (fun i => copy m t n (fun i => m (pkt.request + i)) (pkt.request + n + i)) =
        copy m t (n + k) fun i => m (pkt.request + i) := by
      rw [← copy_copy]
      funext a
      simp only [copy]
      split
      · have hcell := hread (pkt.request + n + (a - (t + n))) (by omega) (by omega)
        simp only [copy] at hcell
        rw [hcell, Nat.add_assoc]
      · rfl
    simp only [Option.map_some]
    rw [copyLoop_eq (by omega), hblock, hsum]

theorem taken_cell {i : Nat} (hi : i < n) : taken m pkt n (base pkt + i) = m (pkt.request + i) := by
  unfold taken base
  cases pkt.requestTemp with
  | none => rfl
  | some t => exact copy_inside hi

theorem dataLen_taken (hn : 8 ≤ n) : dataLen (taken m pkt n) (base pkt) = dataLen m pkt.request := by
  simp only [dataLen, le16, Nat.add_assoc]
  rw [taken_cell (by omega), taken_cell (by omega)]

theorem structVersion_taken (hn : 8 ≤ n) : structVersion (taken m pkt n) (base pkt) = structVersion m pkt.request :=
  taken_cell (i := 0) (by omega)

theorem command_taken (hn : 8 ≤ n) : command (taken m pkt n) (base pkt) = command m pkt.request := by
  simp only [command, le16, Nat.add_assoc]
  rw [taken_cell (by omega), taken_cell (by omega)]

theorem commandVersion_taken (hn : 8 ≤ n) : commandVersion (taken m pkt n) (base pkt) = commandVersion m pkt.request :=
  taken_cell (i := 4) (by omega)

/-! ## Requests -/

/-- The checks of `host_packet_receive` on the bytes received. -/
structure Accepts (m : Mem) (pkt : Packet) : Prop where
  driver : pkt.driverResult = 0
  header : HEADER_SIZE ≤ pkt.requestSize.toNat
  size : pkt.requestSize ≤ pkt.requestMax
  version : structVersion m pkt.request = EC_HOST_REQUEST_VERSION
  data : HEADER_SIZE + (dataLen m pkt.request).toNat ≤ pkt.requestSize.toNat
  sum : byteSum m pkt.request (HEADER_SIZE + (dataLen m pkt.request).toNat) % 256 = 0

def summed (pkt : Packet) (s : State) : State :=
  { s with
    pkt0 := pkt
    mem := taken s.mem pkt (HEADER_SIZE + (dataLen s.mem pkt.request).toNat)
    args0 := { s.args0 with params := base pkt + HEADER_SIZE } }

def accepted (pkt : Packet) (s : State) : State :=
  { s with
    pkt0 := pkt
    mem := taken s.mem pkt (HEADER_SIZE + (dataLen s.mem pkt.request).toNat)
    args0 :=
      { command := command s.mem pkt.request, version := commandVersion s.mem pkt.request,
        params := base pkt + HEADER_SIZE, paramsSize := dataLen s.mem pkt.request,
        response := pkt.response + HEADER_SIZE, responseMax := pkt.responseMax - BitVec.ofNat 16 HEADER_SIZE,
        responseSize := 0, result := EC_RES_SUCCESS } }

theorem ofNat_eq_zero : UInt8.ofNat n = 0 ↔ n % 256 = 0 := by
  rw [← UInt8.toNat_inj, UInt8.toNat_ofNat']
  exact Iff.rfl

/-- What remains of `host_packet_receive` once the packet is known to have a header. -/
theorem receive_sized (hlaid : Laid pkt) (hroom : HEADER_SIZE ≤ pkt.responseMax.toNat) (hdriver : pkt.driverResult = 0)
    (hheader : HEADER_SIZE ≤ pkt.requestSize.toNat) (hsize : pkt.requestSize ≤ pkt.requestMax) :
    hostPacketReceive status env pkt s =
      if structVersion s.mem pkt.request ≠ EC_HOST_REQUEST_VERSION then
        hostPacketBad { s with pkt0 := pkt, mem := taken s.mem pkt HEADER_SIZE } EC_RES_INVALID_HEADER
      else if pkt.requestSize.toNat < HEADER_SIZE + (dataLen s.mem pkt.request).toNat then
        hostPacketBad { s with pkt0 := pkt, mem := taken s.mem pkt HEADER_SIZE } EC_RES_REQUEST_TRUNCATED
      else if byteSum s.mem pkt.request (HEADER_SIZE + (dataLen s.mem pkt.request).toNat) % 256 ≠ 0 then
        hostPacketBad (summed pkt s) EC_RES_INVALID_CHECKSUM
      else hostCommandReceived status env (accepted pkt s) := by
  have hmax : pkt.requestSize.toNat ≤ pkt.requestMax.toNat := hsize
  have hfirst : takeIn s.mem pkt.request pkt.requestTemp HEADER_SIZE 0 = _ := takeIn_first hlaid (by omega)
  have hversion : structVersion (taken s.mem pkt HEADER_SIZE) (base pkt) = structVersion s.mem pkt.request :=
    structVersion_taken (Nat.le_refl 8)
  have hlen : dataLen (taken s.mem pkt HEADER_SIZE) (base pkt) = dataLen s.mem pkt.request :=
    dataLen_taken (Nat.le_refl 8)
  have hbase : pkt.requestTemp.getD pkt.request = base pkt := rfl
  have hsmall : ¬pkt.requestSize.toNat < HEADER_SIZE := by omega
  have hlarge : ¬pkt.requestSize > pkt.requestMax := fun h => Nat.not_lt_of_le hmax h
  have hassert : ¬pkt.responseMax.toNat < HEADER_SIZE := by omega
  simp only [hostPacketReceive, hdriver, ne_eq, not_true_eq_false, if_false, hsmall, hlarge, hassert, hfirst, hbase,
    hversion, hlen]
  split
  · rfl
  · split
    · rfl
    · rename_i hfits
      have hnext := takeIn_next s.mem (byteSum s.mem pkt.request HEADER_SIZE) hlaid
        (by omega : HEADER_SIZE + (dataLen s.mem pkt.request).toNat ≤ pkt.requestMax.toNat)
      have hall : 8 ≤ HEADER_SIZE + (dataLen s.mem pkt.request).toNat := Nat.le_add_right 8 _
      simp only [hnext, ← byteSum_add, ofNat_eq_zero, command_taken hall, commandVersion_taken hall, dataLen_taken hall]
      rfl

theorem receive_refused (status : Bool) (env : Env) (hlaid : Laid pkt)
    (hroom : HEADER_SIZE ≤ pkt.responseMax.toNat) (h : ¬Accepts s.mem pkt) :
    ∃ s₁ e, e ≠ 0 ∧ s₁.received = s.received ∧ s₁.pkt0 = pkt ∧
      hostPacketReceive status env pkt s = hostPacketBad s₁ e := by
  by_cases hdriver : pkt.driverResult = 0
  · by_cases hheader : HEADER_SIZE ≤ pkt.requestSize.toNat
    · by_cases hsize : pkt.requestSize ≤ pkt.requestMax
      · rw [receive_sized hlaid hroom hdriver hheader hsize]
        split
        · exact ⟨{ s with pkt0 := pkt, mem := taken s.mem pkt HEADER_SIZE },
            EC_RES_INVALID_HEADER, by decide, rfl, rfl, rfl⟩
        · rename_i hversion
          split
          · exact ⟨{ s with pkt0 := pkt, mem := taken s.mem pkt HEADER_SIZE },
              EC_RES_REQUEST_TRUNCATED, by decide, rfl, rfl, rfl⟩
          · rename_i hdata
            split
            · exact ⟨summed pkt s, EC_RES_INVALID_CHECKSUM, by decide, rfl, rfl, rfl⟩
            · rename_i hsum
              exact absurd ⟨hdriver, hheader, hsize, not_not.mp hversion, Nat.le_of_not_lt hdata, not_not.mp hsum⟩ h
      · have hlarge : pkt.requestSize > pkt.requestMax := Nat.lt_of_not_le hsize
        have hsmall : ¬pkt.requestSize.toNat < HEADER_SIZE := by omega
        refine ⟨{ s with pkt0 := pkt }, EC_RES_REQUEST_TRUNCATED, by decide, rfl, rfl, ?_⟩
        simp only [hostPacketReceive, hdriver, ne_eq, not_true_eq_false, if_false, hsmall, hlarge, if_true]
    · have hsmall : pkt.requestSize.toNat < HEADER_SIZE := by omega
      refine ⟨{ s with pkt0 := pkt }, EC_RES_REQUEST_TRUNCATED, by decide, rfl, rfl, ?_⟩
      simp only [hostPacketReceive, hdriver, ne_eq, not_true_eq_false, if_false, hsmall, if_true]
  · exact ⟨{ s with pkt0 := pkt }, pkt.driverResult, hdriver, rfl, rfl, if_pos hdriver⟩

theorem receive_accepted (hlaid : Laid pkt) (hroom : HEADER_SIZE ≤ pkt.responseMax.toNat) (h : Accepts s.mem pkt) :
    hostPacketReceive status env pkt s = hostCommandReceived status env (accepted pkt s) := by
  rw [receive_sized hlaid hroom h.driver h.header h.size, if_neg (not_not.mpr h.version),
    if_neg (Nat.not_lt_of_le h.data), if_neg (not_not.mpr h.sum)]

/-! ## What is passed on -/

/-- The request data that a handler is given, once the response buffer has been cleared. -/
def seen (s : State) : List UInt8 := Memory.read (clearResponse s).mem s.args0.params s.args0.paramsSize.toNat

theorem seen_accepted (hlaid : Laid pkt) (hroom : HEADER_SIZE ≤ pkt.responseMax.toNat) (h : Accepts s.mem pkt) :
    seen (accepted pkt s) =
      Memory.read s.mem (pkt.request + HEADER_SIZE) (dataLen s.mem pkt.request).toNat := by
  have hsize : pkt.requestSize.toNat ≤ pkt.requestMax.toNat := h.size
  have hdata := h.data
  have hmax : (pkt.responseMax - BitVec.ofNat 16 HEADER_SIZE).toNat = pkt.responseMax.toNat - HEADER_SIZE :=
    BitVec.toNat_sub_of_le hroom
  apply List.map_congr_left
  intro i hi
  have hlt : i < (dataLen s.mem pkt.request).toNat := List.mem_range.mp hi
  -- the response buffer is not where the data is
  have hapart : pkt.response + HEADER_SIZE + (pkt.responseMax.toNat - HEADER_SIZE) ≤ base pkt + HEADER_SIZE + i ∨
      base pkt + HEADER_SIZE + i < pkt.response + HEADER_SIZE := by
    cases ht : pkt.requestTemp with
    | none =>
      have hbase : base pkt = pkt.request := congrArg (Option.getD · pkt.request) ht
      have hshared := hlaid.shared ht
      omega
    | some t =>
      have hbase : base pkt = t := congrArg (Option.getD · pkt.request) ht
      have htemp := (hlaid.temp t ht).2
      omega
  have hcell : taken s.mem pkt (HEADER_SIZE + (dataLen s.mem pkt.request).toNat) (base pkt + (HEADER_SIZE + i)) =
      s.mem (pkt.request + (HEADER_SIZE + i)) := taken_cell (by omega)
  rw [Nat.add_assoc pkt.request, ← hcell, ← Nat.add_assoc (base pkt)]
  simp only [clearResponse, accepted, fill, hmax]
  rcases hapart with hbelow | habove
  · exact copy_of_ge hbelow
  · exact copy_of_lt habove

theorem send_received : (hostSendResponse status env s).received = s.received := by
  unfold hostSendResponse
  split
  · split
    · rfl
    · split <;> rfl
  · rfl

theorem process_received : (hostCommandProcess env s).received = s.received := by
  unfold hostCommandProcess
  dsimp only
  split
  · rfl
  · split <;> rfl

theorem hostCommandReceived_received (h : hostCommandReceived status env s = some s') :
    s'.received = s.received ++ [s.args0] := by
  unfold hostCommandReceived at h
  dsimp only at h
  split at h
  · cases h
  · split at h
    all_goals
      split at h
      · cases h
        exact send_received
      · split at h
        · cases h
          exact send_received.trans process_received
        · cases h
          rfl

/-- The packet's command is passed on. -/
def Dispatches (status : Bool) (env : Env) (pkt : Packet) (s : State) : Prop :=
  ∃ s₁, s₁.received = s.received ∧ hostPacketReceive status env pkt s = hostCommandReceived status env s₁

theorem dispatches_iff (hlaid : Laid pkt) (hroom : HEADER_SIZE ≤ pkt.responseMax.toNat) :
    Dispatches status env pkt s ↔ Accepts s.mem pkt := by
  constructor
  · rintro ⟨s₁, hreceived, heq⟩
    by_contra hrefused
    obtain ⟨s₂, e, _, hreceived', _, hbad⟩ := receive_refused status env hlaid hroom hrefused
    have hlog := hostCommandReceived_received (heq.symm.trans hbad)
    have hsame : (hostPacketRespond { s₂ with args0 := { s₂.args0 with result := e } }).received = s.received := hreceived'
    rw [hsame, hreceived] at hlog
    exact absurd (congrArg List.length hlog) (by simp)
  · intro h
    exact ⟨accepted pkt s, rfl, receive_accepted hlaid hroom h⟩

/-! ## Responses -/

def resultOf (bytes : List UInt8) : U16 := (bytes.getD 3 0).toBitVec ++ (bytes.getD 2 0).toBitVec

structure WellFormed (x : Sent) : Prop where
  sum : (x.bytes.map UInt8.toNat).sum % 256 = 0
  fits : x.bytes.length ≤ x.packet.responseMax.toNat
  result : resultOf x.bytes = x.packet.driverResult
  noPayload : resultOf x.bytes ≠ 0 → x.bytes.length = HEADER_SIZE

theorem getD_read {i : Nat} (hi : i < n) : (Memory.read m src n).getD i 0 = m (src + i) := by
  simp [Memory.read, List.getD_eq_getElem?_getD, hi]

theorem join_bytes (w : U16) : w.extractLsb' 8 8 ++ w.extractLsb' 0 8 = w := by
  apply BitVec.eq_of_getLsbD_eq
  intro i hi
  rw [BitVec.getLsbD_append]
  by_cases hlow : i < 8
  · simp [hlow]
  · have hback : 8 + (i - 8) = i := by omega
    simp [hlow, hback]
    omega

/-- What is left of the result and the size of a response. -/
def clipped (s : State) : Args :=
  if s.args0.result ≠ 0 then { s.args0 with responseSize := 0 }
  else if s.args0.responseSize.setWidth 32 > s.pkt0.responseMax.setWidth 32 - 8#32 then
    { s.args0 with result := EC_RES_RESPONSE_TOO_BIG, responseSize := 0 }
  else s.args0

theorem clipped_fits (hroom : HEADER_SIZE ≤ s.pkt0.responseMax.toNat) :
    HEADER_SIZE + (clipped s).responseSize.toNat ≤ s.pkt0.responseMax.toNat := by
  unfold clipped
  split
  · exact hroom
  · split
    · exact hroom
    · rename_i hsize
      have hmax : (s.pkt0.responseMax.setWidth 32 - 8#32).toNat = s.pkt0.responseMax.toNat - 8 := by
        have hwide : (s.pkt0.responseMax.setWidth 32).toNat = s.pkt0.responseMax.toNat := by
          rw [BitVec.toNat_setWidth, Nat.mod_eq_of_lt (by omega)]
        rw [BitVec.toNat_sub_of_le, hwide]
        · rfl
        · rw [BitVec.le_def, hwide]
          exact hroom
      have hle : (s.args0.responseSize.setWidth 32).toNat ≤ (s.pkt0.responseMax.setWidth 32 - 8#32).toNat :=
        Nat.le_of_not_lt hsize
      rw [hmax, BitVec.toNat_setWidth, Nat.mod_eq_of_lt (by omega)] at hle
      have hheader : HEADER_SIZE = 8 := rfl
      omega

theorem clipped_empty (h : (clipped s).result ≠ 0) : (clipped s).responseSize = 0 := by
  unfold clipped at h ⊢
  split
  · rfl
  · split
    · rfl
    · rename_i hresult hsize
      rw [if_neg hresult, if_neg hsize] at h
      exact absurd h hresult

/-- The header of a response and the data after it, with no checksum yet. -/
def filled (s : State) : Mem :=
  copy s.mem s.pkt0.response HEADER_SIZE (responseHeader (clipped s).result (clipped s).responseSize)

def responseLength (s : State) : Nat := HEADER_SIZE + (clipped s).responseSize.toNat

def checked (s : State) : Mem :=
  store (filled s) (s.pkt0.response + 1) (-UInt8.ofNat (byteSum (filled s) s.pkt0.response (responseLength s)))

theorem checksumLoops_eq {p : Nat} : checksumLoop m (p + n) k (checksumLoop m p n 0) = byteSum m p (n + k) := by
  rw [checksumLoop_eq, checksumLoop_eq, Nat.zero_add, byteSum_add]

theorem responseSize_toNat (hroom : HEADER_SIZE ≤ s.pkt0.responseMax.toNat) :
    (BitVec.ofNat 16 HEADER_SIZE + (clipped s).responseSize).toNat = responseLength s := by
  have hfits := clipped_fits hroom
  rw [BitVec.toNat_add, BitVec.toNat_ofNat, Nat.mod_eq_of_lt (a := HEADER_SIZE) (by decide), Nat.mod_eq_of_lt (by omega)]
  rfl

/-- What `host_packet_respond` hands to the driver. -/
def response (s : State) : Sent :=
  ⟨{ s.pkt0 with
      responseSize := BitVec.ofNat 16 HEADER_SIZE + (clipped s).responseSize, driverResult := (clipped s).result },
    Memory.read (checked s) s.pkt0.response (responseLength s)⟩

theorem respond_sent (hroom : HEADER_SIZE ≤ s.pkt0.responseMax.toNat) :
    (hostPacketRespond s).sent = s.sent ++ [response s] := by
  rw [response, checked, responseLength, ← checksumLoops_eq, ← responseLength, ← responseSize_toNat hroom]
  rfl

theorem checked_header {i : Nat} (hi : i < HEADER_SIZE) (hne : i ≠ 1) :
    checked s (s.pkt0.response + i) = responseHeader (clipped s).result (clipped s).responseSize i := by
  rw [checked, store_of_ne (by omega), filled, copy_inside hi]

theorem resultOf_response : resultOf (response s).bytes = (clipped s).result := by
  have hshort : HEADER_SIZE ≤ responseLength s := Nat.le_add_right _ _
  have hheader : HEADER_SIZE = 8 := rfl
  rw [resultOf, response, getD_read (by omega), getD_read (by omega), checked_header (by omega) (by omega),
    checked_header (by omega) (by omega)]
  exact join_bytes (clipped s).result

/-- Every response is well formed, whatever the handler's result and the size it left. -/
theorem response_wellFormed (hroom : HEADER_SIZE ≤ s.pkt0.responseMax.toNat) : WellFormed (response s) where
  sum := by
    have hin : s.pkt0.response + 1 < s.pkt0.response + responseLength s := by
      have hheader : HEADER_SIZE = 8 := rfl
      unfold responseLength
      omega
    have hzero : filled s (s.pkt0.response + 1) = 0 := copy_inside (by decide)
    exact byteSum_sealed (Nat.le_add_right _ _) hin hzero
  fits := length_read.trans_le (clipped_fits hroom)
  result := resultOf_response
  noPayload herror := by
    rw [resultOf_response] at herror
    have hempty := clipped_empty herror
    rw [response, length_read, responseLength, hempty]
    rfl

/-! ## Runs -/

/-- What was sent is well formed, and what is sent next will be. -/
structure Ready (s : State) : Prop where
  sent : ∀ x ∈ s.sent, WellFormed x
  room : HEADER_SIZE ≤ s.pkt0.responseMax.toNat

theorem Ready.respond (h : Ready s) : Ready (hostPacketRespond s) := by
  refine ⟨?_, h.room⟩
  rw [respond_sent h.room]
  intro x hx
  rcases List.mem_append.mp hx with hold | hnew
  · exact h.sent x hold
  · rw [List.mem_singleton.mp hnew]
    exact response_wellFormed h.room

theorem Ready.send (h : Ready s) : Ready (hostSendResponse status env s) := by
  unfold hostSendResponse
  split
  · split
    · exact ⟨h.sent, h.room⟩
    · split
      · exact Ready.respond ⟨h.sent, h.room⟩
      · exact h.respond
  · exact h.respond

theorem Ready.process (h : Ready s) : Ready (hostCommandProcess env s) := by
  unfold hostCommandProcess
  dsimp only
  split
  · exact ⟨h.sent, h.room⟩
  · split
    all_goals exact ⟨h.sent, h.room⟩

theorem Ready.bad {e : U16} (h : Ready s) (hbad : hostPacketBad s e = some s') : Ready s' := by
  cases hbad
  exact Ready.respond ⟨h.sent, h.room⟩

theorem Ready.received (h : Ready s) (hpass : hostCommandReceived status env s = some s') : Ready s' := by
  unfold hostCommandReceived at hpass
  dsimp only at hpass
  split at hpass
  · cases hpass
  · split at hpass
    all_goals
      split at hpass
      · cases hpass
        exact Ready.send ⟨h.sent, h.room⟩
      · split at hpass
        · cases hpass
          exact Ready.send (Ready.process ⟨h.sent, h.room⟩)
        · cases hpass
          exact ⟨h.sent, h.room⟩

theorem Ready.receive (hsent : ∀ x ∈ s.sent, WellFormed x) (hroom : HEADER_SIZE ≤ pkt.responseMax.toNat)
    (hreceive : hostPacketReceive status env pkt s = some s') : Ready s' := by
  unfold hostPacketReceive at hreceive
  dsimp only at hreceive
  have hready : ∀ m args, Ready { s with pkt0 := pkt, mem := m, args0 := args } := fun _ _ => ⟨hsent, hroom⟩
  split at hreceive
  · exact (hready s.mem s.args0).bad hreceive
  · split at hreceive
    · exact (hready s.mem s.args0).bad hreceive
    · split at hreceive
      · exact (hready s.mem s.args0).bad hreceive
      · split at hreceive
        · cases hreceive
        · split at hreceive
          · exact (hready _ s.args0).bad hreceive
          · split at hreceive
            · exact (hready _ s.args0).bad hreceive
            · split at hreceive
              · exact (hready _ _).bad hreceive
              · exact (hready _ _).received hreceive

/-- A driver hands over a packet whose response buffer has room for a header: "If it's not we
can't even return an error packet". -/
def Roomy (x : State × Action) : Prop :=
  match x.2 with
  | .receive _ _ pkt => HEADER_SIZE ≤ pkt.responseMax.toNat
  | .task _ => True

/-- What holds between two steps: the task only has something to do after a packet. -/
structure Sound (s : State) : Prop where
  sent : ∀ x ∈ s.sent, WellFormed x
  room : s.pendingArgs = true → HEADER_SIZE ≤ s.pkt0.responseMax.toNat

theorem step_sound (s : State) (a : Action) (s' : State) (h : Sound s) (hroomy : Roomy (s, a))
    (hstep : step status a s = some s') : Sound s' := by
  have hready : Ready s' := by
    cases a with
    | receive env mem pkt => exact Ready.receive (s := { s with mem := mem }) h.sent hroomy hstep
    | task env =>
      simp only [step] at hstep
      split at hstep
      · rename_i hpending
        have hidle : Ready { s with pendingArgs := false } := ⟨h.sent, h.room hpending⟩
        rw [← Option.some.inj hstep]
        exact hidle.process.send
      · cases hstep
  exact ⟨hready.sent, fun _ => hready.room⟩

/-- A packet is only passed on if the driver reported no error, it has a header and at most
the size the interface can handle, its version is 3, it is not shorter than it says and it
sums to zero; with a reserved byte of zero it then is passed on, and a handler called is
given the data received, wherever it was copied; other packets are answered with an error.
Every response sent in any run sums to zero, fits its buffer and has no data if it reports an
error. -/
theorem host_packet_framing (status : Bool) :
    (∀ env pkt s, Laid pkt → HEADER_SIZE ≤ pkt.responseMax.toNat →
      (Dispatches status env pkt s → Accepts s.mem pkt) ∧
      (Accepts s.mem pkt → reserved s.mem pkt.request = 0 → Dispatches status env pkt s) ∧
      (Accepts s.mem pkt → hostPacketReceive status env pkt s = hostCommandReceived status env (accepted pkt s) ∧
        (accepted pkt s).args0.paramsSize = dataLen s.mem pkt.request ∧
        seen (accepted pkt s) =
          Memory.read s.mem (pkt.request + HEADER_SIZE) (dataLen s.mem pkt.request).toNat) ∧
      (¬Accepts s.mem pkt → ∃ s₁ e, e ≠ 0 ∧ hostPacketReceive status env pkt s = hostPacketBad s₁ e)) ∧
    ∀ mem l s, Run (step status) (initial mem) l s → (∀ x ∈ l, Roomy x) → ∀ x ∈ s.sent, WellFormed x := by
  refine ⟨fun env pkt s hlaid hroom => ⟨?_, ?_, ?_, ?_⟩, fun mem l s run hroomy => ?_⟩
  · exact (dispatches_iff hlaid hroom).mp
  · exact fun h _ => (dispatches_iff hlaid hroom).mpr h
  · exact fun h => ⟨receive_accepted hlaid hroom h, rfl, seen_accepted hlaid hroom h⟩
  · intro h
    obtain ⟨s₁, e, he, _, _, hbad⟩ := receive_refused status env hlaid hroom h
    exact ⟨s₁, e, he, hbad⟩
  · have hstart : Sound (initial mem) := ⟨fun _ hx => absurd hx List.not_mem_nil, fun h => Bool.noConfusion h⟩
    exact (run.invariant hstart (fun s a s' => step_sound s a s') hroomy).sent

/-- A request for command 1 without data, in the first bytes of memory. -/
def bare (checksum reserved : UInt8) : Mem
  | 0 => 3
  | 1 => checksum
  | 2 => 1
  | 5 => reserved
  | _ => 0

/-- A packet with its request at 0 and its response at 64. -/
def packetOf (requestTemp : Option Nat) (requestMax requestSize responseMax driverResult : U16) : Packet :=
  ⟨0, requestTemp, requestMax, requestSize, 64, responseMax, 0, driverResult⟩

def noCommands : Env := ⟨false, fun _ => none, false⟩

theorem laid_packetOf : Laid (packetOf none 12 8 16 0) where
  temp _ ht := Option.noConfusion rfl (heq_of_eq ht)
  shared _ := by decide

/-- Command 1 gives back the parameters that it gets. -/
def echo : Env :=
  ⟨false, fun cmd => if cmd = 1 then some ⟨1, fun args m =>
    ⟨0, args.paramsSize, copy m args.response args.paramsSize.toNat fun i => m (args.params + i)⟩⟩ else none, false⟩

/-- A request for command 1 with four bytes of data -/
def echoRequest : Mem := fun i => [3, 238, 1, 0, 0, 0, 4, 0, 1, 2, 3, 4].getD i 0

/-- The request is copied to 32, and the response takes its place. -/
def overlaid : Packet := ⟨0, some 32, 16, 12, 0, 16, 0, 0⟩

theorem host_packet_framing_echo :
    Dispatches true echo overlaid (initial echoRequest) ∧ seen (accepted overlaid (initial echoRequest)) = [1, 2, 3, 4] ∧
      ∃ l s, Run (step true) (initial echoRequest) l s ∧
        l.map Prod.snd = [.receive echo echoRequest overlaid, .task echo] ∧
        s.sent.map Sent.bytes = [[3, 239, 0, 0, 4, 0, 0, 0, 1, 2, 3, 4]] ∧ ∀ x ∈ s.sent, WellFormed x := by
  have hlaid : Laid overlaid := ⟨fun t ht => by cases ht; decide, fun h => by cases h⟩
  have haccepts : Accepts echoRequest overlaid := ⟨by decide, by decide, by decide, by decide, by decide, by decide⟩
  obtain ⟨hpackets, hruns⟩ := host_packet_framing true
  obtain ⟨-, hdispatch, hpassed, -⟩ := hpackets echo overlaid (initial echoRequest) hlaid (by decide)
  have hsome : (trace (step true) [.receive echo echoRequest overlaid, .task echo] ([], initial echoRequest)).any fun r =>
      decide (r.2.sent.map Sent.bytes = [[3, 239, 0, 0, 4, 0, 0, 0, 1, 2, 3, 4]]) := by decide
  obtain ⟨l, s, run, hlabels, hsent⟩ := exists_run hsome
  have hroomy : ∀ x ∈ l, Roomy x := by
    rintro ⟨t, a⟩ hx
    have ha : a ∈ l.map Prod.snd := List.mem_map_of_mem hx
    rw [hlabels, List.mem_cons, List.mem_singleton] at ha
    rcases ha with rfl | rfl
    · exact (by decide : HEADER_SIZE ≤ overlaid.responseMax.toNat)
    · trivial
  exact ⟨hdispatch haccepts (by decide), (hpassed haccepts).2.2, l, s, run, hlabels, hsent,
    hruns echoRequest l s run hroomy⟩

/-- A request with a reserved byte of zero that is as long as it says and sums to zero is
refused if more was received than the interface can handle, one with another reserved byte is
passed on, and a response buffer too small for a header is overrun where the driver reports an
error. -/
theorem framing_checks :
    (structVersion (bare 252 0) 0 = EC_HOST_REQUEST_VERSION ∧ reserved (bare 252 0) 0 = 0 ∧
      HEADER_SIZE + (dataLen (bare 252 0) 0).toNat ≤ 12 ∧
      byteSum (bare 252 0) 0 (HEADER_SIZE + (dataLen (bare 252 0) 0).toNat) % 256 = 0 ∧
      ¬Dispatches true noCommands (packetOf none 12 16 16 0) (initial (bare 252 0))) ∧
    (reserved (bare 251 1) 0 = 1 ∧ Dispatches true noCommands (packetOf none 12 8 16 0) (initial (bare 251 1))) ∧
    (hostPacketReceive true noCommands (packetOf none 12 8 4 1) (initial (bare 252 0))).map
      (fun s => s.sent.map fun x => x.bytes.length) = some [8] := by
  refine ⟨⟨by decide, by decide, by decide, by decide, ?_⟩, ⟨by decide, ?_⟩, by decide⟩
  · have hlaid : Laid (packetOf none 12 16 16 0) :=
      ⟨fun _ ht => Option.noConfusion rfl (heq_of_eq ht), fun _ => by decide⟩
    rw [dispatches_iff hlaid (by decide)]
    exact fun h => absurd h.size (by decide)
  · rw [dispatches_iff laid_packetOf (by decide)]
    exact ⟨by decide, by decide, by decide, by decide, by decide, by decide⟩

end ChromeEc.HostCommand
