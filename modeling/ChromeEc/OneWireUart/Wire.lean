import Mathlib.Algebra.Group.Nat.Defs
import Mathlib.Data.List.Basic

/- The frames of the one-wire link as bytes: the message and its checksum in
  `zephyr/drivers/one_wire_uart/one_wire_uart.c` and
  `zephyr/include/drivers/one_wire_uart_internal.h`.

  A message also has a number here, by which it is told apart from the others of its sender.
  It is not sent: a frame that arrives is given the number of the frame that was sent. The
  checksum of a message is put in its header when it is built and taken out again when it is
  verified, so it is only in the bytes, and `payload_len` is the length of the payload.

  Correspondence (C ↔ Lean):
    `struct one_wire_uart_header`,
    `struct one_wire_uart_message` ↔ `Message`, `Message.layout`
    `msg_len`, `checksum`, `verify_checksum`, `find_header` ↔ the same in camelCase
    `process_rx_fifo`, to the check
    of the sender ↔ `scan` -/
namespace ChromeEc.OneWireUart

def headerMagic : UInt8 := 0xEC
def headerSize : Nat := 5
def maxPayloadSize : Nat := 80

structure Message where
  no : Nat
  sender : Bool
  reset : Bool
  ack : Bool
  msgId : Nat
  payload : List UInt8
  deriving DecidableEq

def msgLen (msg : Message) : Nat := headerSize + msg.payload.length

/-- The four bit fields of the header. -/
def Message.bits (msg : Message) : UInt8 :=
  UInt8.ofNat (msg.sender.toNat + 2 * msg.reset.toNat + 4 * msg.ack.toNat + 8 * (msg.msgId % 32))

def Message.layout (sum : Nat) (msg : Message) : List UInt8 :=
  [headerMagic, UInt8.ofNat msg.payload.length, UInt8.ofNat sum, UInt8.ofNat (sum / 256), msg.bits] ++ msg.payload

/-- The sum of the 16-bit words; a last byte of its own counts as one. -/
def wordSum : List UInt8 → Nat
  | [] => 0
  | [a] => a.toNat
  | a :: b :: rest => a.toNat + 256 * b.toNat + wordSum rest

/-- The carry is added until there is none. -/
def foldCarry : Nat → Nat → Nat
  | 0, sum => sum
  | rounds + 1, sum => if 0xFFFF < sum then foldCarry rounds (sum % 0x10000 + sum / 0x10000) else sum

/-- Two rounds are all that the sum in a `uint32_t` takes (`foldCarry_two`). -/
def checksum (bytes : List UInt8) : Nat := foldCarry 2 (wordSum bytes)

def verifyChecksum (bytes : List UInt8) : Bool :=
  let expected := (bytes.getD 2 0).toNat + 256 * (bytes.getD 3 0).toNat
  checksum ((bytes.set 2 0).set 3 0) == expected

def Message.frame (msg : Message) : List UInt8 := msg.layout (checksum (msg.layout 0))

def findHeader (ring : List UInt8) : List UInt8 := ring.dropWhile (· != headerMagic)

/-- What the bytes from a header on are. -/
inductive Scan where
  | incomplete
  | bad
  | packet (msg : Message)
  deriving DecidableEq

/-- The message in the bytes of a frame. -/
def parse (no : Nat) (bytes : List UInt8) : Message :=
  let bits := (bytes.getD 4 0).toNat
  { no := no, sender := bits % 2 == 1, reset := bits / 2 % 2 == 1, ack := bits / 4 % 2 == 1, msgId := bits / 8,
    payload := bytes.drop headerSize }

def scan (no : Nat) (ring : List UInt8) : Scan :=
  let payloadLen := (ring.getD 1 0).toNat
  if ring.length < headerSize then .incomplete
  else if maxPayloadSize < payloadLen then .bad
  else if ring.length < headerSize + payloadLen then .incomplete
  else if verifyChecksum (ring.take (headerSize + payloadLen)) then
    .packet (parse no (ring.take (headerSize + payloadLen)))
  else .bad

/-! ## The checksum -/

theorem wordSum_lt {bytes : List UInt8} : wordSum bytes < 0x10000 * (bytes.length + 1) := by
  induction bytes using wordSum.induct with
  | case1 => simp [wordSum]
  | case2 a =>
    have ha := a.toNat_lt
    simp only [wordSum, List.length_singleton]
    omega
  | case3 a b rest ih =>
    have ha := a.toNat_lt
    have hb := b.toNat_lt
    simp only [wordSum, List.length_cons] at ih ⊢
    omega

theorem foldCarry_two {sum : Nat} (h : sum < 2 ^ 32) : foldCarry 2 sum ≤ 0xFFFF := by
  simp only [foldCarry]
  split
  · split
    · omega
    · omega
  · omega

theorem checksum_le {bytes : List UInt8} (h : bytes.length ≤ headerSize + maxPayloadSize + 1) :
    checksum bytes ≤ 0xFFFF := by
  have hlt : wordSum bytes < 0x10000 * (bytes.length + 1) := wordSum_lt
  have hsize : headerSize + maxPayloadSize + 1 = 86 := rfl
  exact foldCarry_two (Nat.lt_of_lt_of_le hlt (by omega))

/-! ## Frames read back -/

variable {msg : Message} {sum no : Nat} {rest : List UInt8}

@[simp] theorem length_layout : (msg.layout sum).length = msgLen msg := by
  simp [Message.layout, msgLen, headerSize]
  omega

@[simp] theorem length_frame : msg.frame.length = msgLen msg := length_layout

theorem verifyChecksum_frame (h : msg.payload.length ≤ maxPayloadSize + 1) : verifyChecksum msg.frame = true := by
  have hle : checksum (msg.layout 0) ≤ 0xFFFF := checksum_le (by simp [msgLen]; omega)
  have hzero : (msg.frame.set 2 0).set 3 0 = msg.layout 0 := rfl
  have hlow : msg.frame.getD 2 0 = UInt8.ofNat (checksum (msg.layout 0)) := rfl
  have hhigh : msg.frame.getD 3 0 = UInt8.ofNat (checksum (msg.layout 0) / 256) := rfl
  simp only [verifyChecksum, hzero, hlow, hhigh, UInt8.toNat_ofNat', beq_iff_eq]
  omega

theorem bits_toNat (h : msg.msgId < 32) :
    msg.bits.toNat = msg.sender.toNat + 2 * msg.reset.toNat + 4 * msg.ack.toNat + 8 * msg.msgId := by
  have hsender := msg.sender.toNat_lt
  have hreset := msg.reset.toNat_lt
  have hack := msg.ack.toNat_lt
  rw [Message.bits, UInt8.toNat_ofNat', Nat.mod_eq_of_lt h, Nat.mod_eq_of_lt]
  omega

theorem parse_frame (h : msg.msgId < 32) : parse msg.no msg.frame = msg := by
  have hbits : msg.frame.getD 4 0 = msg.bits := rfl
  have hpayload : msg.frame.drop headerSize = msg.payload := rfl
  simp only [parse, hbits, hpayload, bits_toNat h]
  obtain ⟨n, sender, reset, ack, id, payload⟩ := msg
  cases sender <;> cases reset <;> cases ack <;> simp <;> omega

theorem scan_frame (hlen : msg.payload.length ≤ maxPayloadSize) (hid : msg.msgId < 32) :
    scan msg.no (msg.frame ++ rest) = .packet msg := by
  have hcount : ((msg.frame ++ rest).getD 1 0).toNat = msg.payload.length := by
    show (UInt8.ofNat msg.payload.length).toNat = msg.payload.length
    have hsize : maxPayloadSize = 80 := rfl
    rw [UInt8.toNat_ofNat']
    omega
  have htake : (msg.frame ++ rest).take (headerSize + msg.payload.length) = msg.frame := by
    rw [← msgLen, ← length_frame, List.take_left]
  have hwhole : headerSize + msg.payload.length ≤ (msg.frame ++ rest).length := by simp [msgLen]
  simp only [scan, hcount, htake, verifyChecksum_frame (Nat.le_succ_of_le hlen), parse_frame hid]
  rw [if_neg (by omega), if_neg (by omega), if_neg (by omega), if_pos trivial]

end ChromeEc.OneWireUart
