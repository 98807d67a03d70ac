import ChromeEc.VbootHash.Model

/- SHA-256 as `common/sha256.c` computes it.

  `transform` is one turn of `SHA256_transform`. A context here keeps the bytes it was given
  (`software`), where that of the source keeps the state of the blocks filled so far and the
  bytes after them: both are only looked at by `SHA256_final`.

  Correspondence (C ↔ Lean):
    `CH`, `MAJ`, `SHA256_F1` to `SHA256_F4` ↔ `ch`, `maj`, `f1` to `f4`
    `sha256_h0`, `sha256_k` ↔ `h0`, `k`
    `SHA256_SCR` ↔ `scr`
    the rounds of `SHA256_transform` ↔ `round`
    `SHA256_transform` ↔ `transform`
    the padding of `SHA256_final` ↔ `padded` -/
namespace ChromeEc.VbootHash

def ch (x y z : U32) : U32 := (x &&& y) ^^^ (~~~x &&& z)
def maj (x y z : U32) : U32 := (x &&& y) ^^^ (x &&& z) ^^^ (y &&& z)
def f1 (x : U32) : U32 := x.rotateRight 2 ^^^ x.rotateRight 13 ^^^ x.rotateRight 22
def f2 (x : U32) : U32 := x.rotateRight 6 ^^^ x.rotateRight 11 ^^^ x.rotateRight 25
def f3 (x : U32) : U32 := x.rotateRight 7 ^^^ x.rotateRight 18 ^^^ (x >>> 3)
def f4 (x : U32) : U32 := x.rotateRight 17 ^^^ x.rotateRight 19 ^^^ (x >>> 10)

def h0 : List U32 :=
  [0x6a09e667, 0xbb67ae85, 0x3c6ef372, 0xa54ff53a, 0x510e527f, 0x9b05688c, 0x1f83d9ab, 0x5be0cd19]

def k : List U32 :=
  [0x428a2f98, 0x71374491, 0xb5c0fbcf, 0xe9b5dba5, 0x3956c25b, 0x59f111f1, 0x923f82a4, 0xab1c5ed5,
   0xd807aa98, 0x12835b01, 0x243185be, 0x550c7dc3, 0x72be5d74, 0x80deb1fe, 0x9bdc06a7, 0xc19bf174,
   0xe49b69c1, 0xefbe4786, 0x0fc19dc6, 0x240ca1cc, 0x2de92c6f, 0x4a7484aa, 0x5cb0a9dc, 0x76f988da,
   0x983e5152, 0xa831c66d, 0xb00327c8, 0xbf597fc7, 0xc6e00bf3, 0xd5a79147, 0x06ca6351, 0x14292967,
   0x27b70a85, 0x2e1b2138, 0x4d2c6dfc, 0x53380d13, 0x650a7354, 0x766a0abb, 0x81c2c92e, 0x92722c85,
   0xa2bfe8a1, 0xa81a664b, 0xc24b8b70, 0xc76c51a3, 0xd192e819, 0xd6990624, 0xf40e3585, 0x106aa070,
   0x19a4c116, 0x1e376c08, 0x2748774c, 0x34b0bcb5, 0x391c0cb3, 0x4ed8aa4a, 0x5b9cca4f, 0x682e6ff3,
   0x748f82ee, 0x78a5636f, 0x84c87814, 0x8cc70208, 0x90befffa, 0xa4506ceb, 0xbef9a3f7, 0xc67178f2]

/-- `PACK32`: the big-endian words of a block. -/
def pack32 : List UInt8 → List U32
  | a :: b :: c :: d :: rest => (a.toBitVec ++ b.toBitVec ++ c.toBitVec ++ d.toBitVec) :: pack32 rest
  | _ => []

def unpack32 (x : U32) : List UInt8 :=
  [.ofBitVec (x.extractLsb' 24 8), .ofBitVec (x.extractLsb' 16 8), .ofBitVec (x.extractLsb' 8 8),
    .ofBitVec (x.extractLsb' 0 8)]

/-- `SHA256_SCR`, on the words so far, the last one first. -/
def scr (w : List U32) : List U32 := (f4 (w.getD 1 0) + w.getD 6 0 + f3 (w.getD 14 0) + w.getD 15 0) :: w

def round (wv : List U32) (kw : U32 × U32) : List U32 :=
  match wv with
  | [a, b, c, d, e, f, g, h] =>
    let t1 := h + f2 e + ch e f g + kw.1 + kw.2
    let t2 := f1 a + maj a b c
    [t1 + t2, a, b, c, d + t1, e, f, g]
  | _ => wv

def transform (h : List U32) (block : List UInt8) : List U32 :=
  let w := (Nat.repeat scr 48 (pack32 block).reverse).reverse
  List.zipWith (· + ·) h ((k.zip w).foldl round h)

/-- The message with the padding that `SHA256_final` adds. -/
def padded (message : List UInt8) : List UInt8 :=
  let zeros := (64 - (message.length + 9) % 64) % 64 + 4
  message ++ [0x80] ++ List.replicate zeros 0 ++ unpack32 (BitVec.ofNat 32 (8 * message.length))

/-- The blocks of a padded message through `SHA256_transform`. -/
def blocks : Nat → List UInt8 → List U32 → List U32
  | 0, _, h => h
  | n + 1, bytes, h => blocks n (bytes.drop 64) (transform h (bytes.take 64))

def digestOf (message : List UInt8) : List UInt8 :=
  let bytes := padded message
  (blocks (bytes.length / 64) bytes h0).flatMap unpack32

/-- The context keeps the message, and the digest once it is finished. -/
def software : Sha256 where
  Ctx := List UInt8 × List UInt8
  init := ([], [])
  update ctx bytes := (ctx.1 ++ bytes, ctx.2)
  final ctx := (ctx.1, digestOf ctx.1)
  buf ctx := ctx.2
  sha256 := digestOf
  correct parts := by
    have hkept : ∀ (parts : List (List UInt8)) (ctx : List UInt8 × List UInt8),
        (parts.foldl (fun ctx bytes => (ctx.1 ++ bytes, ctx.2)) ctx).1 = ctx.1 ++ parts.flatten := by
      intro parts
      induction parts with
      | nil => exact fun ctx => (List.append_nil ctx.1).symm
      | cons bytes rest ih =>
        intro ctx
        rw [List.foldl_cons, ih, List.flatten_cons, List.append_assoc]
    exact congrArg digestOf (hkept parts ([], []))

example : digestOf [] = [0xe3, 0xb0, 0xc4, 0x42, 0x98, 0xfc, 0x1c, 0x14, 0x9a, 0xfb, 0xf4, 0xc8, 0x99, 0x6f, 0xb9, 0x24,
    0x27, 0xae, 0x41, 0xe4, 0x64, 0x9b, 0x93, 0x4c, 0xa4, 0x95, 0x99, 0x1b, 0x78, 0x52, 0xb8, 0x55] := by decide +kernel

end ChromeEc.VbootHash
