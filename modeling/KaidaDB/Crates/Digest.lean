import Mathlib.Algebra.Group.Nat.Defs
import Mathlib.Data.List.Basic

/-!
# SHA-256 and CRC-32

The digests of the `sha2` and `crc32fast` crates as published: SHA-256 on 32-bit words kept as
`Nat` below `2 ^ 32`, CRC-32 bit by bit with the reflected polynomial. Theorems about the store
take these functions as parameters; the definitions here are what runs on concrete contents use.
-/

namespace KaidaDB.Digest

/-! ## SHA-256 -/

/-- Addition of words. -/
def add32 (a b : Nat) : Nat := (a + b) % 2 ^ 32

def rotr (n x : Nat) : Nat := (x >>> n) ||| (x <<< (32 - n)) % 2 ^ 32

def not32 (x : Nat) : Nat := 2 ^ 32 - 1 - x

def ch (x y z : Nat) : Nat := (x &&& y) ^^^ (not32 x &&& z)

def maj (x y z : Nat) : Nat := (x &&& y) ^^^ (x &&& z) ^^^ (y &&& z)

def bigSigma0 (x : Nat) : Nat := rotr 2 x ^^^ rotr 13 x ^^^ rotr 22 x

def bigSigma1 (x : Nat) : Nat := rotr 6 x ^^^ rotr 11 x ^^^ rotr 25 x

def smallSigma0 (x : Nat) : Nat := rotr 7 x ^^^ rotr 18 x ^^^ x >>> 3

def smallSigma1 (x : Nat) : Nat := rotr 17 x ^^^ rotr 19 x ^^^ x >>> 10

/-- The round constants. -/
def roundConstants : List Nat := [
  0x428a2f98, 0x71374491, 0xb5c0fbcf, 0xe9b5dba5, 0x3956c25b, 0x59f111f1, 0x923f82a4, 0xab1c5ed5,
  0xd807aa98, 0x12835b01, 0x243185be, 0x550c7dc3, 0x72be5d74, 0x80deb1fe, 0x9bdc06a7, 0xc19bf174,
  0xe49b69c1, 0xefbe4786, 0x0fc19dc6, 0x240ca1cc, 0x2de92c6f, 0x4a7484aa, 0x5cb0a9dc, 0x76f988da,
  0x983e5152, 0xa831c66d, 0xb00327c8, 0xbf597fc7, 0xc6e00bf3, 0xd5a79147, 0x06ca6351, 0x14292967,
  0x27b70a85, 0x2e1b2138, 0x4d2c6dfc, 0x53380d13, 0x650a7354, 0x766a0abb, 0x81c2c92e, 0x92722c85,
  0xa2bfe8a1, 0xa81a664b, 0xc24b8b70, 0xc76c51a3, 0xd192e819, 0xd6990624, 0xf40e3585, 0x106aa070,
  0x19a4c116, 0x1e376c08, 0x2748774c, 0x34b0bcb5, 0x391c0cb3, 0x4ed8aa4a, 0x5b9cca4f, 0x682e6ff3,
  0x748f82ee, 0x78a5636f, 0x84c87814, 0x8cc70208, 0x90befffa, 0xa4506ceb, 0xbef9a3f7, 0xc67178f2]

/-- The eight working variables. -/
structure Hash where
  a : Nat
  b : Nat
  c : Nat
  d : Nat
  e : Nat
  f : Nat
  g : Nat
  h : Nat

def initialHash : Hash :=
  ⟨0x6a09e667, 0xbb67ae85, 0x3c6ef372, 0xa54ff53a, 0x510e527f, 0x9b05688c, 0x1f83d9ab, 0x5be0cd19⟩

/-- One round with the constant and the schedule word. -/
def round (v : Hash) (kw : Nat) : Hash :=
  let t1 := add32 (add32 v.h (bigSigma1 v.e)) (add32 (ch v.e v.f v.g) kw)
  let t2 := add32 (bigSigma0 v.a) (maj v.a v.b v.c)
  ⟨add32 t1 t2, v.a, v.b, v.c, add32 v.d t1, v.e, v.f, v.g⟩

/-- The next word of the message schedule, from the sixteen before it. -/
def nextWord (w : List Nat) : Nat :=
  add32 (add32 (smallSigma1 (w.getD 14 0)) (w.getD 9 0))
    (add32 (smallSigma0 (w.getD 1 0)) (w.getD 0 0))

/-- The rounds of a block; `w` is the window of the next sixteen schedule words. -/
def rounds : List Nat → List Nat → Hash → Hash
  | k :: ks, x :: w, v => rounds ks (w ++ [nextWord (x :: w)]) (round v (add32 k x))
  | _, _, v => v

/-- The 32-bit big-endian words of a block. -/
def words : List UInt8 → List Nat
  | a :: b :: c :: d :: rest =>
    (((a.toNat * 256 + b.toNat) * 256 + c.toNat) * 256 + d.toNat) :: words rest
  | _ => []

def compress (v : Hash) (block : List UInt8) : Hash :=
  let u := rounds roundConstants (words block) v
  ⟨add32 v.a u.a, add32 v.b u.b, add32 v.c u.c, add32 v.d u.d, add32 v.e u.e, add32 v.f u.f,
    add32 v.g u.g, add32 v.h u.h⟩

/-- The last `n` bytes of a number, big-endian. -/
def bigEndian : Nat → Nat → List UInt8
  | 0, _ => []
  | n + 1, x => bigEndian n (x / 256) ++ [UInt8.ofNat (x % 256)]

/-- The message with its padding, a multiple of 64 bytes. -/
def pad (msg : List UInt8) : List UInt8 :=
  msg ++ 0x80 :: List.replicate ((119 - msg.length % 64) % 64) 0 ++ bigEndian 8 (8 * msg.length)

/-- Compression of the blocks of a padded message. -/
def blocks : Nat → List UInt8 → Hash → Hash
  | 0, _, v => v
  | n + 1, bs, v => blocks n (bs.drop 64) (compress v (bs.take 64))

/-- `Sha256::digest`. -/
def sha256 (msg : List UInt8) : Vector UInt8 32 :=
  let v := blocks (msg.length / 64 + 2 - (if msg.length % 64 < 56 then 1 else 0)) (pad msg)
    initialHash
  Vector.ofFn fun i : Fin 32 =>
    let w := [v.a, v.b, v.c, v.d, v.e, v.f, v.g, v.h].getD (i.val / 4) 0
    UInt8.ofNat (w >>> (8 * (3 - i.val % 4)) % 256)

/-! ## CRC-32 -/

/-- One bit of the reflected division. -/
def crcBit (x : Nat) : Nat := if x % 2 = 1 then x / 2 ^^^ 0xEDB88320 else x / 2

def crcByte (crc : Nat) (b : UInt8) : Nat :=
  crcBit (crcBit (crcBit (crcBit (crcBit (crcBit (crcBit (crcBit (crc ^^^ b.toNat))))))))

/-- `crc32fast::hash`. -/
def crc32 (data : List UInt8) : UInt32 :=
  UInt32.ofNat (not32 (data.foldl crcByte (2 ^ 32 - 1)))

/-- The check value of the CRC-32 standard. -/
example : crc32 [0x31, 0x32, 0x33, 0x34, 0x35, 0x36, 0x37, 0x38, 0x39] = 0xCBF43926 := by
  decide +kernel

end KaidaDB.Digest
