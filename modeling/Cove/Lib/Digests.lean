import Mathlib.Algebra.Ring.Nat
import Mathlib.Data.List.Basic
import Mathlib.Data.Nat.Bitwise

/-!
# Checksums and digests

- `Crc32c.crc32c`: the Castagnoli checksum of a byte string, bit by bit, with the reflected
  polynomial `0x82F63B78` and all ones before and after; `crc32c_lt`: it has 32 bits.
- `Sha256.digest`: the digest of a list of bytes, on 32-bit words held as numbers, as the big-endian
  number of its bytes: `pad` and `words` give the padded message as big-endian words, `compress` the
  64 rounds of one block.
-/

/-! ## CRC-32C -/

namespace Crc32c

/-- One bit of the division. -/
def shiftBit (crc : Nat) : Nat :=
  if crc % 2 = 1 then (crc / 2) ^^^ 0x82F63B78 else crc / 2

/-- One byte of the division. -/
def addByte (crc : Nat) (byte : UInt8) : Nat :=
  shiftBit (shiftBit (shiftBit (shiftBit (shiftBit (shiftBit (shiftBit (shiftBit
    (crc ^^^ byte.toNat))))))))

/-- The checksum of a byte string. -/
def crc32c (bytes : List UInt8) : Nat := bytes.foldl addByte 0xFFFFFFFF ^^^ 0xFFFFFFFF

example : crc32c [49, 50, 51, 52, 53, 54, 55, 56, 57] = 0xE3069283 := by decide +kernel

theorem shiftBit_lt {crc : Nat} (h : crc < 2 ^ 32) : shiftBit crc < 2 ^ 32 := by
  unfold shiftBit
  have hhalf : crc / 2 < 2 ^ 32 := by omega
  split
  · exact Nat.xor_lt_two_pow hhalf (by decide)
  · exact hhalf

theorem addByte_lt {crc : Nat} (h : crc < 2 ^ 32) (byte : UInt8) : addByte crc byte < 2 ^ 32 := by
  have hbyte : byte.toNat < 2 ^ 32 := Nat.lt_trans byte.toNat_lt (by decide)
  have hxor := Nat.xor_lt_two_pow h hbyte
  unfold addByte
  exact shiftBit_lt (shiftBit_lt (shiftBit_lt (shiftBit_lt (shiftBit_lt (shiftBit_lt
    (shiftBit_lt (shiftBit_lt hxor)))))))

/-- The checksum has 32 bits. -/
theorem crc32c_lt (bytes : List UInt8) : crc32c bytes < 2 ^ 32 := by
  have hfold : ∀ {crc : Nat}, crc < 2 ^ 32 → bytes.foldl addByte crc < 2 ^ 32 := by
    induction bytes with
    | nil => exact id
    | cons byte bytes ih =>
      intro crc h
      exact ih (addByte_lt h byte)
  exact Nat.xor_lt_two_pow (hfold (by decide)) (by decide)

end Crc32c

/-! ## SHA-256 -/

namespace Sha256

/-- Rotation to the right. -/
def rotr (n x : Nat) : Nat := (x >>> n) ||| (x <<< (32 - n)) % 2 ^ 32

def roundConstants : List Nat := [
  0x428a2f98, 0x71374491, 0xb5c0fbcf, 0xe9b5dba5, 0x3956c25b, 0x59f111f1, 0x923f82a4, 0xab1c5ed5,
  0xd807aa98, 0x12835b01, 0x243185be, 0x550c7dc3, 0x72be5d74, 0x80deb1fe, 0x9bdc06a7, 0xc19bf174,
  0xe49b69c1, 0xefbe4786, 0x0fc19dc6, 0x240ca1cc, 0x2de92c6f, 0x4a7484aa, 0x5cb0a9dc, 0x76f988da,
  0x983e5152, 0xa831c66d, 0xb00327c8, 0xbf597fc7, 0xc6e00bf3, 0xd5a79147, 0x06ca6351, 0x14292967,
  0x27b70a85, 0x2e1b2138, 0x4d2c6dfc, 0x53380d13, 0x650a7354, 0x766a0abb, 0x81c2c92e, 0x92722c85,
  0xa2bfe8a1, 0xa81a664b, 0xc24b8b70, 0xc76c51a3, 0xd192e819, 0xd6990624, 0xf40e3585, 0x106aa070,
  0x19a4c116, 0x1e376c08, 0x2748774c, 0x34b0bcb5, 0x391c0cb3, 0x4ed8aa4a, 0x5b9cca4f, 0x682e6ff3,
  0x748f82ee, 0x78a5636f, 0x84c87814, 0x8cc70208, 0x90befffa, 0xa4506ceb, 0xbef9a3f7, 0xc67178f2]

/-- The eight working words. -/
structure State where
  a : Nat
  b : Nat
  c : Nat
  d : Nat
  e : Nat
  f : Nat
  g : Nat
  h : Nat
  deriving DecidableEq

def initial : State :=
  ⟨0x6a09e667, 0xbb67ae85, 0x3c6ef372, 0xa54ff53a, 0x510e527f, 0x9b05688c, 0x1f83d9ab, 0x5be0cd19⟩

/-- One round, with its constant and message word. -/
def round (s : State) (k w : Nat) : State :=
  let s1 := rotr 6 s.e ^^^ rotr 11 s.e ^^^ rotr 25 s.e
  let ch := (s.e &&& s.f) ^^^ ((2 ^ 32 - 1 - s.e) &&& s.g)
  let t1 := s.h + s1 + ch + k + w
  let s0 := rotr 2 s.a ^^^ rotr 13 s.a ^^^ rotr 22 s.a
  let maj := (s.a &&& s.b) ^^^ (s.a &&& s.c) ^^^ (s.b &&& s.c)
  ⟨(t1 + s0 + maj) % 2 ^ 32, s.a, s.b, s.c, (s.d + t1) % 2 ^ 32, s.e, s.f, s.g⟩

/-- The message word after a window of sixteen. -/
def nextWord (window : List Nat) : Nat :=
  let w15 := window.getD 1 0
  let w2 := window.getD 14 0
  let s0 := rotr 7 w15 ^^^ rotr 18 w15 ^^^ w15 >>> 3
  let s1 := rotr 17 w2 ^^^ rotr 19 w2 ^^^ w2 >>> 10
  (window.headD 0 + s0 + window.getD 9 0 + s1) % 2 ^ 32

/-- The rounds, over the window of the next sixteen message words. -/
def rounds : List Nat → List Nat → State → State
  | k :: ks, window, s => rounds ks (window.tail ++ [nextWord window]) (round s k (window.headD 0))
  | [], _, s => s

/-- The rounds of one block. -/
def compress (s : State) (block : List Nat) : State :=
  let r := rounds roundConstants block s
  ⟨(s.a + r.a) % 2 ^ 32, (s.b + r.b) % 2 ^ 32, (s.c + r.c) % 2 ^ 32, (s.d + r.d) % 2 ^ 32,
    (s.e + r.e) % 2 ^ 32, (s.f + r.f) % 2 ^ 32, (s.g + r.g) % 2 ^ 32, (s.h + r.h) % 2 ^ 32⟩

/-- The big-endian bytes of a length in bits. -/
def lengthBytes : Nat → Nat → List Nat
  | 0, _ => []
  | width + 1, n => lengthBytes width (n / 256) ++ [n % 256]

/-- The message with its padding: a multiple of 64 bytes. -/
def pad (bytes : List Nat) : List Nat :=
  bytes ++ 0x80 :: List.replicate ((119 - bytes.length % 64) % 64) 0 ++
    lengthBytes 8 (8 * bytes.length)

/-- Big-endian words. -/
def words : List Nat → List Nat
  | a :: b :: c :: d :: rest => (((a * 256 + b) * 256 + c) * 256 + d) :: words rest
  | _ => []

/-- The blocks of a message, `count` of them. -/
def compressAll : Nat → List Nat → State → State
  | 0, _, s => s
  | count + 1, ws, s => compressAll count (ws.drop 16) (compress s (ws.take 16))

instance neZeroDigest : NeZero (2 ^ 256) := ⟨Nat.ne_of_gt (Nat.two_pow_pos 256)⟩

/-- The digest. -/
def digest (bytes : List UInt8) : Fin (2 ^ 256) :=
  let ws := words (pad (bytes.map UInt8.toNat))
  let s := compressAll (ws.length / 16) ws initial
  Fin.ofNat _ ([s.a, s.b, s.c, s.d, s.e, s.f, s.g, s.h].foldl (fun n w => n * 2 ^ 32 + w) 0)

end Sha256
