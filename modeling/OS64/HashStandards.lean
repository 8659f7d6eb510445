import Mathlib.Analysis.SpecialFunctions.Pow.Real
import Mathlib.Analysis.SpecialFunctions.Trigonometric.Basic
import Mathlib.NumberTheory.PrimeCounting
import OS64.Chaining
/-!
# HashStandards — the digests of RFC 1321 (MD5) and FIPS 180-4 (SHA-1, SHA-256)

Messages are lists of bytes.  Both standards pad the message to whole blocks of sixty-four bytes, fold a compression
function over the blocks and write out the words of the last chaining value; they differ in the order of the bytes in a
word.  The tables are given as the standards construct them: MD5's from the sine, SHA-256's from the roots of the first
primes.
-/
namespace OS64

open Chaining

/-! ## Padding and byte order -/

namespace HashStandards

def bytesBE (n : Nat) {w : Nat} (x : BitVec w) : List (BitVec 8) :=
  (List.range n).map fun i => x.extractLsb' (8 * (n - 1 - i)) 8

def bytesLE (n : Nat) {w : Nat} (x : BitVec w) : List (BitVec 8) := (List.range n).map fun i => x.extractLsb' (8 * i) 8

def wordBE (b : Vector (BitVec 8) 64) (t : Nat) : BitVec 32 :=
    b[4 * t]! ++ b[4 * t + 1]! ++ b[4 * t + 2]! ++ b[4 * t + 3]!

def wordLE (b : Vector (BitVec 8) 64) (t : Nat) : BitVec 32 :=
    b[4 * t + 3]! ++ b[4 * t + 2]! ++ b[4 * t + 1]! ++ b[4 * t]!

def zeros (n : Nat) : Nat := (119 - n % 64) % 64

/-- The padded message: the bit 1, the zeros and the length in bits as a word of 64 bits. -/
def pad (encode : BitVec 64 → List (BitVec 8)) (m : List (BitVec 8)) : List (BitVec 8) :=
  m ++ (0x80#8 :: List.replicate (zeros m.length) 0#8 ++ encode (BitVec.ofNat 64 (8 * m.length)))

end HashStandards

open HashStandards

/-! ## RFC 1321 -/

namespace Rfc1321

/-- Table `T`: the integer part of `4294967296` times `abs(sin(i))`, with `i` in radians. -/
noncomputable def T (i : Nat) : BitVec 32 := BitVec.ofNat 32 ⌊2 ^ 32 * |Real.sin i|⌋₊

/-- The words A, B, C, D before the first block, their bytes written low-order first in the standard. -/
def init : Vector (BitVec 32) 4 :=
  #v[0x67#8 ++ 0x45#8 ++ 0x23#8 ++ 0x01#8, 0xef#8 ++ 0xcd#8 ++ 0xab#8 ++ 0x89#8,
    0x98#8 ++ 0xba#8 ++ 0xdc#8 ++ 0xfe#8, 0x10#8 ++ 0x32#8 ++ 0x54#8 ++ 0x76#8]

/-- The auxiliary function of the round that operation `i` belongs to. -/
def aux (i : Nat) (x y z : BitVec 32) : BitVec 32 :=
  match i / 16 with
  | 0 => (x &&& y) ||| (~~~x &&& z)
  | 1 => (x &&& z) ||| (y &&& ~~~z)
  | 2 => x ^^^ y ^^^ z
  | _ => y ^^^ (x ||| ~~~z)

def k (i : Nat) : Nat :=
  match i / 16 with
  | 0 => i % 16
  | 1 => (5 * i + 1) % 16
  | 2 => (3 * i + 5) % 16
  | _ => 7 * i % 16

def s (i : Nat) : Nat :=
  match i / 16 with
  | 0 => [7, 12, 17, 22].getD (i % 4) 0
  | 1 => [5, 9, 14, 20].getD (i % 4) 0
  | 2 => [4, 11, 16, 23].getD (i % 4) 0
  | _ => [6, 10, 15, 21].getD (i % 4) 0

/-- Operation `i`, `a = b + ((a + f(b,c,d) + X[k] + T[i]) <<< s)`.  The standard applies it to ABCD, DABC, CDAB and BCDA
in turn; here the words move instead of the names. -/
noncomputable def operation (X : Nat → BitVec 32) (v : Vector (BitVec 32) 4) (i : Nat) : Vector (BitVec 32) 4 :=
  #v[v[3], v[1] + (v[0] + aux i v[1] v[2] v[3] + X (k i) + T (i + 1)).rotateLeft (s i), v[1], v[2]]

noncomputable def compress (h : Vector (BitVec 32) 4) (b : Vector (BitVec 8) 64) : Vector (BitVec 32) 4 :=
  Vector.zipWith (· + ·) ((List.range 64).foldl (operation (wordLE b)) h) h

noncomputable def digest (m : List (BitVec 8)) : List (BitVec 8) :=
  (chain compress init (pad (bytesLE 8) m)).toList.flatMap (bytesLE 4)

end Rfc1321

/-! ## FIPS 180-4 -/

namespace Fips180

def ch (x y z : BitVec 32) : BitVec 32 := (x &&& y) ^^^ (~~~x &&& z)

def parity (x y z : BitVec 32) : BitVec 32 := x ^^^ y ^^^ z

def maj (x y z : BitVec 32) : BitVec 32 := (x &&& y) ^^^ (x &&& z) ^^^ (y &&& z)

noncomputable def frac32 (x : ℝ) : BitVec 32 := BitVec.ofNat 32 ⌊2 ^ 32 * Int.fract x⌋₊

namespace Sha1

def H0 : Vector (BitVec 32) 5 := #v[0x67452301#32, 0xefcdab89#32, 0x98badcfe#32, 0x10325476#32, 0xc3d2e1f0#32]

def f (t : Nat) : BitVec 32 → BitVec 32 → BitVec 32 → BitVec 32 :=
  if t < 20 then ch else if t < 40 then parity else if t < 60 then maj else parity

def K (t : Nat) : BitVec 32 :=
  if t < 20 then 0x5a827999 else if t < 40 then 0x6ed9eba1 else if t < 60 then 0x8f1bbcdc else 0xca62c1d6

def W (M : Nat → BitVec 32) (t : Nat) : BitVec 32 :=
  if t < 16 then M t else (W M (t - 3) ^^^ W M (t - 8) ^^^ W M (t - 14) ^^^ W M (t - 16)).rotateLeft 1

def round (M : Nat → BitVec 32) (v : Vector (BitVec 32) 5) (t : Nat) : Vector (BitVec 32) 5 :=
  #v[v[0].rotateLeft 5 + f t v[1] v[2] v[3] + v[4] + K t + W M t, v[0], v[1].rotateLeft 30, v[2], v[3]]

def compress (h : Vector (BitVec 32) 5) (b : Vector (BitVec 8) 64) : Vector (BitVec 32) 5 :=
  Vector.zipWith (· + ·) ((List.range 80).foldl (round (wordBE b)) h) h

def digest (m : List (BitVec 8)) : List (BitVec 8) :=
  (chain compress H0 (pad (bytesBE 8) m)).toList.flatMap (bytesBE 4)

end Sha1

namespace Sha256

noncomputable def H0 : Vector (BitVec 32) 8 := Vector.ofFn fun i => frac32 (Real.sqrt (Nat.nth Nat.Prime i))

noncomputable def K (t : Nat) : BitVec 32 := frac32 ((Nat.nth Nat.Prime t : ℝ) ^ (1 / 3 : ℝ))

def sum0 (x : BitVec 32) : BitVec 32 := x.rotateRight 2 ^^^ x.rotateRight 13 ^^^ x.rotateRight 22

def sum1 (x : BitVec 32) : BitVec 32 := x.rotateRight 6 ^^^ x.rotateRight 11 ^^^ x.rotateRight 25

def sigma0 (x : BitVec 32) : BitVec 32 := x.rotateRight 7 ^^^ x.rotateRight 18 ^^^ (x >>> 3)

def sigma1 (x : BitVec 32) : BitVec 32 := x.rotateRight 17 ^^^ x.rotateRight 19 ^^^ (x >>> 10)

def W (M : Nat → BitVec 32) (t : Nat) : BitVec 32 :=
  if t < 16 then M t else sigma1 (W M (t - 2)) + W M (t - 7) + sigma0 (W M (t - 15)) + W M (t - 16)

noncomputable def round (M : Nat → BitVec 32) (v : Vector (BitVec 32) 8) (t : Nat) : Vector (BitVec 32) 8 :=
  let T₁ := v[7] + sum1 v[4] + ch v[4] v[5] v[6] + K t + W M t
  let T₂ := sum0 v[0] + maj v[0] v[1] v[2]
  #v[T₁ + T₂, v[0], v[1], v[2], v[3] + T₁, v[4], v[5], v[6]]

noncomputable def compress (h : Vector (BitVec 32) 8) (b : Vector (BitVec 8) 64) : Vector (BitVec 32) 8 :=
  Vector.zipWith (· + ·) ((List.range 64).foldl (round (wordBE b)) h) h

noncomputable def digest (m : List (BitVec 8)) : List (BitVec 8) :=
  (chain compress H0 (pad (bytesBE 8) m)).toList.flatMap (bytesBE 4)

end Sha256

end Fips180

end OS64
