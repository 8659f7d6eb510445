import OS64.Word
/-!
# Hash — MD5, SHA-1 and SHA-256 (`crypto/hash`)

The three contexts differ in the number of state words, and the functions on them in the transform and in the order of
bytes; they are one family here.  `len` of an update is the length of its list of bytes.  The local array `padding` of
the final functions has sixty-four bytes in the source and up to seventy-two are written to it; the list that stands for
it is as long as what is written.
-/
namespace OS64

/-- `crypto_md5_ctx_t`, `crypto_sha1_ctx_t` and `crypto_sha256_ctx_t`, with four, five and eight words. -/
structure HashCtx (n : Nat) where
  state : Vector (BitVec 32) n
  count : Nat
  buffer : Vector (BitVec 8) 64

namespace HashCtx

variable {n : Nat}

def init (words : Vector (BitVec 32) n) (ctx : HashCtx n) : HashCtx n := { ctx with state := words, count := 0 }

def byte (transform : Vector (BitVec 32) n → Vector (BitVec 8) 64 → Vector (BitVec 32) n) (ctx : HashCtx n)
    (b : BitVec 8) : HashCtx n :=
  let ctx := { ctx with
    buffer := ctx.buffer.set (ctx.count % 64) b (Nat.mod_lt _ (by decide))
    count := u64 (ctx.count + 1) }
  if ctx.count % 64 = 0 then { ctx with state := transform ctx.state ctx.buffer } else ctx

def update (transform : Vector (BitVec 32) n → Vector (BitVec 8) 64 → Vector (BitVec 32) n) (ctx : HashCtx n)
    (data : List (BitVec 8)) : HashCtx n :=
  data.foldl (byte transform) ctx

def padLen (ctx : HashCtx n) : Nat :=
  let len := 64 - ctx.count % 64
  if len < 9 then len + 64 else len

/-- The array `padding`, whose last eight bytes are those of `bit_len`. -/
def padding (lengthByte : Nat → Nat → BitVec 8) (ctx : HashCtx n) : List (BitVec 8) :=
  let bitLen := u64 (ctx.count * 8)
  (List.range 8).foldl (fun p i => p.set (ctx.padLen - 8 + i) (lengthByte bitLen i))
    (0x80#8 :: List.replicate (ctx.padLen - 1) 0#8)

def final (transform : Vector (BitVec 32) n → Vector (BitVec 8) 64 → Vector (BitVec 32) n)
    (lengthByte : Nat → Nat → BitVec 8) (wordBytes : BitVec 32 → List (BitVec 8)) (ctx : HashCtx n) :
    HashCtx n × List (BitVec 8) :=
  let ctx := ctx.update transform (ctx.padding lengthByte)
  (ctx, ctx.state.toList.flatMap wordBytes)

end HashCtx

def cryptoRotl32 (x : BitVec 32) (n : Nat) : BitVec 32 := (x <<< n) ||| (x >>> (32 - n))

def cryptoRotr32 (x : BitVec 32) (n : Nat) : BitVec 32 := (x >>> n) ||| (x <<< (32 - n))

def unpackBE (block : Vector (BitVec 8) 64) (i : Nat) : BitVec 32 :=
  (block[i * 4]!.setWidth 32 <<< 24) ||| (block[i * 4 + 1]!.setWidth 32 <<< 16) |||
    (block[i * 4 + 2]!.setWidth 32 <<< 8) ||| block[i * 4 + 3]!.setWidth 32

def unpackLE (block : Vector (BitVec 8) 64) (i : Nat) : BitVec 32 :=
  block[i * 4]!.setWidth 32 ||| (block[i * 4 + 1]!.setWidth 32 <<< 8) |||
    (block[i * 4 + 2]!.setWidth 32 <<< 16) ||| (block[i * 4 + 3]!.setWidth 32 <<< 24)

def lengthByteBE (bitLen i : Nat) : BitVec 8 := BitVec.ofNat 8 ((bitLen >>> (56 - i * 8)) &&& 0xFF)

def wordBytesBE (x : BitVec 32) : List (BitVec 8) :=
  [((x >>> 24) &&& 0xFF#32).setWidth 8, ((x >>> 16) &&& 0xFF#32).setWidth 8, ((x >>> 8) &&& 0xFF#32).setWidth 8,
    (x &&& 0xFF#32).setWidth 8]

def lengthByteLE (bitLen i : Nat) : BitVec 8 := BitVec.ofNat 8 ((bitLen >>> (i * 8)) &&& 0xFF)

def wordBytesLE (x : BitVec 32) : List (BitVec 8) :=
  [((x >>> 0) &&& 0xFF#32).setWidth 8, ((x >>> 8) &&& 0xFF#32).setWidth 8, ((x >>> 16) &&& 0xFF#32).setWidth 8,
    ((x >>> 24) &&& 0xFF#32).setWidth 8]

/-! ## MD5 -/

def md5Init : Vector (BitVec 32) 4 := #v[0x67452301, 0xefcdab89, 0x98badcfe, 0x10325476]

def md5K : List (BitVec 32) :=
  [ 0xd76aa478, 0xe8c7b756, 0x242070db, 0xc1bdceee, 0xf57c0faf, 0x4787c62a, 0xa8304613, 0xfd469501,
    0x698098d8, 0x8b44f7af, 0xffff5bb1, 0x895cd7be, 0x6b901122, 0xfd987193, 0xa679438e, 0x49b40821,
    0xf61e2562, 0xc040b340, 0x265e5a51, 0xe9b6c7aa, 0xd62f105d, 0x02441453, 0xd8a1e681, 0xe7d3fbc8,
    0x21e1cde6, 0xc33707d6, 0xf4d50d87, 0x455a14ed, 0xa9e3e905, 0xfcefa3f8, 0x676f02d9, 0x8d2a4c8a,
    0xfffa3942, 0x8771f681, 0x6d9d6122, 0xfde5380c, 0xa4beea44, 0x4bdecfa9, 0xf6bb4b60, 0xbebfbc70,
    0x289b7ec6, 0xeaa127fa, 0xd4ef3085, 0x04881d05, 0xd9d4d039, 0xe6db99e5, 0x1fa27cf8, 0xc4ac5665,
    0xf4292244, 0x432aff97, 0xab9423a7, 0xfc93a039, 0x655b59c3, 0x8f0ccc92, 0xffeff47d, 0x85845dd1,
    0x6fa87e4f, 0xfe2ce6e0, 0xa3014314, 0x4e0811a1, 0xf7537e82, 0xbd3af235, 0x2ad7d2bb, 0xeb86d391]

def md5S : List Nat :=
  [ 7, 12, 17, 22, 7, 12, 17, 22, 7, 12, 17, 22, 7, 12, 17, 22,
    5, 9, 14, 20, 5, 9, 14, 20, 5, 9, 14, 20, 5, 9, 14, 20,
    4, 11, 16, 23, 4, 11, 16, 23, 4, 11, 16, 23, 4, 11, 16, 23,
    6, 10, 15, 21, 6, 10, 15, 21, 6, 10, 15, 21, 6, 10, 15, 21]

/-- The names of the working variables of `md5_transform`. -/
inductive Md5Reg where
  | a | b | c | d
  deriving DecidableEq

structure Md5Vars where
  a : BitVec 32
  b : BitVec 32
  c : BitVec 32
  d : BitVec 32

def Md5Vars.get (v : Md5Vars) : Md5Reg → BitVec 32
  | .a => v.a
  | .b => v.b
  | .c => v.c
  | .d => v.d

def Md5Vars.set (v : Md5Vars) (x : BitVec 32) : Md5Reg → Md5Vars
  | .a => { v with a := x }
  | .b => { v with b := x }
  | .c => { v with c := x }
  | .d => { v with d := x }

/-- `MD5_FF`, `MD5_GG`, `MD5_HH` and `MD5_II`. -/
inductive Md5Op where
  | FF | GG | HH | II
  deriving DecidableEq

/-- `MD5_F`, `MD5_G`, `MD5_H` and `MD5_I`, in the lines of these names. -/
def Md5Op.apply (x y z : BitVec 32) : Md5Op → BitVec 32
  | FF => (x &&& y) ||| (~~~x &&& z)
  | GG => (x &&& z) ||| (y &&& ~~~z)
  | HH => x ^^^ y ^^^ z
  | II => y ^^^ (x ||| ~~~z)

/-- A line of `md5_transform`: the operation, its four variables and the indices into `x`, `MD5_S` and `MD5_K`. -/
structure Md5Line where
  op : Md5Op
  a : Md5Reg
  b : Md5Reg
  c : Md5Reg
  d : Md5Reg
  x : Nat
  s : Nat
  k : Nat
  deriving DecidableEq

/-- Four lines, from line `i` on: each has the variables of the line before moved on by one place. -/
def md5Four (op : Md5Op) (x₀ x₁ x₂ x₃ i : Nat) : List Md5Line :=
  [ ⟨op, .a, .b, .c, .d, x₀, i, i⟩, ⟨op, .d, .a, .b, .c, x₁, i + 1, i + 1⟩,
    ⟨op, .c, .d, .a, .b, x₂, i + 2, i + 2⟩, ⟨op, .b, .c, .d, .a, x₃, i + 3, i + 3⟩]

def md5Lines : List Md5Line :=
  md5Four .FF 0 1 2 3 0 ++ md5Four .FF 4 5 6 7 4 ++ md5Four .FF 8 9 10 11 8 ++ md5Four .FF 12 13 14 15 12 ++
    md5Four .GG 1 6 11 0 16 ++ md5Four .GG 5 10 15 4 20 ++ md5Four .GG 9 14 3 8 24 ++ md5Four .GG 13 2 7 12 28 ++
    md5Four .HH 5 8 11 14 32 ++ md5Four .HH 1 4 7 10 36 ++ md5Four .HH 13 0 3 6 40 ++ md5Four .HH 9 12 15 2 44 ++
    md5Four .II 0 7 14 5 48 ++ md5Four .II 12 3 10 1 52 ++ md5Four .II 8 15 6 13 56 ++ md5Four .II 4 11 2 9 60

def md5Line (x : Nat → BitVec 32) (v : Md5Vars) (l : Md5Line) : Md5Vars :=
  let a := v.get l.a + (l.op.apply (v.get l.b) (v.get l.c) (v.get l.d) + x l.x + md5K.getD l.k 0)
  let a := cryptoRotl32 a (md5S.getD l.s 0)
  v.set (a + v.get l.b) l.a

def md5Transform (state : Vector (BitVec 32) 4) (block : Vector (BitVec 8) 64) : Vector (BitVec 32) 4 :=
  let v := md5Lines.foldl (md5Line (unpackLE block)) ⟨state.get 0, state.get 1, state.get 2, state.get 3⟩
  #v[state.get 0 + v.a, state.get 1 + v.b, state.get 2 + v.c, state.get 3 + v.d]

def cryptoMd5Init : HashCtx 4 → HashCtx 4 := HashCtx.init md5Init

def cryptoMd5Update : HashCtx 4 → List (BitVec 8) → HashCtx 4 := HashCtx.update md5Transform

def cryptoMd5Final : HashCtx 4 → HashCtx 4 × List (BitVec 8) := HashCtx.final md5Transform lengthByteLE wordBytesLE

/-! ## SHA-1 -/

def sha1Init : Vector (BitVec 32) 5 := #v[0x67452301, 0xefcdab89, 0x98badcfe, 0x10325476, 0xc3d2e1f0]

def sha1F0 (x y z : BitVec 32) : BitVec 32 := (x &&& y) ||| (~~~x &&& z)

def sha1F1 (x y z : BitVec 32) : BitVec 32 := x ^^^ y ^^^ z

def sha1F2 (x y z : BitVec 32) : BitVec 32 := (x &&& y) ||| (x &&& z) ||| (y &&& z)

def sha1F3 (x y z : BitVec 32) : BitVec 32 := x ^^^ y ^^^ z

def sha1Schedule (block : Vector (BitVec 8) 64) : Vector (BitVec 32) 80 :=
  let w := (List.range' 0 16).foldl (fun w i => w.set! i (unpackBE block i)) (Vector.replicate _ 0)
  (List.range' 16 64).foldl (fun w i => w.set! i
    (cryptoRotl32 (w[i - 3]! ^^^ w[i - 8]! ^^^ w[i - 14]! ^^^ w[i - 16]!) 1)) w

structure Sha1Vars where
  a : BitVec 32
  b : BitVec 32
  c : BitVec 32
  d : BitVec 32
  e : BitVec 32

def sha1Round (w : Vector (BitVec 32) 80) (v : Sha1Vars) (i : Nat) : Sha1Vars :=
  let temp :=
    if i < 20 then cryptoRotl32 v.a 5 + sha1F0 v.b v.c v.d + v.e + w[i]! + 0x5a827999
    else if i < 40 then cryptoRotl32 v.a 5 + sha1F1 v.b v.c v.d + v.e + w[i]! + 0x6ed9eba1
    else if i < 60 then cryptoRotl32 v.a 5 + sha1F2 v.b v.c v.d + v.e + w[i]! + 0x8f1bbcdc
    else cryptoRotl32 v.a 5 + sha1F3 v.b v.c v.d + v.e + w[i]! + 0xca62c1d6
  { a := temp, b := v.a, c := cryptoRotl32 v.b 30, d := v.c, e := v.d }

def sha1Transform (state : Vector (BitVec 32) 5) (block : Vector (BitVec 8) 64) : Vector (BitVec 32) 5 :=
  let v := (List.range 80).foldl (sha1Round (sha1Schedule block))
    ⟨state.get 0, state.get 1, state.get 2, state.get 3, state.get 4⟩
  #v[state.get 0 + v.a, state.get 1 + v.b, state.get 2 + v.c, state.get 3 + v.d, state.get 4 + v.e]

def cryptoSha1Init : HashCtx 5 → HashCtx 5 := HashCtx.init sha1Init

def cryptoSha1Update : HashCtx 5 → List (BitVec 8) → HashCtx 5 := HashCtx.update sha1Transform

def cryptoSha1Final : HashCtx 5 → HashCtx 5 × List (BitVec 8) := HashCtx.final sha1Transform lengthByteBE wordBytesBE

/-! ## SHA-256 -/

def sha256Init : Vector (BitVec 32) 8 :=
  #v[0x6a09e667, 0xbb67ae85, 0x3c6ef372, 0xa54ff53a, 0x510e527f, 0x9b05688c, 0x1f83d9ab, 0x5be0cd19]

def sha256K : List (BitVec 32) :=
  [ 0x428a2f98, 0x71374491, 0xb5c0fbcf, 0xe9b5dba5, 0x3956c25b, 0x59f111f1, 0x923f82a4, 0xab1c5ed5,
    0xd807aa98, 0x12835b01, 0x243185be, 0x550c7dc3, 0x72be5d74, 0x80deb1fe, 0x9bdc06a7, 0xc19bf174,
    0xe49b69c1, 0xefbe4786, 0x0fc19dc6, 0x240ca1cc, 0x2de92c6f, 0x4a7484aa, 0x5cb0a9dc, 0x76f988da,
    0x983e5152, 0xa831c66d, 0xb00327c8, 0xbf597fc7, 0xc6e00bf3, 0xd5a79147, 0x06ca6351, 0x14292967,
    0x27b70a85, 0x2e1b2138, 0x4d2c6dfc, 0x53380d13, 0x650a7354, 0x766a0abb, 0x81c2c92e, 0x92722c85,
    0xa2bfe8a1, 0xa81a664b, 0xc24b8b70, 0xc76c51a3, 0xd192e819, 0xd6990624, 0xf40e3585, 0x106aa070,
    0x19a4c116, 0x1e376c08, 0x2748774c, 0x34b0bcb5, 0x391c0cb3, 0x4ed8aa4a, 0x5b9cca4f, 0x682e6ff3,
    0x748f82ee, 0x78a5636f, 0x84c87814, 0x8cc70208, 0x90befffa, 0xa4506ceb, 0xbef9a3f7, 0xc67178f2]

def sha256Ch (x y z : BitVec 32) : BitVec 32 := (x &&& y) ^^^ (~~~x &&& z)

def sha256Maj (x y z : BitVec 32) : BitVec 32 := (x &&& y) ^^^ (x &&& z) ^^^ (y &&& z)

def sha256Sum0 (x : BitVec 32) : BitVec 32 := cryptoRotr32 x 2 ^^^ cryptoRotr32 x 13 ^^^ cryptoRotr32 x 22

def sha256Sum1 (x : BitVec 32) : BitVec 32 := cryptoRotr32 x 6 ^^^ cryptoRotr32 x 11 ^^^ cryptoRotr32 x 25

def sha256Sigma0 (x : BitVec 32) : BitVec 32 := cryptoRotr32 x 7 ^^^ cryptoRotr32 x 18 ^^^ (x >>> 3)

def sha256Sigma1 (x : BitVec 32) : BitVec 32 := cryptoRotr32 x 17 ^^^ cryptoRotr32 x 19 ^^^ (x >>> 10)

def sha256Schedule (block : Vector (BitVec 8) 64) : Vector (BitVec 32) 64 :=
  let w := (List.range' 0 16).foldl (fun w i => w.set! i (unpackBE block i)) (Vector.replicate _ 0)
  (List.range' 16 48).foldl (fun w i => w.set! i
    (sha256Sigma1 w[i - 2]! + w[i - 7]! + sha256Sigma0 w[i - 15]! + w[i - 16]!)) w

structure Sha256Vars where
  a : BitVec 32
  b : BitVec 32
  c : BitVec 32
  d : BitVec 32
  e : BitVec 32
  f : BitVec 32
  g : BitVec 32
  h : BitVec 32

def sha256Round (w : Vector (BitVec 32) 64) (v : Sha256Vars) (i : Nat) : Sha256Vars :=
  let t1 := v.h + sha256Sum1 v.e + sha256Ch v.e v.f v.g + sha256K.getD i 0 + w[i]!
  let t2 := sha256Sum0 v.a + sha256Maj v.a v.b v.c
  { a := t1 + t2, b := v.a, c := v.b, d := v.c, e := v.d + t1, f := v.e, g := v.f, h := v.g }

def sha256Transform (state : Vector (BitVec 32) 8) (block : Vector (BitVec 8) 64) : Vector (BitVec 32) 8 :=
  let v := (List.range 64).foldl (sha256Round (sha256Schedule block))
    ⟨state.get 0, state.get 1, state.get 2, state.get 3, state.get 4, state.get 5, state.get 6, state.get 7⟩
  #v[state.get 0 + v.a, state.get 1 + v.b, state.get 2 + v.c, state.get 3 + v.d, state.get 4 + v.e,
    state.get 5 + v.f, state.get 6 + v.g, state.get 7 + v.h]

def cryptoSha256Init : HashCtx 8 → HashCtx 8 := HashCtx.init sha256Init

def cryptoSha256Update : HashCtx 8 → List (BitVec 8) → HashCtx 8 := HashCtx.update sha256Transform

def cryptoSha256Final : HashCtx 8 → HashCtx 8 × List (BitVec 8) :=
  HashCtx.final sha256Transform lengthByteBE wordBytesBE

end OS64
