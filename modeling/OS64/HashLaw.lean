import OS64.HashTables
/-!
# HashLaw — the three hash functions compute the digests of their standards

A context after some bytes holds the chaining value of their complete blocks and the rest in its buffer (`Absorbed`),
whatever the calls were that brought the bytes; the final functions add the padding of the standards.  The transforms
are the compression functions of the standards: the arrays `w` follow the recursion of the message schedule, the
written-out lines of MD5 are its sixty-four operations, and the tables are the ones the standards construct.
-/
namespace OS64

open Chaining HashStandards Nat

/-! ## Words and bytes -/

theorem cryptoRotl32_eq (x : BitVec 32) {n : Nat} (h : n < 32) : cryptoRotl32 x n = x.rotateLeft n := by
  rw [cryptoRotl32, BitVec.rotateLeft_def, mod_eq_of_lt h]

theorem pack_eq (a b c d : BitVec 8) :
    (a.setWidth 32 <<< 24) ||| (b.setWidth 32 <<< 16) ||| (c.setWidth 32 <<< 8) ||| d.setWidth 32 =
      (a ++ b ++ c ++ d : BitVec 32) := by
  apply BitVec.eq_of_getLsbD_eq
  intro i hi
  grind

theorem unpackBE_eq (block : Vector (BitVec 8) 64) (i : Nat) : unpackBE block i = wordBE block i := by
  rw [unpackBE, wordBE, pack_eq, mul_comm i 4]

theorem or_reverse (a b c d : BitVec 32) : a ||| b ||| c ||| d = d ||| c ||| b ||| a := by
  rw [BitVec.or_comm _ d, BitVec.or_comm _ c, BitVec.or_comm a b, BitVec.or_assoc, BitVec.or_assoc]

theorem unpackLE_eq (block : Vector (BitVec 8) 64) : unpackLE block = wordLE block := by
  funext i
  rw [wordLE, ← pack_eq, unpackLE, mul_comm i 4, or_reverse]

theorem byte_of_word (x : BitVec 32) (n : Nat) : ((x >>> n) &&& 0xFF#32).setWidth 8 = x.extractLsb' n 8 := by
  apply BitVec.eq_of_toNat_eq
  rw [BitVec.extractLsb'_toNat, BitVec.toNat_setWidth, BitVec.toNat_and, BitVec.toNat_ushiftRight,
    show (0xFF#32).toNat = 2 ^ 8 - 1 from rfl, and_two_pow_sub_one_eq_mod, mod_mod]

theorem wordBytesBE_eq : wordBytesBE = bytesBE 4 := by
  funext x
  have hlow : (x &&& 0xFF#32).setWidth 8 = x.extractLsb' 0 8 := byte_of_word x 0
  rw [wordBytesBE, byte_of_word, byte_of_word, byte_of_word, hlow]
  rfl

theorem wordBytesLE_eq : wordBytesLE = bytesLE 4 := by
  funext x
  rw [wordBytesLE, byte_of_word, byte_of_word, byte_of_word, byte_of_word]
  rfl

theorem byte_of_length (n k : Nat) : BitVec.ofNat 8 ((u64 n >>> k) &&& 0xFF) = (BitVec.ofNat 64 n).extractLsb' k 8 := by
  apply BitVec.eq_of_toNat_eq
  rw [BitVec.extractLsb'_toNat, BitVec.toNat_ofNat, show (0xFF : Nat) = 2 ^ 8 - 1 from rfl,
    and_two_pow_sub_one_eq_mod, mod_mod]
  rfl

theorem lengthByteBE_eq (n : Nat) : (List.range 8).map (lengthByteBE (u64 n)) = bytesBE 8 (BitVec.ofNat 64 n) := by
  refine List.map_congr_left (fun i hi => ?_)
  have hplace : 56 - i * 8 = 8 * (8 - 1 - i) := by omega
  rw [lengthByteBE, byte_of_length, hplace]

theorem lengthByteLE_eq (n : Nat) : (List.range 8).map (lengthByteLE (u64 n)) = bytesLE 8 (BitVec.ofNat 64 n) := by
  refine List.map_congr_left (fun i _ => ?_)
  rw [lengthByteLE, byte_of_length, mul_comm]

theorem ofFn_get {n : Nat} (state : Vector (BitVec 32) n) : Vector.ofFn state.get = state := by
  apply Vector.ext
  intro i hi
  rw [Vector.getElem_ofFn]
  rfl

theorem ofFn_add {n : Nat} (u state : Vector (BitVec 32) n) :
    Vector.ofFn (fun i => state.get i + u.get i) = Vector.zipWith (· + ·) u state := by
  apply Vector.ext
  intro i hi
  rw [Vector.getElem_ofFn, Vector.getElem_zipWith]
  exact BitVec.add_comm _ _

/-! ## SHA-1 -/

theorem unpack_loop (block : Vector (BitVec 8) 64) {n : Nat} (hn : 16 ≤ n) {W : Nat → BitVec 32}
    (hW : ∀ t, t < 16 → W t = wordBE block t) (t : Nat) (ht : t < 16) :
    ((List.range' 0 16).foldl (fun w i => w.set! i (unpackBE block i)) (Vector.replicate n 0))[t]! = W t := by
  rw [hW t ht]
  exact fill_recursion (fun _ i _ _ => unpackBE_eq block i)
    (fun t h => absurd h (not_lt_zero t)) 16 (by omega) t (by omega)

theorem sha1Schedule_eq (block : Vector (BitVec 8) 64) {t : Nat} (ht : t < 80) :
    (sha1Schedule block)[t]! = Fips180.Sha1.W (wordBE block) t := by
  have hfirst := unpack_loop block (n := 80) (by decide) (W := Fips180.Sha1.W (wordBE block)) (fun t ht => by
    rw [Fips180.Sha1.W, if_pos ht])
  refine fill_recursion (g := fun w i => cryptoRotl32 (w[i - 3]! ^^^ w[i - 8]! ^^^ w[i - 14]! ^^^ w[i - 16]!) 1)
    (fun w i hi hw => ?_) hfirst 64 (by decide) t ht
  rw [cryptoRotl32_eq _ (by decide), hw _ (by omega), hw _ (by omega), hw _ (by omega), hw _ (by omega)]
  conv_rhs => rw [Fips180.Sha1.W, if_neg (by omega)]

theorem sha1F0_eq (x y z : BitVec 32) : sha1F0 x y z = Fips180.ch x y z := by
  apply BitVec.eq_of_getLsbD_eq
  intro i hi
  simp only [sha1F0, Fips180.ch, BitVec.getLsbD_or, BitVec.getLsbD_xor, BitVec.getLsbD_and, BitVec.getLsbD_not, hi]
  cases x.getLsbD i <;> simp

theorem sha1F2_eq (x y z : BitVec 32) : sha1F2 x y z = Fips180.maj x y z := by
  apply BitVec.eq_of_getLsbD_eq
  intro i _
  simp only [sha1F2, Fips180.maj, BitVec.getLsbD_or, BitVec.getLsbD_xor, BitVec.getLsbD_and]
  cases x.getLsbD i <;> cases y.getLsbD i <;> simp

def Sha1Vars.words (v : Sha1Vars) : Vector (BitVec 32) 5 := #v[v.a, v.b, v.c, v.d, v.e]

theorem Sha1Vars.add_words (v : Sha1Vars) (state : Vector (BitVec 32) 5) :
    #v[state.get 0 + v.a, state.get 1 + v.b, state.get 2 + v.c, state.get 3 + v.d, state.get 4 + v.e] =
      Vector.zipWith (· + ·) v.words state := ofFn_add v.words state

theorem sha1Round_eq (block : Vector (BitVec 8) 64) (v : Sha1Vars) {t : Nat} (ht : t < 80) :
    (sha1Round (sha1Schedule block) v t).words = Fips180.Sha1.round (wordBE block) v.words t := by
  have htemp (f k : BitVec 32) : cryptoRotl32 v.a 5 + f + v.e + (sha1Schedule block)[t]! + k =
      v.a.rotateLeft 5 + f + v.e + k + Fips180.Sha1.W (wordBE block) t := by
    rw [cryptoRotl32_eq _ (by decide), sha1Schedule_eq block ht, BitVec.add_assoc, BitVec.add_comm _ k,
      ← BitVec.add_assoc]
  have hround : sha1Round (sha1Schedule block) v t =
      ⟨cryptoRotl32 v.a 5 + Fips180.Sha1.f t v.b v.c v.d + v.e + (sha1Schedule block)[t]! + Fips180.Sha1.K t,
        v.a, cryptoRotl32 v.b 30, v.c, v.d⟩ := by
    unfold sha1Round Fips180.Sha1.f Fips180.Sha1.K
    split_ifs
    · rw [sha1F0_eq]
    · rfl
    · rw [sha1F2_eq]
    · rfl
  rw [hround, htemp]
  rfl

theorem sha1Transform_eq : sha1Transform = Fips180.Sha1.compress := by
  funext state block
  have hstart : (Sha1Vars.mk (state.get 0) (state.get 1) (state.get 2) (state.get 3) (state.get 4)).words = state :=
    ofFn_get state
  have hrounds := foldl_range_rel (fun _ (v : Sha1Vars) u => v.words = u) hstart 80
    (f := sha1Round (sha1Schedule block))
    (fun t v u ht hvu => by rw [sha1Round_eq block v ht, hvu])
  rw [Fips180.Sha1.compress, ← hrounds]
  exact Sha1Vars.add_words _ state

/-! ## SHA-256 -/

theorem sha256Schedule_eq (block : Vector (BitVec 8) 64) {t : Nat} (ht : t < 64) :
    (sha256Schedule block)[t]! = Fips180.Sha256.W (wordBE block) t := by
  have hfirst := unpack_loop block (n := 64) (by decide) (W := Fips180.Sha256.W (wordBE block)) (fun t ht => by
    rw [Fips180.Sha256.W, if_pos ht])
  refine fill_recursion (g := fun w i => sha256Sigma1 w[i - 2]! + w[i - 7]! + sha256Sigma0 w[i - 15]! + w[i - 16]!)
    (fun w i hi hw => ?_) hfirst 48 (by decide) t ht
  rw [hw _ (by omega), hw _ (by omega), hw _ (by omega), hw _ (by omega)]
  conv_rhs => rw [Fips180.Sha256.W, if_neg (by omega)]
  rfl

def Sha256Vars.words (v : Sha256Vars) : Vector (BitVec 32) 8 := #v[v.a, v.b, v.c, v.d, v.e, v.f, v.g, v.h]

theorem Sha256Vars.add_words (v : Sha256Vars) (state : Vector (BitVec 32) 8) :
    #v[state.get 0 + v.a, state.get 1 + v.b, state.get 2 + v.c, state.get 3 + v.d, state.get 4 + v.e,
      state.get 5 + v.f, state.get 6 + v.g, state.get 7 + v.h] = Vector.zipWith (· + ·) v.words state :=
  ofFn_add v.words state

theorem sha256Round_eq (block : Vector (BitVec 8) 64) (v : Sha256Vars) {t : Nat} (ht : t < 64) :
    (sha256Round (sha256Schedule block) v t).words = Fips180.Sha256.round (wordBE block) v.words t := by
  rw [sha256Round, sha256K_eq ht, sha256Schedule_eq block ht]
  rfl

theorem sha256Transform_eq : sha256Transform = Fips180.Sha256.compress := by
  funext state block
  have hstart : (Sha256Vars.mk (state.get 0) (state.get 1) (state.get 2) (state.get 3) (state.get 4)
      (state.get 5) (state.get 6) (state.get 7)).words = state := ofFn_get state
  have hrounds := foldl_range_rel (fun _ (v : Sha256Vars) u => v.words = u) hstart 64
    (f := sha256Round (sha256Schedule block))
    (fun t v u ht hvu => by rw [sha256Round_eq block v ht, hvu])
  rw [Fips180.Sha256.compress, ← hrounds]
  exact Sha256Vars.add_words _ state

/-! ## MD5 -/

/-- The variable in place `j` of operation `i`: the lines name them `abcd`, `dabc`, `cdab` and `bcda` in turn. -/
def md5Reg (i j : Nat) : Md5Reg :=
  match (3 * i + j) % 4 with
  | 0 => .a
  | 1 => .b
  | 2 => .c
  | _ => .d

def md5Op (r : Nat) : Md5Op :=
  match r with
  | 0 => .FF
  | 1 => .GG
  | 2 => .HH
  | _ => .II

theorem md5Op_eq (i : Nat) (x y z : BitVec 32) : (md5Op (i / 16)).apply x y z = Rfc1321.aux i x y z := by
  unfold md5Op Rfc1321.aux
  rcases i / 16 with _ | _ | _ | r <;> rfl

def Md5Vars.words (v : Md5Vars) (i : Nat) : Vector (BitVec 32) 4 :=
  #v[v.get (md5Reg i 0), v.get (md5Reg i 1), v.get (md5Reg i 2), v.get (md5Reg i 3)]

theorem md5Reg_mod (i j : Nat) : md5Reg i j = md5Reg (i % 4) j := by
  have hmod : (3 * i + j) % 4 = (3 * (i % 4) + j) % 4 := by omega
  rw [md5Reg, md5Reg, hmod]

theorem Md5Vars.words_set (v : Md5Vars) (x : BitVec 32) (i : Nat) :
    (v.set x (md5Reg i 0)).words (i + 1) = #v[v.get (md5Reg i 3), x, v.get (md5Reg i 1), v.get (md5Reg i 2)] := by
  have hnext (j : Nat) : md5Reg (i + 1) j = md5Reg (i % 4 + 1) j := by
    rw [md5Reg_mod, md5Reg_mod (i % 4 + 1), mod_add_mod]
  have hlt : i % 4 < 4 := mod_lt _ (by decide)
  rw [Md5Vars.words, hnext, hnext, hnext, hnext, md5Reg_mod i 0, md5Reg_mod i 1, md5Reg_mod i 2, md5Reg_mod i 3]
  match i % 4, hlt with
  | 0, _ | 1, _ | 2, _ | 3, _ => rfl

theorem md5Line_eq (block : Vector (BitVec 8) 64) (v : Md5Vars) {i : Nat} (hi : i < 64) : (md5Line (unpackLE block) v
      ⟨md5Op (i / 16), md5Reg i 0, md5Reg i 1, md5Reg i 2, md5Reg i 3, Rfc1321.k i, i, i⟩).words (i + 1) =
      Rfc1321.operation (wordLE block) (v.words i) i := by
  obtain ⟨hs, hlt⟩ := md5S_eq i hi
  rw [md5Line, Md5Vars.words_set, hs, cryptoRotl32_eq _ hlt, md5K_eq hi, md5Op_eq, unpackLE_eq,
    BitVec.add_comm _ (v.get _), ← BitVec.add_assoc, ← BitVec.add_assoc]
  rfl

theorem Md5Vars.add_words (v : Md5Vars) (state : Vector (BitVec 32) 4) :
    #v[state.get 0 + v.a, state.get 1 + v.b, state.get 2 + v.c, state.get 3 + v.d] =
      Vector.zipWith (· + ·) (v.words 64) state := ofFn_add (v.words 64) state

theorem md5Transform_eq : md5Transform = Rfc1321.compress := by
  funext state block
  have hstart : (Md5Vars.mk (state.get 0) (state.get 1) (state.get 2) (state.get 3)).words 0 = state := ofFn_get state
  have hlines := foldl_range_rel (fun i (v : Md5Vars) u => v.words i = u) hstart 64
    (fun i v u hi hvu => by rw [← hvu]; exact md5Line_eq block v hi)
  rw [Rfc1321.compress, ← hlines]
  exact Md5Vars.add_words _ state

/-! ## Contexts -/

namespace HashCtx

variable {n : Nat} {transform : Vector (BitVec 32) n → Vector (BitVec 8) 64 → Vector (BitVec 32) n}
  {words : Vector (BitVec 32) n} {m : List (BitVec 8)} {ctx : HashCtx n}

/-- A context that has taken the bytes `m`: `count` is their number and the blocks are collected. -/
structure Absorbed (transform : Vector (BitVec 32) n → Vector (BitVec 8) 64 → Vector (BitVec 32) n)
    (words : Vector (BitVec 32) n) (m : List (BitVec 8)) (ctx : HashCtx n) : Prop where
  count : ctx.count = u64 m.length
  collected : Collected transform words m ctx.state ctx.buffer

theorem Absorbed.init (words : Vector (BitVec 32) n) (ctx : HashCtx n) : Absorbed transform words [] (ctx.init words) :=
  ⟨rfl, Collected.nil transform words ctx.buffer⟩

theorem Absorbed.place (h : Absorbed transform words m ctx) : ctx.count % 64 = m.length % 64 := by
  rw [h.count]; unfold u64; omega

theorem Absorbed.byte (h : Absorbed transform words m ctx) (b : BitVec 8) :
    Absorbed transform words (m ++ [b]) (ctx.byte transform b) := by
  have hcount : u64 (ctx.count + 1) = u64 (m.length + 1) := by rw [h.count]; unfold u64; omega
  have hfull : u64 (m.length + 1) % 64 = (m.length + 1) % 64 := by unfold u64; omega
  have hpush := h.collected.push b (mod_lt m.length (by decide))
  simp only [HashCtx.byte, h.place, hcount, hfull]
  split
  · rename_i hzero
    rw [if_pos hzero] at hpush
    exact ⟨by simp, hpush⟩
  · rename_i hzero
    rw [if_neg hzero] at hpush
    exact ⟨by simp, hpush⟩

/-- **An update absorbs its bytes, whatever came before.** -/
theorem Absorbed.update : ∀ (data : List (BitVec 8)) {m : List (BitVec 8)} {ctx : HashCtx n},
    Absorbed transform words m ctx → Absorbed transform words (m ++ data) (ctx.update transform data)
  | [], m, _, h => by rwa [List.append_nil]
  | b :: data, m, _, h => by
    rw [List.append_cons]
    exact Absorbed.update data (h.byte b)

theorem Absorbed.updates : ∀ (chunks : List (List (BitVec 8))) {m : List (BitVec 8)} {ctx : HashCtx n},
    Absorbed transform words m ctx →
    Absorbed transform words (m ++ chunks.flatten) (chunks.foldl (HashCtx.update transform) ctx)
  | [], m, _, h => by rwa [List.flatten_nil, List.append_nil]
  | data :: chunks, m, _, h => by
    rw [List.flatten_cons, ← List.append_assoc]
    exact Absorbed.updates chunks (h.update data)

section
variable {encode : BitVec 64 → List (BitVec 8)} {lengthByte : Nat → Nat → BitVec 8}
  (h : Absorbed transform words m ctx)
  (hlen : ∀ k, (List.range 8).map (lengthByte (u64 k)) = encode (BitVec.ofNat 64 k))
include h hlen

theorem Absorbed.padding : m ++ ctx.padding lengthByte = pad encode m := by
  have hbits : u64 (ctx.count * 8) = u64 (8 * m.length) := by rw [h.count]; unfold u64; omega
  have hpad : ctx.padLen = zeros m.length + 9 := by
    have hplace := h.place
    unfold padLen zeros
    dsimp only
    split <;> omega
  have hsplit : 0x80#8 :: List.replicate (zeros m.length + 8) 0#8 =
      (0x80#8 :: List.replicate (zeros m.length) 0#8) ++ List.replicate 8 0#8 := by
    rw [List.replicate_add, List.cons_append]
  have hset := foldl_set_range (lengthByte (u64 (8 * m.length))) (0x80#8 :: List.replicate (zeros m.length) 0#8)
    (List.replicate 8 0#8) 8 (by simp)
  rw [List.length_cons, List.length_replicate, hlen, ← hsplit, List.drop_eq_nil_of_le (by simp),
    List.append_nil] at hset
  rw [pad, HashCtx.padding, hbits, hpad, ← hset]
  rfl

theorem Absorbed.final (wordBytes : BitVec 32 → List (BitVec 8)) :
    (ctx.final transform lengthByte wordBytes).2 = (chain transform words (pad encode m)).toList.flatMap wordBytes := by
  have hall := Absorbed.update (ctx.padding lengthByte) h
  rw [h.padding hlen] at hall
  rw [HashCtx.final, ← hall.collected.state]

end

end HashCtx

open HashCtx (Absorbed)

/-- **Init, any number of updates and final give the digest that the standard defines for the bytes of all the
updates.**  The contexts are arbitrary before init; the words of a length count modulo `2^64` in the standards' padding
and here. -/
theorem digests_standard (chunks : List (List (BitVec 8))) (md5 : HashCtx 4) (sha1 : HashCtx 5) (sha256 : HashCtx 8) :
    (cryptoMd5Final (chunks.foldl cryptoMd5Update (cryptoMd5Init md5))).2 = Rfc1321.digest chunks.flatten ∧
    (cryptoSha1Final (chunks.foldl cryptoSha1Update (cryptoSha1Init sha1))).2 = Fips180.Sha1.digest chunks.flatten ∧
    (cryptoSha256Final (chunks.foldl cryptoSha256Update (cryptoSha256Init sha256))).2 =
      Fips180.Sha256.digest chunks.flatten := by
  refine ⟨?_, ?_, ?_⟩
  · rw [Rfc1321.digest, ← md5Transform_eq, ← wordBytesLE_eq]
    exact (Absorbed.updates chunks (Absorbed.init md5Init md5)).final lengthByteLE_eq wordBytesLE
  · rw [Fips180.Sha1.digest, ← sha1Transform_eq, ← wordBytesBE_eq]
    exact (Absorbed.updates chunks (Absorbed.init sha1Init sha1)).final lengthByteBE_eq wordBytesBE
  · rw [Fips180.Sha256.digest, ← sha256Transform_eq, ← sha256Init_eq, ← wordBytesBE_eq]
    exact (Absorbed.updates chunks (Absorbed.init sha256Init sha256)).final lengthByteBE_eq wordBytesBE

/-! ## Where the final functions touch their arrays -/

namespace HashCtx

variable {n : Nat} (transform : Vector (BitVec 32) n → Vector (BitVec 8) 64 → Vector (BitVec 32) n)
  (lengthByte : Nat → Nat → BitVec 8)

/-- The indexes of `padding` that a final function uses: it writes the marker, the zeros and the length, and its update
reads them all. -/
def padIndexes (ctx : HashCtx n) : List Nat :=
  0 :: List.range' 1 (ctx.padLen - 1) ++ (List.range 8).map (ctx.padLen - 8 + ·) ++ List.range ctx.padLen

/-- The indexes of `buffer` at which an update writes. -/
def bufferIndexes : HashCtx n → List (BitVec 8) → List Nat
  | _, [] => []
  | ctx, b :: data => ctx.count % 64 :: bufferIndexes (ctx.byte transform b) data

/-- Updates and the final function keep to the sixty-four bytes of `padding` and of `buffer`. -/
def Inside (ctx : HashCtx n) (chunks : List (List (BitVec 8))) : Prop :=
  let last := chunks.foldl (update transform) ctx
  (∀ i ∈ last.padIndexes, i < 64) ∧ ∀ i ∈ ctx.bufferIndexes transform (chunks.flatten ++ last.padding lengthByte),
    i < 64

theorem bufferIndexes_lt : ∀ (data : List (BitVec 8)) (ctx : HashCtx n), ∀ i ∈ ctx.bufferIndexes transform data, i < 64
  | [], _, _, h => by cases h
  | b :: data, ctx, i, h => by
    obtain rfl | h := List.mem_cons.1 h
    · exact mod_lt _ (by decide)
    · exact bufferIndexes_lt data _ i h

theorem padIndexes_lt_iff (ctx : HashCtx n) : (∀ i ∈ ctx.padIndexes, i < 64) ↔ ctx.count % 64 < 56 := by
  have hle : ctx.padLen ≤ 64 ↔ ctx.count % 64 < 56 := by
    unfold padLen
    dsimp only
    split <;> omega
  constructor
  · intro h
    by_contra hlong
    -- The update reads the whole array.
    exact absurd (h 64 (List.mem_append_right _ (List.mem_range.2 (by omega)))) (by decide)
  · intro hlen i hi
    simp only [padIndexes, List.mem_cons, List.mem_append, List.mem_range'_1, List.mem_map, List.mem_range] at hi
    omega

theorem inside_iff (words : Vector (BitVec 32) n) (ctx : HashCtx n) (chunks : List (List (BitVec 8))) :
    Inside transform lengthByte (ctx.init words) chunks ↔ chunks.flatten.length % 64 < 56 := by
  have habs : Absorbed transform words _ _ := Absorbed.updates chunks (Absorbed.init words ctx)
  rw [Inside, padIndexes_lt_iff, habs.place]
  exact and_iff_left (bufferIndexes_lt transform _ _)

end HashCtx

/-- **The three final functions keep to their arrays exactly when the bytes hashed leave room in the last block**: with
fifty-six or more bytes in it the padding takes up to seventy-two bytes, and `padding` has sixty-four. -/
theorem digests_inside_iff (chunks : List (List (BitVec 8))) (md5 : HashCtx 4) (sha1 : HashCtx 5) (sha256 : HashCtx 8) :
    (HashCtx.Inside md5Transform lengthByteLE (cryptoMd5Init md5) chunks ∧
      HashCtx.Inside sha1Transform lengthByteBE (cryptoSha1Init sha1) chunks ∧
      HashCtx.Inside sha256Transform lengthByteBE (cryptoSha256Init sha256) chunks) ↔
    chunks.flatten.length % 64 < 56 := by
  rw [cryptoMd5Init, cryptoSha1Init, cryptoSha256Init, HashCtx.inside_iff, HashCtx.inside_iff, HashCtx.inside_iff,
    and_self, and_self]

/-- A message of fifty-six bytes. -/
theorem padding_overrun : ¬ HashCtx.Inside md5Transform lengthByteLE
    (cryptoMd5Init ⟨Vector.replicate 4 0, 0, Vector.replicate 64 0⟩) [List.replicate 56 0] := by
  rw [cryptoMd5Init, HashCtx.inside_iff]
  decide

end OS64
