import OS64.Hash
import OS64.HashStandards
import OS64.Sine
/-!
# HashTables — the constants of the three hash functions are those of the standards

`MD5_K` is compared with the sine (`md5K_eq`), `SHA256_K` and `SHA256_INIT` with the roots of the first primes
(`sha256K_eq`, `sha256Init_eq`): a root is read off a comparison of powers of natural numbers, and the first primes are
found by trial division.
-/
namespace OS64

open List BitVec Nat

/-! ## MD5 -/

theorem md5S_eq : ∀ i, i < 64 → md5S.getD i 0 = Rfc1321.s i ∧ Rfc1321.s i < 32 := by
  decide

theorem md5K_between : ∀ i, i < 64 → Sine.Between (i + 1) (md5K.getD i 0).toNat := by
  decide +kernel

theorem md5K_eq {i : Nat} (hi : i < 64) : md5K.getD i 0 = Rfc1321.T (i + 1) := by
  rw [Rfc1321.T, Sine.floor_sin (succ_le_of_lt hi) (md5K_between i hi), ofNat_toNat, setWidth_eq]

/-! ## SHA-256 -/

theorem frac32_of_floor {x : ℝ} {v : Nat} (hlo : (v : ℝ) ≤ 2 ^ 32 * x) (hhi : 2 ^ 32 * x < v + 1) :
    Fips180.frac32 x = BitVec.ofNat 32 v := by
  have hfloor : ⌊2 ^ 32 * x⌋ = (v : ℤ) := Int.floor_eq_iff.2 ⟨by exact_mod_cast hlo, by exact_mod_cast hhi⟩
  have hsplit : 2 ^ 32 * Int.fract x = 2 ^ 32 * x - ((2 ^ 32 * ⌊x⌋ : ℤ) : ℝ) := by rw [Int.fract]; push_cast; ring
  have hnn : 0 ≤ ⌊2 ^ 32 * Int.fract x⌋ := Int.floor_nonneg.2 (mul_nonneg (by norm_num) (Int.fract_nonneg x))
  have hint : ((⌊2 ^ 32 * Int.fract x⌋₊ : Nat) : ℤ) = v - 2 ^ 32 * ⌊x⌋ := by
    rw [← Int.floor_toNat, Int.toNat_of_nonneg hnn, hsplit, Int.floor_sub_intCast, hfloor]
  apply eq_of_toNat_eq
  rw [Fips180.frac32, toNat_ofNat, toNat_ofNat]
  omega

theorem frac32_of_root {x : ℝ} (hx : 0 ≤ x) {k p v : Nat} (hk : k ≠ 0) (hpow : x ^ k = p)
    (hlo : v ^ k ≤ (2 ^ 32) ^ k * p) (hhi : (2 ^ 32) ^ k * p < (v + 1) ^ k) : Fips180.frac32 x = BitVec.ofNat 32 v := by
  have hscaled : (2 ^ 32 * x) ^ k = (((2 ^ 32) ^ k * p : Nat) : ℝ) := by
    rw [mul_pow, hpow, Nat.cast_mul, Nat.cast_pow, Nat.cast_pow, Nat.cast_ofNat]
  apply frac32_of_floor
  · refine (pow_le_pow_iff_left₀ (cast_nonneg v) (by positivity) hk).1 ?_
    rw [hscaled]; exact_mod_cast hlo
  · refine (pow_lt_pow_iff_left₀ (by positivity) (by positivity) hk).1 ?_
    rw [hscaled]; exact_mod_cast hhi

def firstPrimes : List Nat :=
  [2, 3, 5, 7, 11, 13, 17, 19, 23, 29, 31, 37, 41, 43, 47, 53, 59, 61, 67, 71, 73, 79, 83, 89, 97, 101, 103, 107, 109,
    113, 127, 131, 137, 139, 149, 151, 157, 163, 167, 173, 179, 181, 191, 193, 197, 199, 211, 223, 227, 229, 233, 239,
    241, 251, 257, 263, 269, 271, 277, 281, 283, 293, 307, 311]

def trial (n : Nat) : Bool := Nat.blt 1 n && (List.range' 2 16).all fun d => Nat.ble n d || Nat.blt 0 (n % d)

theorem trial_iff {n : Nat} (hn : n < 324) : trial n = true ↔ Nat.Prime n := by
  simp only [trial, Bool.and_eq_true, blt_eq, all_eq_true, mem_range'_1, Bool.or_eq_true, ble_eq]
  constructor
  · rintro ⟨h2, htrial⟩
    refine prime_def_le_sqrt.2 ⟨h2, fun d hd hsq hdvd => ?_⟩
    have hdd : d * d ≤ n := le_sqrt.1 hsq
    have h18 : d < 18 := by nlinarith
    have hlt : d < n := by nlinarith
    rcases htrial d ⟨hd, h18⟩ with hle | hpos
    · omega
    · omega
  · intro hp
    refine ⟨hp.two_le, fun d hd => ?_⟩
    by_contra hno
    have hdvd : d ∣ n := dvd_of_mod_eq_zero (by omega)
    rcases (dvd_prime hp).1 hdvd with rfl | rfl
    · omega
    · omega

theorem filter_trial : (List.range 312).filter trial = firstPrimes := by
  decide +kernel

theorem nth_eq_filter {p : Nat → Prop} [DecidablePred p] : ∀ n t, t < ((List.range n).filter p).length →
    Nat.nth p t = ((List.range n).filter p).getD t 0
  | 0, t, ht => by simp at ht
  | n + 1, t, ht => by
    rw [range_succ, filter_append] at ht ⊢
    by_cases hlt : t < ((List.range n).filter p).length
    · rw [getD_append _ _ _ _ hlt, nth_eq_filter n t hlt]
    -- the place behind those below `n` is that of `n` itself
    by_cases hp : p n
    · have hcount : Nat.count p n = t := by
        rw [Nat.count, countP_eq_length_filter]
        simp [hp] at ht
        omega
      rw [← hcount, nth_count hp, Nat.count, countP_eq_length_filter]
      simp [hp]
    · simp [hp] at ht
      exact absurd ht hlt

theorem nth_prime {t : Nat} (ht : t < 64) : Nat.nth Nat.Prime t = firstPrimes.getD t 0 := by
  have hfilter : (List.range 312).filter Nat.Prime = firstPrimes := by
    rw [← filter_trial]
    refine filter_congr (fun n hn => ?_)
    have := mem_range.1 hn
    rw [Bool.eq_iff_iff, trial_iff (by omega), decide_eq_true_iff]
  rw [← hfilter]
  refine nth_eq_filter 312 t ?_
  rwa [hfilter]

def wholeRoot (k p : Nat) : Nat := (List.range 6).countP fun c => (c + 1) ^ k ≤ p

/-- `x` is the whole part of the root of degree `k` of `p` followed by thirty-two bits. -/
def RootBits (k p : Nat) (x : BitVec 32) : Prop :=
  (wholeRoot k p * 2 ^ 32 + x.toNat) ^ k ≤ (2 ^ 32) ^ k * p ∧
    (2 ^ 32) ^ k * p < (wholeRoot k p * 2 ^ 32 + x.toNat + 1) ^ k

instance (k p : Nat) (x : BitVec 32) : Decidable (RootBits k p x) := inferInstanceAs (Decidable (_ ∧ _))

theorem RootBits.frac32 {k p : Nat} {y : BitVec 32} (h : RootBits k p y) {x : ℝ} (hx : 0 ≤ x) (hk : k ≠ 0)
    (hpow : x ^ k = p) : Fips180.frac32 x = y := by
  rw [frac32_of_root hx hk hpow h.1 h.2]
  apply eq_of_toNat_eq
  rw [toNat_ofNat]
  omega

theorem sha256K_bits : ∀ t, t < 64 → RootBits 3 (firstPrimes.getD t 0) (sha256K.getD t 0) := by
  decide +kernel

theorem sha256K_eq {t : Nat} (ht : t < 64) : sha256K.getD t 0 = Fips180.Sha256.K t := by
  have hroot : ((firstPrimes.getD t 0 : ℝ) ^ (1 / 3 : ℝ)) ^ 3 = (firstPrimes.getD t 0 : ℝ) := by
    rw [← Real.rpow_natCast, ← Real.rpow_mul (cast_nonneg _)]
    norm_num
  rw [Fips180.Sha256.K, nth_prime ht]
  exact ((sha256K_bits t ht).frac32 (by positivity) (by decide) hroot).symm

theorem sha256Init_bits : ∀ i : Fin 8, RootBits 2 (firstPrimes.getD i 0) sha256Init[i] := by
  decide +kernel

theorem sha256Init_eq : sha256Init = Fips180.Sha256.H0 := by
  apply Vector.ext
  intro i hi
  have hroot : Real.sqrt (firstPrimes.getD i 0) ^ 2 = (firstPrimes.getD i 0 : ℝ) := Real.sq_sqrt (cast_nonneg _)
  rw [Fips180.Sha256.H0, Vector.getElem_ofFn, nth_prime (by omega)]
  exact ((sha256Init_bits ⟨i, hi⟩).frac32 (Real.sqrt_nonneg _) (by decide) hroot).symm

end OS64
