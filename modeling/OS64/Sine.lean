import Mathlib.Analysis.Complex.Exponential
import Mathlib.Analysis.SpecialFunctions.Trigonometric.Basic
import Mathlib.NumberTheory.Zsqrtd.GaussianInt
/-!
# Sine — the leading digits of the sine of a natural number, by integer arithmetic

`exp i` is approximated by a Gaussian integer over a factorial (`taylor`), its powers by the powers of that number, and
the sine of `k` is the imaginary part of power `k`.  `floor_sin` reads the first thirty-two binary places of `|sin k|`
off the powers, with a comparison of integers as its only premise.
-/
namespace OS64
namespace Sine

open GaussianInt Nat

/-- `n!` times the sum of the first `n + 1` terms of `exp i`. -/
def taylor : Nat → GaussianInt
  | 0 => 1
  | n + 1 => (n + 1 : Nat) * taylor n + ⟨0, 1⟩ ^ (n + 1)

theorem toComplex_taylor : ∀ n, toComplex (taylor n) =
    n.factorial * ∑ m ∈ Finset.range (n + 1), Complex.I ^ m / m.factorial
  | 0 => by simp [taylor]
  | n + 1 => by
    have hfac : ((n + 1).factorial : ℂ) ≠ 0 := cast_ne_zero.2 (factorial_ne_zero _)
    have hI : toComplex ⟨0, 1⟩ = Complex.I := by simp [toComplex_def]
    rw [taylor, map_add, map_mul, map_natCast, map_pow, hI, toComplex_taylor n, Finset.sum_range_succ _ (n + 1),
      mul_add, mul_div_cancel₀ _ hfac, factorial_succ, cast_mul, mul_assoc]

noncomputable def approx : ℂ := toComplex (taylor 39) / (39).factorial

theorem approx_near : ‖Complex.exp Complex.I - approx‖ ≤ 1 / 2 ^ 150 := by
  have happ : approx = ∑ m ∈ Finset.range 40, Complex.I ^ m / m.factorial := by
    rw [approx, toComplex_taylor, mul_div_cancel_left₀ _ (cast_ne_zero.2 (factorial_ne_zero _))]
  have hbound := Complex.exp_bound (x := Complex.I) (by simp) (n := 40) (by decide)
  rw [happ]
  refine hbound.trans ?_
  norm_num [Nat.factorial]

theorem norm_exp_I : ‖Complex.exp Complex.I‖ = 1 := by
  simpa using Complex.norm_exp_ofReal_mul_I 1

theorem norm_approx : ‖approx‖ ≤ 2 := by
  have h := norm_sub_norm_le approx (Complex.exp Complex.I)
  rw [norm_sub_rev] at h
  have := approx_near
  rw [norm_exp_I] at h
  linarith

theorem approx_pow_near : ∀ k : Nat, ‖Complex.exp Complex.I ^ k - approx ^ k‖ ≤ (2 ^ k - 1) / 2 ^ 150
  | 0 => by simp
  | k + 1 => by
    have hsplit : Complex.exp Complex.I ^ (k + 1) - approx ^ (k + 1) =
        Complex.exp Complex.I ^ k * (Complex.exp Complex.I - approx) +
          (Complex.exp Complex.I ^ k - approx ^ k) * approx := by ring
    calc ‖Complex.exp Complex.I ^ (k + 1) - approx ^ (k + 1)‖
        ≤ ‖Complex.exp Complex.I ^ k‖ * ‖Complex.exp Complex.I - approx‖ +
          ‖Complex.exp Complex.I ^ k - approx ^ k‖ * ‖approx‖ := by
          rw [hsplit, ← norm_mul, ← norm_mul]
          exact norm_add_le _ _
      _ ≤ 1 * (1 / 2 ^ 150) + (2 ^ k - 1) / 2 ^ 150 * 2 := by
          rw [norm_pow, norm_exp_I, one_pow]
          gcongr
          · exact approx_near
          · have : (1 : ℝ) ≤ 2 ^ k := one_le_pow₀ (by norm_num)
            exact div_nonneg (by linarith) (by norm_num)
          · exact approx_pow_near k
          · exact norm_approx
      _ = (2 ^ (k + 1) - 1) / 2 ^ 150 := by ring

theorem sin_near (k : Nat) :
    |Real.sin k - ((taylor 39 ^ k).im : ℝ) / ((39).factorial : ℝ) ^ k| ≤ 2 ^ k / 2 ^ 150 := by
  have hexp : Complex.exp Complex.I ^ k = Complex.exp ((k : ℝ) * Complex.I) := by rw [← Complex.exp_nat_mul]; simp
  have him : (Complex.exp Complex.I ^ k - approx ^ k).im =
      Real.sin k - ((taylor 39 ^ k).im : ℝ) / ((39).factorial : ℝ) ^ k := by
    rw [Complex.sub_im, hexp, Complex.exp_ofReal_mul_I_im, approx, div_pow, ← map_pow]
    rw [← cast_pow, Complex.div_natCast_im, ← intCast_im, cast_pow]
  rw [← him]
  refine (Complex.abs_im_le_norm _).trans ((approx_pow_near k).trans ?_)
  gcongr
  linarith

/-- `v / 2^32` is below the approximation of `|sin k|` and `(v + 1) / 2^32` above it, by more than its error. -/
def Between (k v : Nat) : Prop :=
  (39).factorial ^ k * (v * 2 ^ 54 + 1) ≤ (taylor 39 ^ k).im.natAbs * 2 ^ 86 ∧
    (taylor 39 ^ k).im.natAbs * 2 ^ 86 + (39).factorial ^ k < (39).factorial ^ k * ((v + 1) * 2 ^ 54)

instance (k v : Nat) : Decidable (Between k v) := inferInstanceAs (Decidable (_ ∧ _))

/-- **The first thirty-two binary places of the sine of a natural number.** -/
theorem floor_sin {k v : Nat} (hk : k ≤ 64) (h : Between k v) : ⌊2 ^ 32 * |Real.sin k|⌋₊ = v := by
  have hD : (0 : ℝ) < ((39).factorial : ℝ) ^ k := pow_pos (cast_pos.2 (factorial_pos _)) k
  have herr : |Real.sin k - ((taylor 39 ^ k).im : ℝ) / ((39).factorial : ℝ) ^ k| * 2 ^ 86 ≤ 1 := by
    have hpow : (2 : ℝ) ^ k ≤ 2 ^ 64 := pow_le_pow_right₀ (by norm_num) hk
    have := sin_near k
    calc _ ≤ (2 ^ k / 2 ^ 150 : ℝ) * 2 ^ 86 := by gcongr
      _ ≤ (2 ^ 64 / 2 ^ 150 : ℝ) * 2 ^ 86 := by gcongr
      _ ≤ 1 := by norm_num
  have habs : |((taylor 39 ^ k).im : ℝ) / ((39).factorial : ℝ) ^ k| =
      ((taylor 39 ^ k).im.natAbs : ℝ) / ((39).factorial : ℝ) ^ k := by
    rw [abs_div, abs_of_pos hD, cast_natAbs, Int.cast_abs]
  have hdist := abs_abs_sub_abs_le_abs_sub (Real.sin k) (((taylor 39 ^ k).im : ℝ) / ((39).factorial : ℝ) ^ k)
  obtain ⟨hlo, hhi⟩ := abs_le.1 hdist
  -- the two comparisons of integers, divided by the denominator
  have h1 : (v * 2 ^ 54 + 1 : ℝ) ≤ ((taylor 39 ^ k).im.natAbs : ℝ) / ((39).factorial : ℝ) ^ k * 2 ^ 86 := by
    rw [div_mul_eq_mul_div, le_div_iff₀ hD, mul_comm]
    exact_mod_cast h.1
  have h2 : ((taylor 39 ^ k).im.natAbs : ℝ) / ((39).factorial : ℝ) ^ k * 2 ^ 86 + 1 < (v + 1) * 2 ^ 54 := by
    rw [div_mul_eq_mul_div, div_add_one hD.ne', div_lt_iff₀ hD, mul_comm ((v + 1 : ℝ) * 2 ^ 54)]
    exact_mod_cast h.2
  rw [floor_eq_iff (by positivity)]
  constructor
  · linarith
  · linarith

end Sine
end OS64
