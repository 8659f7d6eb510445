import Mathlib.Algebra.Group.Nat.Defs
import Mathlib.Data.Nat.Bitwise
/-!
# Word — fixed-width unsigned arithmetic on `Nat`

Machine words are natural numbers; every operation that can leave its width is reduced explicitly with `u32` or `u64`.
`clearLow k x` is `x & ~(2^k - 1)`.
-/
namespace OS64

open Nat

def u16 (n : Nat) : Nat := n % 65536

def u32 (n : Nat) : Nat := n % 4294967296

def u64 (n : Nat) : Nat := n % 18446744073709551616

def sub32 (a b : Nat) : Nat := if u32 b ≤ u32 a then u32 a - u32 b else 4294967296 - (u32 b - u32 a)

def sub64 (a b : Nat) : Nat := u64 (a + (18446744073709551616 - u64 b))

def clearLow (k x : Nat) : Nat := x &&& (2 ^ 64 - 2 ^ k)

theorem u32_lt (n : Nat) : u32 n < 2 ^ 32 := mod_lt _ (by decide)

theorem u64_lt (n : Nat) : u64 n < 2 ^ 64 := mod_lt _ (by decide)

theorem u32_of_lt {n : Nat} (h : n < 2 ^ 32) : u32 n = n := mod_eq_of_lt h

theorem u64_of_lt {n : Nat} (h : n < 2 ^ 64) : u64 n = n := mod_eq_of_lt h

theorem sub32_lt (a b : Nat) : sub32 a b < 2 ^ 32 := by
  have ha := u32_lt a
  unfold sub32
  split <;> omega

theorem sub32_of_le {a b : Nat} (ha : a < 2 ^ 32) (h : b ≤ a) : sub32 a b = a - b := by
  unfold sub32
  rw [u32_of_lt ha, u32_of_lt (h.trans_lt ha), if_pos h]

theorem sub64_of_le {a b : Nat} (ha : a < 2 ^ 64) (h : b ≤ a) : sub64 a b = a - b := by
  unfold sub64 u64; omega

theorem sub64_of_lt {a b : Nat} (hb : b < 2 ^ 64) (h : a < b) : sub64 a b = a + 2 ^ 64 - b := by
  unfold sub64 u64; omega

theorem land_field (a b x : Nat) : x &&& ((2 ^ a - 1) * 2 ^ b) = x / 2 ^ b % 2 ^ a * 2 ^ b := by
  apply eq_of_testBit_eq
  intro i
  rw [testBit_and, testBit_mul_two_pow, testBit_mul_two_pow, testBit_mod_two_pow, testBit_div_two_pow]
  by_cases hbi : b ≤ i
  · simp [hbi, Bool.and_comm]
  · simp [hbi]

/-- **Clearing the low `k` bits rounds down** to a multiple of `2^k`. -/
theorem clearLow_eq (k x : Nat) (hk : k ≤ 64) (hx : x < 2 ^ 64) : clearLow k x = x / 2 ^ k * 2 ^ k := by
  have hmask : 2 ^ 64 - 2 ^ k = (2 ^ (64 - k) - 1) * 2 ^ k := by
    rw [Nat.sub_mul, ← Nat.pow_add, Nat.sub_add_cancel hk, Nat.one_mul]
  have hlt : x / 2 ^ k < 2 ^ (64 - k) := by
    rwa [Nat.div_lt_iff_lt_mul (Nat.two_pow_pos k), ← Nat.pow_add, Nat.sub_add_cancel hk]
  rw [clearLow, hmask, land_field, mod_eq_of_lt hlt]

end OS64
