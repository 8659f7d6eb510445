import Mathlib.Data.Nat.Count
import Mathlib.Logic.Function.Basic
/-!
# ByteBits — an array of bytes as an array of bits

Bit `i` of a byte array is bit `i % 8` of byte `i / 8`.  The three C expressions `b & (1 << k)`, `b | (1 << k)` and
`b & ~(1 << k)` are `maskTest`, `maskSet` and `maskClear`; `bitAt_set` and `bitAt_clear` say what writing the last two
back does to every bit of the array, and `numSet_flip` what one flipped bit does to the number of set bits.
-/
namespace OS64

open Function BitVec Nat

def maskTest (b : BitVec 8) (k : Nat) : Bool := (b &&& (1#8 <<< k)) != 0#8

def maskSet (b : BitVec 8) (k : Nat) : BitVec 8 := b ||| (1#8 <<< k)

def maskClear (b : BitVec 8) (k : Nat) : BitVec 8 := b &&& ~~~(1#8 <<< k)

theorem maskTest_eq (b : BitVec 8) (k : Nat) (hk : k < 8) : maskTest b k = b.getLsbD k := by
  unfold maskTest
  rw [← twoPow_eq, and_twoPow]
  cases h : b.getLsbD k
  · simp
  have hne : BitVec.twoPow 8 k ≠ 0#8 := fun h0 => by
    have := congrArg (fun x => x.getLsbD k) h0
    simp [hk] at this
  simpa using hne

theorem maskTest_set (b : BitVec 8) (k j : Nat) (hk : k < 8) (hj : j < 8) :
    maskTest (maskSet b k) j = (maskTest b j || decide (j = k)) := by
  rw [maskTest_eq _ j hj, maskTest_eq _ j hj, maskSet, ← twoPow_eq]
  simp [hk, eq_comm]

theorem maskTest_clear (b : BitVec 8) (k j : Nat) (hj : j < 8) :
    maskTest (maskClear b k) j = (maskTest b j && !decide (j = k)) := by
  rw [maskTest_eq _ j hj, maskTest_eq _ j hj, maskClear, ← twoPow_eq, getLsbD_and]
  simp [hj]

def bitAt (f : Nat → BitVec 8) (i : Nat) : Bool := maskTest (f (i / 8)) (i % 8)

theorem bitAt_set (f : Nat → BitVec 8) (b k i : Nat) (hk : k < 8) :
    bitAt (update f b (maskSet (f b) k)) i = (bitAt f i || decide (i = 8 * b + k)) := by
  unfold bitAt
  by_cases hb : i / 8 = b
  · subst hb
    rw [update_self, maskTest_set _ _ _ hk (mod_lt i (by decide))]
    congr 1
    exact decide_eq_decide.2 (by omega)
  · rw [update_of_ne hb]
    have : ¬ i = 8 * b + k := by omega
    simp [this]

theorem bitAt_clear (f : Nat → BitVec 8) (b k i : Nat) (hk : k < 8) :
    bitAt (update f b (maskClear (f b) k)) i = (bitAt f i && !decide (i = 8 * b + k)) := by
  unfold bitAt
  by_cases hb : i / 8 = b
  · subst hb
    rw [update_self, maskTest_clear _ _ _ (mod_lt i (by decide))]
    congr 2
    exact decide_eq_decide.2 (by omega)
  · rw [update_of_ne hb]
    have : ¬ i = 8 * b + k := by omega
    simp [this]

theorem bitAt_byte (f : Nat → BitVec 8) (b k : Nat) (hk : k < 8) : bitAt f (8 * b + k) = maskTest (f b) k := by
  unfold bitAt
  rw [show (8 * b + k) / 8 = b by omega, show (8 * b + k) % 8 = k by omega]

/-- **An all-ones byte is eight set bits.** -/
theorem bitAt_of_full {f : Nat → BitVec 8} {b i : Nat} (h : f b = 0xFF#8) (hi : i / 8 = b) : bitAt f i = true := by
  unfold bitAt
  rw [hi, h]
  have : i % 8 < 8 := mod_lt i (by decide)
  revert this
  generalize i % 8 = k
  revert k
  decide

/-- **A zero byte is eight clear bits.** -/
theorem bitAt_of_zero {f : Nat → BitVec 8} {b i : Nat} (h : f b = 0x00#8) (hi : i / 8 = b) : bitAt f i = false := by
  unfold bitAt maskTest
  rw [hi, h]
  simp

/-! ## Counting -/

def numSet (p : Nat → Bool) (n : Nat) : Nat := Nat.count (fun i => p i = true) n

theorem numSet_succ (p : Nat → Bool) (n : Nat) : numSet p (n + 1) = numSet p n + if p n then 1 else 0 :=
  count_succ _ n

theorem numSet_le (p : Nat → Bool) (n : Nat) : numSet p n ≤ n := count_le _

theorem numSet_congr {p q : Nat → Bool} : ∀ {n : Nat}, (∀ j, j < n → q j = p j) → numSet q n = numSet p n
  | 0, _ => rfl
  | n + 1, h => by rw [numSet_succ, numSet_succ, numSet_congr (fun j hj => h j (by omega)), h n (by omega)]

/-- **One bit turned on adds one to the count.** -/
theorem numSet_flip {p q : Nat → Bool} {i : Nat} : ∀ {n : Nat}, i < n → p i = false → q i = true →
    (∀ j, j < n → j ≠ i → q j = p j) → numSet q n = numSet p n + 1
  | 0, hi, _, _, _ => absurd hi (not_lt_zero i)
  | n + 1, hi, hp, hq, h => by
    rw [numSet_succ, numSet_succ]
    by_cases hin : i = n
    · subst hin
      rw [numSet_congr (fun j hj => h j (by omega) (by omega)), hp, hq]
      simp
    · rw [numSet_flip (by omega) hp hq (fun j hj => h j (by omega)), h n (by omega) (Ne.symm hin)]
      omega

theorem numSet_not (p : Nat → Bool) : ∀ n, numSet p n + numSet (fun j => !p j) n = n
  | 0 => rfl
  | n + 1 => by
    have ih := numSet_not p n
    rw [numSet_succ, numSet_succ]
    cases p n
    · simp; omega
    · simp; omega

theorem numSet_all {p : Nat → Bool} : ∀ {n : Nat}, (∀ j, j < n → p j = true) → numSet p n = n
  | 0, _ => rfl
  | n + 1, h => by rw [numSet_succ, numSet_all (fun j hj => h j (by omega)), h n (by omega)]; rfl

theorem numSet_none {p : Nat → Bool} {n : Nat} (h : ∀ j, j < n → p j = false) : numSet p n = 0 := by
  have hnot := numSet_not p n
  rw [numSet_all (p := fun j => !p j) (fun j hj => by rw [h j hj]; rfl)] at hnot
  omega

/-- **Bits set only in `[l, h)` are counted there.** -/
theorem numSet_window {p : Nat → Bool} {l h n : Nat} (hlh : l ≤ h) (hn : h ≤ n)
    (hp : ∀ j, j < l ∨ h ≤ j → p j = false) : numSet p n = numSet (fun j => p (l + j)) (h - l) := by
  have hsplit : numSet p n =
      numSet p l + (numSet (fun j => p (l + j)) (h - l) + numSet (fun j => p (h + j)) (n - h)) := by
    have h1 : n = l + ((h - l) + (n - h)) := by omega
    have h2 : ∀ j, l + (h - l + j) = h + j := fun j => by omega
    unfold numSet
    conv_lhs => rw [h1]
    rw [count_add, count_add]
    simp only [h2]
  rw [hsplit, numSet_none (fun j hj => hp j (.inl hj)), numSet_none (fun j _ => hp (h + j) (.inr (by omega)))]
  omega

end OS64
