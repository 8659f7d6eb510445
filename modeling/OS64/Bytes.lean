import Mathlib.Algebra.Group.Nat.Defs
/-!
# Bytes — byte-addressed memory: little-endian words, filling and copying

A memory gives every address a byte.  `load`/`store` read and write a word of `k` bytes; each write has the one lemma
that says which bytes it leaves alone, and a word is read back whole (`load_store`) or, from elsewhere, as it was
(`load_store_apart`).
-/
namespace OS64

open Nat

abbrev Mem := Nat → BitVec 8

def load (m : Mem) : Nat → Nat → Nat
  | _, 0 => 0
  | a, k + 1 => (m a).toNat + 256 * load m (a + 1) k

def store (m : Mem) (a k v : Nat) : Mem :=
  fun x => if a ≤ x ∧ x < a + k then BitVec.ofNat 8 (v / 256 ^ (x - a)) else m x

def fill (m : Mem) (a n : Nat) (v : BitVec 8) : Mem := fun x => if a ≤ x ∧ x < a + n then v else m x

/-- `memcpy` between areas that do not overlap. -/
def copy (m : Mem) (dst src n : Nat) : Mem := fun x => if dst ≤ x ∧ x < dst + n then m (src + (x - dst)) else m x

def blit (m : Mem) (dst n : Nat) (src : Mem) : Mem := fun x => if dst ≤ x ∧ x < dst + n then src (x - dst) else m x

theorem store_apart (m : Mem) {a k v x : Nat} (h : x < a ∨ a + k ≤ x) : store m a k v x = m x := by
  exact if_neg (by omega)

theorem store_byte (m : Mem) (a v : Nat) : store m a 1 v a = BitVec.ofNat 8 v := by
  unfold store
  rw [if_pos (by omega), Nat.sub_self, Nat.pow_zero, Nat.div_one]

theorem fill_apart (m : Mem) {a n x : Nat} {v : BitVec 8} (h : x < a ∨ a + n ≤ x) : fill m a n v x = m x := by
  exact if_neg (by omega)

theorem copy_apart (m : Mem) {dst src n x : Nat} (h : x < dst ∨ dst + n ≤ x) : copy m dst src n x = m x := by
  exact if_neg (by omega)

theorem copy_at (m : Mem) {dst src n i : Nat} (h : i < n) : copy m dst src n (dst + i) = m (src + i) := by
  unfold copy
  rw [if_pos (by omega), Nat.add_sub_cancel_left]

theorem blit_apart (m src : Mem) {dst n x : Nat} (h : x < dst ∨ dst + n ≤ x) : blit m dst n src x = m x := by
  exact if_neg (by omega)

theorem blit_at (m src : Mem) {dst n i : Nat} (h : i < n) : blit m dst n src (dst + i) = src i := by
  unfold blit
  rw [if_pos (by omega), Nat.add_sub_cancel_left]

theorem store_shift {m m' : Mem} {a x : Nat} (h : m (a + x) = m' x) (b k v : Nat) :
    store m (a + b) k v (a + x) = store m' b k v x := by
  unfold store
  by_cases hin : b ≤ x ∧ x < b + k
  · rw [if_pos (by omega), if_pos hin, Nat.add_sub_add_left]
  · rw [if_neg (by omega), if_neg hin, h]

theorem blit_shift {m m' : Mem} {a x : Nat} (h : m (a + x) = m' x) (src : Mem) (n : Nat) :
    blit m a n src (a + x) = blit m' 0 n src x := by
  unfold blit
  by_cases hin : x < n
  · rw [if_pos (by omega), if_pos (by omega), Nat.add_sub_cancel_left, Nat.sub_zero]
  · rw [if_neg (by omega), if_neg (by omega), h]

theorem load_congr {m m' : Mem} : ∀ {k a b : Nat}, (∀ i, i < k → m' (b + i) = m (a + i)) → load m' b k = load m a k
  | 0, _, _, _ => rfl
  | k + 1, a, b, h => by
    have h0 : m' b = m a := h 0 (by omega)
    have hrest : load m' (b + 1) k = load m (a + 1) k :=
      load_congr (fun i hi => by
        rw [add_assoc, add_assoc, add_comm 1 i]
        exact h (i + 1) (by omega))
    unfold load
    rw [h0, hrest]

theorem load_of_bytes {m : Mem} : ∀ {k a v : Nat}, (∀ i, i < k → (m (a + i)).toNat = v / 256 ^ i % 256) →
    load m a k = v % 256 ^ k
  | 0, _, v, _ => by rw [Nat.pow_zero, Nat.mod_one]; rfl
  | k + 1, a, v, h => by
    have h0 : (m a).toNat = v % 256 := by
      have := h 0 (by omega)
      rwa [Nat.pow_zero, Nat.div_one] at this
    have hrest : load m (a + 1) k = v / 256 % 256 ^ k :=
      load_of_bytes (fun i hi => by
        have := h (i + 1) (by omega)
        rw [Nat.div_div_eq_div_mul, ← Nat.pow_succ', Nat.add_assoc, Nat.add_comm 1 i]
        exact this)
    unfold load
    rw [h0, hrest, Nat.pow_succ', Nat.mod_mul]

theorem load_inj {m m' : Mem} : ∀ {k a b : Nat}, load m' b k = load m a k → ∀ i, i < k → m' (b + i) = m (a + i)
  | k + 1, a, b, h, i, hi => by
    unfold load at h
    cases i with
    | zero => exact BitVec.eq_of_toNat_eq (by simp only [add_zero]; omega)
    | succ i =>
      have hrest : load m' (b + 1) k = load m (a + 1) k := by omega
      have := load_inj hrest i (by omega)
      rwa [Nat.add_right_comm b 1 i, Nat.add_right_comm a 1 i] at this

theorem load_lt (m : Mem) : ∀ k a, load m a k < 256 ^ k
  | 0, _ => Nat.one_pos
  | k + 1, a => by
    have ih := load_lt m k (a + 1)
    unfold load
    omega

/-- **A stored word is read back**, as far as it fits. -/
theorem load_store (m : Mem) (a k v : Nat) : load (store m a k v) a k = v % 256 ^ k :=
  load_of_bytes (fun i hi => by
    unfold store
    rw [if_pos (by omega), Nat.add_sub_cancel_left, BitVec.toNat_ofNat])

/-- **A store leaves the words beside it alone.** -/
theorem load_store_apart (m : Mem) {a k v b j : Nat} (h : b + j ≤ a ∨ a + k ≤ b) :
    load (store m a k v) b j = load m b j :=
  load_congr (fun i hi => store_apart m (by omega))

end OS64
