import Mathlib.Algebra.Group.Nat.Defs
/-!
# Crc — a checksum that is shifted out bit by bit

The register is shifted right, and the polynomial is added when a one falls out; a message goes in byte by byte.  A
shift is linear (`shift_xor`), so a message changes the register by an amount of its own (`run_xor`), and a word of the
message by its shifts (`run_word`).  A shift loses nothing when the polynomial has its highest bit (`shifts_eq_zero`),
and when the polynomial has an even number of bits a register other than zero does not come back after 2^k shifts
(`shifts_two_pow_ne`).  No more bits in a row than the register has can be changed unnoticed (`burst_eq_zero`).
-/
namespace OS64

open BitVec

namespace Crc

variable {w : Nat} {P : BitVec w}

def shift (P x : BitVec w) : BitVec w := (x >>> 1) ^^^ if x.getLsbD 0 = true then P else 0#w

def shifts (P : BitVec w) : Nat → BitVec w → BitVec w
  | 0, x => x
  | n + 1, x => shifts P n (shift P x)

def byte (P c : BitVec w) (b : BitVec 8) : BitVec w := shifts P 8 (c ^^^ b.setWidth w)

def run (P : BitVec w) (m : Nat → BitVec 8) : Nat → BitVec w → BitVec w
  | 0, c => c
  | n + 1, c => byte P (run P m n c) (m n)

/-! ## Shifts are linear -/

theorem getLsbD_shift (x : BitVec w) (i : Nat) :
    (shift P x).getLsbD i = Bool.xor (x.getLsbD (1 + i)) (x.getLsbD 0 && P.getLsbD i) := by
  unfold shift
  rw [getLsbD_xor, getLsbD_ushiftRight]
  cases x.getLsbD 0
  · rw [if_neg (by decide), getLsbD_zero, Bool.false_and]
  · rw [if_pos rfl, Bool.true_and]

theorem shift_xor (a b : BitVec w) : shift P (a ^^^ b) = shift P a ^^^ shift P b := by
  refine eq_of_getLsbD_eq (fun i _ => ?_)
  simp only [getLsbD_shift, getLsbD_xor, Bool.and_xor_distrib_right, Bool.xor_assoc, Bool.xor_left_comm]

theorem shift_zero : shift P 0#w = 0#w := by
  unfold shift
  rw [getLsbD_zero, if_neg (by decide), xor_zero, zero_ushiftRight]

theorem shifts_xor : ∀ (n : Nat) (a b : BitVec w), shifts P n (a ^^^ b) = shifts P n a ^^^ shifts P n b
  | 0, _, _ => rfl
  | n + 1, a, b => by rw [shifts, shift_xor, shifts_xor n, shifts, shifts]

theorem shifts_zero : ∀ n, shifts P n 0#w = 0#w
  | 0 => rfl
  | n + 1 => by rw [shifts, shift_zero, shifts_zero n]

theorem shifts_add : ∀ (m n : Nat) (x : BitVec w), shifts P (m + n) x = shifts P n (shifts P m x)
  | 0, n, x => by rw [Nat.zero_add]; rfl
  | m + 1, n, x => by rw [Nat.succ_add, shifts, shifts_add m n, shifts]

theorem byte_xor (c d : BitVec w) (a b : BitVec 8) : byte P (c ^^^ d) (a ^^^ b) = byte P c a ^^^ byte P d b := by
  unfold byte
  rw [← shifts_xor, setWidth_xor]
  ac_rfl

theorem run_xor (m d : Nat → BitVec 8) (c e : BitVec w) : ∀ n,
    run P (fun k => m k ^^^ d k) n (c ^^^ e) = run P m n c ^^^ run P d n e
  | 0 => rfl
  | n + 1 => by rw [run, run_xor m d c e n, byte_xor, run, run]

theorem run_congr {m m' : Nat → BitVec 8} (c : BitVec w) : ∀ {n : Nat}, (∀ k, k < n → m' k = m k) →
    run P m' n c = run P m n c
  | 0, _ => rfl
  | n + 1, h => by rw [run, run, run_congr c (fun k hk => h k (Nat.lt_succ_of_lt hk)), h n (Nat.lt_succ_self n)]

theorem byte_zero (c : BitVec w) : byte P c 0#8 = shifts P 8 c := by
  unfold byte
  rw [setWidth_zero, xor_zero]

theorem run_zeros {m : Nat → BitVec 8} (c : BitVec w) (n : Nat) : ∀ {k : Nat}, (∀ i, i < k → m (n + i) = 0#8) →
    run P m (n + k) c = shifts P (8 * k) (run P m n c)
  | 0, _ => rfl
  | k + 1, h => by
    rw [← Nat.add_assoc, run, run_zeros c n (fun i hi => h i (Nat.lt_succ_of_lt hi)), h k (Nat.lt_succ_self k),
      byte_zero, ← shifts_add]
    rfl

theorem run_of_zeros {m : Nat → BitVec 8} {n : Nat} (h : ∀ i, i < n → m i = 0#8) : run P m n 0#w = 0#w := by
  have hz := run_zeros (P := P) 0#w 0 (fun i hi => (congrArg m (Nat.zero_add i)).trans (h i hi))
  rw [Nat.zero_add] at hz
  exact hz.trans (shifts_zero _)

/-! ## Words in the message -/

/-- The word of the `k` bytes at `a`, the lowest byte first. -/
def word (w : Nat) (m : Nat → BitVec 8) (a : Nat) : Nat → BitVec w
  | 0 => 0#w
  | k + 1 => word w m a k ^^^ ((m (a + k)).setWidth w <<< (8 * k))

theorem getLsbD_word (m : Nat → BitVec 8) (a j : Nat) (hj : j < w) : ∀ k,
    (word w m a k).getLsbD j = (decide (j < 8 * k) && (m (a + j / 8)).getLsbD (j % 8))
  | 0 => by rw [word, getLsbD_zero, decide_eq_false (by omega), Bool.false_and]
  | k + 1 => by
    rw [word, getLsbD_xor, getLsbD_word m a j hj k, getLsbD_shiftLeft, getLsbD_setWidth]
    by_cases h1 : j < 8 * k
    · simp only [h1, hj, decide_true, Bool.not_true, Bool.false_and, Bool.true_and, Bool.xor_false,
        show j < 8 * (k + 1) by omega]
    by_cases h2 : j < 8 * (k + 1)
    · have hd : j / 8 = k := by omega
      have hm : j % 8 = j - 8 * k := by omega
      have hw : j - 8 * k < w := by omega
      simp only [h1, h2, hj, hw, hd, hm, decide_true, decide_false, Bool.not_false, Bool.false_and, Bool.true_and,
        Bool.false_xor]
    · rw [getLsbD_of_ge _ _ (show 8 ≤ j - 8 * k by omega)]
      simp only [h1, h2, Bool.and_false, Bool.xor_false]

theorem shift_shl {x : BitVec w} {k : Nat} (h : ∀ i, w - (k + 1) ≤ i → x.getLsbD i = false) :
    shift P (x <<< (k + 1)) = x <<< k := by
  unfold shift
  have h0 : (x <<< (k + 1)).getLsbD 0 = false := by
    rw [getLsbD_shiftLeft, decide_eq_true (Nat.succ_pos k), Bool.not_true, Bool.and_false, Bool.false_and]
  rw [h0, if_neg (by decide), xor_zero]
  refine eq_of_getLsbD_eq (fun i hi => ?_)
  rw [getLsbD_ushiftRight, getLsbD_shiftLeft, getLsbD_shiftLeft]
  have hsub : 1 + i - (k + 1) = i - k := by omega
  rw [hsub]
  by_cases hik : i < k
  · rw [decide_eq_true (show 1 + i < k + 1 by omega), decide_eq_true hik]
    simp only [Bool.not_true, Bool.and_false]
  rw [decide_eq_false (show ¬ 1 + i < k + 1 by omega), decide_eq_false hik, decide_eq_true hi]
  by_cases hlast : 1 + i < w
  · rw [decide_eq_true hlast]
  · rw [h (i - k) (by omega)]
    simp only [Bool.and_false]

theorem shifts_shl {x : BitVec w} : ∀ {k : Nat}, (∀ i, w - k ≤ i → x.getLsbD i = false) → shifts P k (x <<< k) = x
  | 0, _ => by rw [shifts, shiftLeft_zero]
  | k + 1, h => by
    rw [shifts, shift_shl h]
    exact shifts_shl (fun i hi => h i (by omega))

/-- **A word of the message** adds its own shifts to the register. -/
theorem run_word (m : Nat → BitVec 8) (a : Nat) (h : run P m a 0#w = 0#w) : ∀ {k : Nat}, 8 * k ≤ w →
    run P m (a + k) 0#w = shifts P (8 * k) (word w m a k)
  | 0, _ => h
  | k + 1, hk => by
    rw [← Nat.add_assoc, run, run_word m a h (by omega), byte]
    have hdown : shifts P (8 * k) ((m (a + k)).setWidth w <<< (8 * k)) = (m (a + k)).setWidth w := by
      refine shifts_shl (fun i hi => ?_)
      rw [getLsbD_setWidth, getLsbD_of_ge _ _ (by omega), Bool.and_false]
    conv => lhs; rw [← hdown]
    rw [← shifts_xor, ← shifts_add]
    rfl

/-! ## Nothing is lost -/

theorem shift_eq_zero (hP : P.getLsbD (w - 1) = true) {x : BitVec w} (h : shift P x = 0#w) : x = 0#w := by
  have hbit : ∀ i, Bool.xor (x.getLsbD (1 + i)) (x.getLsbD 0 && P.getLsbD i) = false := fun i => by
    rw [← getLsbD_shift, h, getLsbD_zero]
  have h0 : x.getLsbD 0 = false := by
    have htop := hbit (w - 1)
    rw [hP, Bool.and_true, getLsbD_of_ge _ (1 + (w - 1)) (by omega), Bool.false_xor] at htop
    exact htop
  refine eq_of_getLsbD_eq (fun i _ => ?_)
  rw [getLsbD_zero]
  cases i with
  | zero => exact h0
  | succ i =>
    have hi' := hbit i
    rw [h0, Bool.false_and, Bool.xor_false, Nat.add_comm] at hi'
    exact hi'

theorem shifts_eq_zero (hP : P.getLsbD (w - 1) = true) : ∀ {n : Nat} {x : BitVec w}, shifts P n x = 0#w → x = 0#w
  | 0, _, h => h
  | _ + 1, _, h => shift_eq_zero hP (shifts_eq_zero hP h)

/-! ## Bursts -/

theorem run_burst (m : Nat → BitVec 8) (a : Nat) {k j : Nat} (h : run P m a 0#w = 0#w) (hw : w = 8 * k) (hj : j ≤ w)
    (hlow : ∀ i, i < j → (word w m a k).getLsbD i = false) (hhigh : ∀ i, j ≤ i → (m (a + k)).getLsbD i = false) :
    run P m (a + k + 1) 0#w = shifts P (w - j + 8) (word w m a k >>> j ^^^ (m (a + k)).setWidth w <<< (w - j)) := by
  have hword : (word w m a k >>> j) <<< j = word w m a k := by
    refine eq_of_getLsbD_eq (fun i hi => ?_)
    rw [getLsbD_shiftLeft, getLsbD_ushiftRight, decide_eq_true hi, Bool.true_and]
    by_cases hij : i < j
    · rw [decide_eq_true hij, Bool.not_true, Bool.false_and, hlow i hij]
    · rw [decide_eq_false hij, Bool.not_false, Bool.true_and, Nat.add_sub_cancel' (Nat.le_of_not_lt hij)]
  have hdown : shifts P j (word w m a k) = word w m a k >>> j := by
    conv => lhs; rw [← hword]
    refine shifts_shl (fun i hi => ?_)
    rw [getLsbD_ushiftRight, getLsbD_of_ge _ _ (by omega)]
  have hlast : shifts P (w - j) ((m (a + k)).setWidth w <<< (w - j)) = (m (a + k)).setWidth w := by
    refine shifts_shl (fun i hi => ?_)
    rw [getLsbD_setWidth, hhigh i (by omega), Bool.and_false]
  rw [run, run_word m a h (Nat.le_of_eq hw.symm), byte, shifts_add, shifts_xor (w - j), hlast, ← hdown, ← shifts_add,
    Nat.add_sub_cancel' hj, ← hw]

/-- **A burst is found**: a message of ones in at most `w` bits in a row does not leave the register at zero. -/
theorem burst_eq_zero (hP : P.getLsbD (w - 1) = true) {k n s : Nat} (hw : w = 8 * k) {d : Nat → BitVec 8}
    (hd : ∀ i < n, ∀ j < 8, (d i).getLsbD j = true → s ≤ 8 * i + j ∧ 8 * i + j < s + w)
    (h : run P d n 0#w = 0#w) (i : Nat) (hi : i < n) : d i = 0#8 := by
  -- the message goes on with zeros, to the end of the burst and further
  let e : Nat → BitVec 8 := fun i => if i < n then d i else 0#8
  have he : ∀ i j, j < 8 → 8 * i + j < s ∨ s + w ≤ 8 * i + j → (e i).getLsbD j = false := fun i j hj hout => by
    by_cases hi : i < n
    · simp only [e, if_pos hi]
      refine Bool.eq_false_iff.2 (fun hb => ?_)
      have := hd i hi j hj hb
      omega
    · simp only [e, if_neg hi, getLsbD_zero]
  have hzero : ∀ i, (∀ j, j < 8 → (e i).getLsbD j = false) → e i = 0#8 := fun i hi =>
    eq_of_getLsbD_eq (fun j hj => (hi j hj).trans (getLsbD_zero).symm)
  have hrun : run P e (s / 8 + k + 1) 0#w = 0#w := by
    have hn : run P e (n + (s / 8 + k + 1)) 0#w = 0#w := by
      rw [run_zeros _ _ (fun i _ => if_neg (by omega)), run_congr _ (fun i hi => if_pos hi), h, shifts_zero]
    rw [Nat.add_comm, run_zeros _ _ (fun i _ => hzero _ (fun j hj => he _ j hj (by omega)))] at hn
    exact shifts_eq_zero hP hn
  have hstart : run P e (s / 8) 0#w = 0#w := run_of_zeros (fun i hi => hzero i (fun j hj => he i j hj (by omega)))
  have hlow : ∀ i, i < s % 8 → (word w e (s / 8) k).getLsbD i = false := fun i hi => by
    by_cases hiw : i < w
    · rw [getLsbD_word _ _ _ hiw, he _ _ (by omega) (by omega), Bool.and_false]
    · exact getLsbD_of_ge _ _ (Nat.le_of_not_lt hiw)
  have hhigh : ∀ i, s % 8 ≤ i → (e (s / 8 + k)).getLsbD i = false := fun i hi => by
    by_cases hi8 : i < 8
    · exact he _ _ hi8 (by omega)
    · exact getLsbD_of_ge _ _ (Nat.le_of_not_lt hi8)
  have hw0 : 8 ≤ w := by
    cases k with
    | zero => rw [getLsbD_of_ge _ _ (by omega)] at hP; cases hP
    | succ k => omega
  have hV := shifts_eq_zero hP ((run_burst e _ hstart hw (by omega) hlow hhigh).symm.trans hrun)
  -- the bits of that register are those of the message from bit `s` on
  have hbit : ∀ t, t < w → (e ((s + t) / 8)).getLsbD ((s + t) % 8) = false := fun t ht => by
    have hVt := congrArg (fun x => BitVec.getLsbD x t) hV
    simp only [getLsbD_xor, getLsbD_ushiftRight, getLsbD_shiftLeft, getLsbD_setWidth,
      getLsbD_zero, ht, decide_true, Bool.true_and] at hVt
    by_cases hin : s % 8 + t < w
    · rw [getLsbD_word _ _ _ hin, decide_eq_true (by omega), decide_eq_true (show t < w - s % 8 by omega),
        Bool.not_true, Bool.false_and, Bool.xor_false] at hVt
      rwa [show (s + t) / 8 = s / 8 + (s % 8 + t) / 8 by omega, show (s + t) % 8 = (s % 8 + t) % 8 by omega]
    · rw [getLsbD_of_ge _ _ (Nat.le_of_not_lt hin), decide_eq_false (show ¬ t < w - s % 8 by omega), Bool.not_false,
        Bool.false_xor, decide_eq_true (by omega)] at hVt
      rwa [show (s + t) / 8 = s / 8 + k by omega, show (s + t) % 8 = t - (w - s % 8) by omega]
  have hall : e i = 0#8 := hzero i (fun j hj => by
    by_cases hin : s ≤ 8 * i + j ∧ 8 * i + j < s + w
    · have hb := hbit (8 * i + j - s) (by omega)
      rw [show (s + (8 * i + j - s)) / 8 = i by omega, show (s + (8 * i + j - s)) % 8 = j by omega] at hb
      exact hb
    · exact he i j hj (by omega))
  exact (if_pos hi).symm.trans hall

/-! ## No return after a power of two -/

/-- Whether the number of ones among the `n` highest bits is odd. -/
def oddTop (P : BitVec w) : Nat → Bool
  | 0 => false
  | n + 1 => Bool.xor (oddTop P n) (P.getLsbD (w - 1 - n))

theorem getLsbD_fixed {x : BitVec w} (h : shift P x = x) : ∀ n, n ≤ w → x.getLsbD (w - n) = (x.getLsbD 0 && oddTop P n)
  | 0, _ => by
    rw [oddTop, Bool.and_false]
    exact getLsbD_of_ge _ _ (Nat.le_refl _)
  | n + 1, hn => by
    have hbit : (shift P x).getLsbD (w - (n + 1)) = x.getLsbD (w - (n + 1)) := by rw [h]
    have hnext : 1 + (w - (n + 1)) = w - n := by omega
    have hplace : w - (n + 1) = w - 1 - n := by omega
    rw [← hbit, getLsbD_shift, hnext, getLsbD_fixed h n (by omega), oddTop, hplace, ← Bool.and_xor_distrib_left]

theorem shift_fixed (hP : oddTop P w = false) {x : BitVec w} (h : shift P x = x) : x = 0#w := by
  have h0 : x.getLsbD 0 = false := by
    have hw := getLsbD_fixed h w (Nat.le_refl w)
    rw [Nat.sub_self, hP, Bool.and_false] at hw
    exact hw
  refine eq_of_getLsbD_eq (fun i hi => ?_)
  have hi' := getLsbD_fixed h (w - i) (Nat.sub_le _ _)
  rw [h0, Bool.false_and, show w - (w - i) = i by omega] at hi'
  rw [hi', getLsbD_zero]

/-- **2^k shifts** bring no register back but zero: over two elements `T^(2^k) + 1` is `(T + 1)^(2^k)`, and `T + 1`
loses nothing. -/
theorem shifts_two_pow_ne (hP : oddTop P w = false) : ∀ {k : Nat} {x : BitVec w}, shifts P (2 ^ k) x = x → x = 0#w
  | 0, _, h => shift_fixed hP h
  | k + 1, x, h => by
    rw [Nat.pow_succ, Nat.mul_two, shifts_add] at h
    -- the difference after 2^k shifts is one that 2^k shifts leave as it is
    have hdiff : shifts P (2 ^ k) (shifts P (2 ^ k) x ^^^ x) = shifts P (2 ^ k) x ^^^ x := by
      rw [shifts_xor, h, BitVec.xor_comm]
    have hsame := shifts_two_pow_ne hP hdiff
    exact shifts_two_pow_ne hP (BitVec.xor_eq_zero_iff.1 hsame)

end Crc

end OS64
