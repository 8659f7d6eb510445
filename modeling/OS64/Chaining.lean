import Mathlib.Algebra.Order.Ring.Nat
import Mathlib.Data.List.Basic
import Mathlib.Data.List.GetD
import Mathlib.Data.Nat.Init
/-!
# Chaining — hashing a message block by block, and collecting the blocks in a buffer

A message is cut into blocks of `w` symbols and a compression function is folded over the complete ones (`chain`).  A
program that receives the message symbol by symbol keeps the chaining value and a buffer; `Collected` says what they
hold after a message, and `Collected.push` what one more symbol does to them.
-/
namespace OS64
namespace Chaining

variable {σ α : Type} {w : Nat} [Inhabited α]

def block (w : Nat) (m : List α) (i : Nat) : Vector α w := Vector.ofFn fun j => m.getD (w * i + j) default

def chain (compress : σ → Vector α w → σ) (h : σ) (m : List α) : σ :=
  (List.range (m.length / w)).foldl (fun s i => compress s (block w m i)) h

theorem block_append {m : List α} {i : Nat} (hi : w * (i + 1) ≤ m.length) (n : List α) :
    block w (m ++ n) i = block w m i := by
  unfold block
  congr 1
  funext j
  have hj : w * i + j < m.length := by
    rw [Nat.mul_add] at hi
    omega
  rw [List.getD_append _ _ _ _ hj]

variable {compress : σ → Vector α w → σ} {h s : σ} {m : List α} {buf : Vector α w}

theorem chain_append (n : List α) :
    (List.range (m.length / w)).foldl (fun s i => compress s (block w (m ++ n) i)) h = chain compress h m := by
  refine List.foldl_ext _ _ h (fun s i hi => ?_)
  have hle : w * (i + 1) ≤ m.length :=
    le_trans (Nat.mul_le_mul_left w (List.mem_range.1 hi)) (Nat.mul_div_le m.length w)
  rw [block_append hle]

/-- A chaining value and a buffer after a message: its complete blocks have been compressed and the buffer starts with
the symbols behind them. -/
structure Collected (compress : σ → Vector α w → σ) (h : σ) (m : List α) (s : σ) (buf : Vector α w) : Prop where
  state : s = chain compress h m
  tail : ∀ i (hi : i < w), i < m.length % w → buf[i] = m.getD (w * (m.length / w) + i) default

theorem Collected.nil (compress : σ → Vector α w → σ) (h : σ) (buf : Vector α w) : Collected compress h [] h buf :=
  ⟨by simp [chain], fun i _ hi => by simp at hi⟩

theorem Collected.set (hc : Collected compress h m s buf) (x : α) (hw : m.length % w < w) {i : Nat} (hi : i < w)
    (hle : i ≤ m.length % w) : (buf.set (m.length % w) x hw)[i] = (m ++ [x]).getD (w * (m.length / w) + i) default := by
  have hlen : w * (m.length / w) + m.length % w = m.length := Nat.div_add_mod _ _
  rcases hle.lt_or_eq with hlt | rfl
  · rw [Vector.getElem_set_ne _ _ hlt.ne', hc.tail i hi hlt, List.getD_append _ _ _ _ (by omega)]
  · rw [hlen]
    simp

/-- **One more symbol keeps the buffer collected, when the chaining value takes up the block that it completes.** -/
theorem Collected.push (hc : Collected compress h m s buf) (x : α) (hw : m.length % w < w) :
    Collected compress h (m ++ [x]) (if (m.length + 1) % w = 0 then compress s (buf.set (m.length % w) x hw) else s)
      (buf.set (m.length % w) x hw) := by
  have hpos : 0 < w := (Nat.zero_le _).trans_lt hw
  have hlen : (m ++ [x]).length = m.length + 1 := by simp
  have hlast := Nat.div_add_mod m.length w
  by_cases hfull : m.length % w + 1 = w
  · -- the block is complete: it is the last one of the longer message
    have hdm : (m.length + 1) / w = m.length / w + 1 ∧ (m.length + 1) % w = 0 :=
      (Nat.div_mod_unique hpos).2 ⟨by rw [Nat.mul_add]; omega, hpos⟩
    rw [if_pos hdm.2]
    refine ⟨?_, fun i _ hi => by simp [hdm.2] at hi⟩
    have hblock : buf.set (m.length % w) x hw = block w (m ++ [x]) (m.length / w) := by
      apply Vector.ext
      intro i hi
      rw [hc.set x hw hi (by omega)]
      simp [block]
    rw [chain, hlen, hdm.1, List.range_succ, List.foldl_append, chain_append, ← hc.state, hblock]
    rfl
  · have hdm : (m.length + 1) / w = m.length / w ∧ (m.length + 1) % w = m.length % w + 1 :=
      (Nat.div_mod_unique hpos).2 ⟨by omega, by omega⟩
    rw [if_neg (by omega)]
    refine ⟨?_, fun i hi hlt => ?_⟩
    · rw [chain, hlen, hdm.1, chain_append, ← hc.state]
    · rw [hlen, hdm.2] at hlt
      rw [hlen, hdm.1, hc.set x hw hi (Nat.le_of_lt_succ hlt)]

/-! ## Loops over the places of an array -/

theorem foldl_range_rel {τ υ : Type} {f : τ → Nat → τ} {g : υ → Nat → υ} (R : Nat → τ → υ → Prop) {a : τ} {b : υ}
    (h0 : R 0 a b) : ∀ n, (∀ i a b, i < n → R i a b → R (i + 1) (f a i) (g b i)) →
      R n ((List.range n).foldl f a) ((List.range n).foldl g b)
  | 0, _ => h0
  | n + 1, hstep => by
    rw [List.range_succ, List.foldl_append, List.foldl_append]
    exact hstep n _ _ (Nat.lt_succ_self n) (foldl_range_rel R h0 n (fun i a b hi => hstep i a b (Nat.lt_succ_of_lt hi)))

theorem fill_recursion {β : Type} [Inhabited β] {n lo : Nat} {W : Nat → β} {g : Vector β n → Nat → β} {a : Vector β n}
    (hg : ∀ a i, lo ≤ i → (∀ t, t < i → a[t]! = W t) → g a i = W i) (h0 : ∀ t, t < lo → a[t]! = W t) :
    ∀ k, lo + k ≤ n → ∀ t, t < lo + k → ((List.range' lo k).foldl (fun a i => a.set! i (g a i)) a)[t]! = W t
  | 0, _, t, ht => h0 t ht
  | k + 1, hk, t, ht => by
    have ih := fill_recursion hg h0 k (by omega)
    rw [List.range'_concat, List.foldl_append, List.foldl_cons, List.foldl_nil, Nat.one_mul,
      Vector.set!_eq_setIfInBounds, getElem!_pos _ t (by omega)]
    rcases Nat.lt_succ_iff_lt_or_eq.1 (show t < (lo + k).succ from ht) with hlt | rfl
    · rw [Vector.getElem_setIfInBounds_ne _ (by omega), ← getElem!_pos _ t (by omega)]
      exact ih t hlt
    · rw [Vector.getElem_setIfInBounds_self]
      exact hg _ _ (Nat.le_add_right lo k) ih

theorem foldl_set_range {β : Type} (f : Nat → β) (a b : List β) : ∀ n, n ≤ b.length →
    (List.range n).foldl (fun p i => p.set (a.length + i) (f i)) (a ++ b) = a ++ ((List.range n).map f ++ b.drop n)
  | 0, _ => by simp
  | n + 1, hn => by
    rw [List.range_succ, List.foldl_append, foldl_set_range f a b n (by omega), List.foldl_cons,
      List.set_append_right _ _ (Nat.le_add_right _ _), List.set_append_right _ _ (by simp), List.map_append,
      List.append_assoc]
    have hplace : a.length + n - a.length - ((List.range n).map f).length = 0 := by simp
    rw [hplace, List.drop_eq_getElem_cons (show n < b.length by omega)]
    rfl

end Chaining
end OS64
