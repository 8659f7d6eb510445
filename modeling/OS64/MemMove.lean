import Mathlib.Tactic.NormNum.Basic
import OS64.Bytes
/-!
# MemMove — `memset` and `memmove` of `libk/string.c`

The loops of the source have one shape, `bulk`: bytes until the destination is aligned, then words, then the bytes that
are left.  `bulk_rule` needs an invariant only over what one byte and one word do; the alignment never matters.
Addresses are numbers, so a range does not wrap around.
-/
namespace OS64

open Nat

section
variable {σ : Type} {w n : Nat} {aligned : σ → Bool} {body byte word : σ → σ} {s : σ}

/-- `while (n >= w && more) { body; n -= w; }`. -/
def whileLeft (w : Nat) (more : σ → Bool) (body : σ → σ) : Nat → Nat × σ → Nat × σ
  | 0, x => x
  | fuel + 1, x => if w ≤ x.1 ∧ more x.2 then whileLeft w more body fuel (x.1 - w, body x.2) else x

def bulk (aligned : σ → Bool) (byte word : σ → σ) (n : Nat) (s : σ) : σ :=
  let head := whileLeft 1 (fun s => !aligned s) byte n (n, s)
  let words := whileLeft 8 (fun _ => true) word head.1 head
  (whileLeft 1 (fun _ => true) byte words.1 words).2

theorem whileLeft_eq (more : σ → Bool) {f : Nat → σ} (hbody : ∀ r, r + w ≤ n → body (f (r + w)) = f r) :
    ∀ (fuel : Nat) {r : Nat}, r ≤ n → ∃ r' ≤ n, whileLeft w more body fuel (r, f r) = (r', f r')
  | 0, r, h => ⟨r, h, rfl⟩
  | fuel + 1, r, h => by
    unfold whileLeft
    split
    · next hc =>
      obtain ⟨k, rfl⟩ := Nat.exists_eq_add_of_le' hc.1
      rw [Nat.add_sub_cancel, hbody k h]
      exact whileLeft_eq more hbody fuel (by omega)
    · exact ⟨r, h, rfl⟩

theorem whileLeft_done : ∀ (n : Nat) (s : σ), (whileLeft 1 (fun _ => true) byte n (n, s)).1 = 0
  | 0, _ => rfl
  | n + 1, s => by
    exact whileLeft_done n _

/-- With `f r` the state in which `r` bytes are left, the loops go from `f n` to `f 0`. -/
theorem bulk_eq (f : Nat → σ) (hbyte : ∀ r, r + 1 ≤ n → byte (f (r + 1)) = f r)
    (hword : ∀ r, r + 8 ≤ n → word (f (r + 8)) = f r) : bulk aligned byte word n (f n) = f 0 := by
  obtain ⟨r, hr, hhead⟩ := whileLeft_eq (fun s => !aligned s) hbyte n (le_refl n)
  obtain ⟨r', hr', hwords⟩ := whileLeft_eq (fun _ => true) hword r hr
  obtain ⟨r'', _, hlast⟩ := whileLeft_eq (fun _ => true) hbyte r' hr'
  have h0 : r'' = 0 := (congrArg Prod.fst hlast).symm.trans (whileLeft_done r' _)
  simp only [bulk, hhead, hwords, hlast, h0]

end

/-- The word whose eight bytes are `val`. -/
def wordOf (val : BitVec 8) : BitVec 64 :=
  let word := val.setWidth 64
  let word := word ||| word <<< 8
  let word := word ||| word <<< 16
  word ||| word <<< 32

def memset (m : Mem) (s c n : Nat) : Mem :=
  let val := BitVec.ofNat 8 c
  (bulk (fun x => x.2 % 8 = 0) (fun x => (store x.1 x.2 1 val.toNat, x.2 + 1))
    (fun x => (store x.1 x.2 8 (wordOf val).toNat, x.2 + 8)) n (m, s)).1

/-- `*dst++ = *src++` with `w` bytes. -/
def copyUp (w : Nat) : Mem × Nat × Nat → Mem × Nat × Nat
  | (m, dst, src) => (store m dst w (load m src w), dst + w, src + w)

/-- `*--dst = *--src` with `w` bytes. -/
def copyDown (w : Nat) : Mem × Nat × Nat → Mem × Nat × Nat
  | (m, dst, src) => (store m (dst - w) w (load m (src - w) w), dst - w, src - w)

def memmove (m : Mem) (dst src n : Nat) : Mem :=
  if n = 0 ∨ dst = src then m
  else if dst < src then (bulk (fun x => x.2.1 % 8 = 0) (copyUp 1) (copyUp 8) n (m, dst, src)).1
  else (bulk (fun x => x.2.1 % 8 = 0) (copyDown 1) (copyDown 8) n (m, dst + n, src + n)).1

variable (m : Mem) {d s k w : Nat}

theorem store_load (d s w : Nat) : store m d w (load m s w) = copy m d s w := by
  have h : load (store m d w (load m s w)) d w = load m s w := (load_store _ _ _ _).trans (mod_eq_of_lt (load_lt _ _ _))
  funext x
  by_cases hx : d ≤ x ∧ x < d + w
  · obtain ⟨i, rfl⟩ := Nat.exists_eq_add_of_le hx.1
    rw [load_inj h i (by omega), copy_at m (by omega)]
  · rw [store_apart m (by omega), copy_apart m (by omega)]

theorem fill_zero (s : Nat) (v : BitVec 8) : fill m s 0 v = m := funext (fun _ => if_neg (by omega))

theorem copy_zero (d s : Nat) : copy m d s 0 = m := funext (fun _ => if_neg (by omega))

/-- Upwards, what a step reads has not been written yet: it lies above. -/
theorem copyUp_copy (h : d < s) (k w : Nat) :
    copyUp w (copy m d s k, d + k, s + k) = (copy m d s (k + w), d + (k + w), s + (k + w)) := by
  rw [copyUp, store_load, Nat.add_assoc, Nat.add_assoc]
  congr 1
  funext x
  simp only [copy]
  by_cases hin : d + k ≤ x ∧ x < d + k + w
  · rw [if_pos hin, if_neg (by omega), if_pos (by omega)]
    congr 1
    omega
  · rw [if_neg hin]
    by_cases hlow : d ≤ x ∧ x < d + k
    · rw [if_pos hlow, if_pos (by omega)]
    · rw [if_neg hlow, if_neg (by omega)]

/-- Downwards, it lies below. -/
theorem copyDown_copy (h : s ≤ d) (k w : Nat) :
    copyDown w (copy m (d + w) (s + w) k, d + w, s + w) = (copy m d s (k + w), d, s) := by
  rw [copyDown, store_load, Nat.add_sub_cancel, Nat.add_sub_cancel]
  congr 1
  funext x
  simp only [copy]
  by_cases hin : d ≤ x ∧ x < d + w
  · rw [if_pos hin, if_neg (by omega), if_pos (by omega)]
  · rw [if_neg hin]
    by_cases hhigh : d + w ≤ x ∧ x < d + w + k
    · rw [if_pos hhigh, if_pos (by omega)]
      congr 1
      omega
    · rw [if_neg hhigh, if_neg (by omega)]

theorem store_fill {val : BitVec 8} {v : Nat} (hv : ∀ i < w, BitVec.ofNat 8 (v / 256 ^ i) = val) :
    store (fill m s k val) (s + k) w v = fill m s (k + w) val := by
  funext x
  simp only [store, fill]
  by_cases hin : s + k ≤ x ∧ x < s + k + w
  · rw [if_pos hin, if_pos (by omega), hv _ (by omega)]
  · rw [if_neg hin]
    by_cases hlow : s ≤ x ∧ x < s + k
    · rw [if_pos hlow, if_pos (by omega)]
    · rw [if_neg hlow, if_neg (by omega)]

theorem memset_eq (s c n : Nat) : memset m s c n = fill m s n (BitVec.ofNat 8 c) := by
  have hword : ∀ val : BitVec 8, ∀ i < 8, BitVec.ofNat 8 ((wordOf val).toNat / 256 ^ i) = val := by decide +kernel
  have hbyte : ∀ val : BitVec 8, ∀ i < 1, BitVec.ofNat 8 (val.toNat / 256 ^ i) = val := by decide +kernel
  have h0 : (m, s) = (fill m s (n - n) (BitVec.ofNat 8 c), s + (n - n)) := by
    rw [Nat.sub_self, fill_zero]
    rfl
  have hstep : ∀ {r w : Nat}, r + w ≤ n → n - (r + w) + w = n - r := by omega
  rw [memset, h0]
  refine congrArg Prod.fst
    (bulk_eq (fun r => (fill m s (n - r) (BitVec.ofNat 8 c), s + (n - r))) (fun r h => ?_) fun r h => ?_)
  · simp only [store_fill m (hbyte _), Nat.add_assoc, hstep h]
  · simp only [store_fill m (hword _), Nat.add_assoc, hstep h]

theorem memmove_eq (d s n : Nat) : memmove m d s n = copy m d s n := by
  unfold memmove
  by_cases h0 : n = 0 ∨ d = s
  · rw [if_pos h0]
    funext x
    unfold copy
    split
    · congr 1
      omega
    · rfl
  have hstep : ∀ {r w : Nat}, r + w ≤ n → n - (r + w) + w = n - r := by omega
  rw [if_neg h0]
  by_cases hlt : d < s
  · have h0 : (m, d, s) = (copy m d s (n - n), d + (n - n), s + (n - n)) := by
      rw [Nat.sub_self, copy_zero]
      rfl
    rw [if_pos hlt, h0]
    refine congrArg Prod.fst
      (bulk_eq (fun r => (copy m d s (n - r), d + (n - r), s + (n - r))) (fun r h => ?_) fun r h => ?_)
    all_goals rw [copyUp_copy m hlt, hstep h]
  · have h0 : (m, d + n, s + n) = (copy m (d + n) (s + n) (n - n), d + n, s + n) := by rw [Nat.sub_self, copy_zero]
    rw [if_neg hlt, h0]
    refine congrArg Prod.fst
      (bulk_eq (fun r => (copy m (d + r) (s + r) (n - r), d + r, s + r)) (fun r h => ?_) fun r h => ?_)
    all_goals rw [← Nat.add_assoc, ← Nat.add_assoc, copyDown_copy m (by omega), hstep h]

/-- **`memmove` and `memset`**: the destination gets the bytes that the source held before the call, or the given byte,
and nothing else changes. -/
theorem memmove_memset (m : Mem) (dst src n s c k : Nat) :
    (∀ x, memmove m dst src n x = if dst ≤ x ∧ x < dst + n then m (src + (x - dst)) else m x) ∧
    (∀ x, memset m s c k x = if s ≤ x ∧ x < s + k then BitVec.ofNat 8 c else m x) := by
  rw [memmove_eq, memset_eq]
  exact ⟨fun _ => rfl, fun _ => rfl⟩

end OS64
