import Mathlib.Logic.Function.Basic
import OS64.Bytes
/-!
# Sectors — moving sectors between a medium and a buffer

A medium gives the bytes of every sector; a buffer is memory.  `Filled` says that a buffer holds `k` sectors of `n`
bytes from `first` on, `Laid` that the medium does; both say that nothing else was touched, and both grow by one sector.
-/
namespace OS64

open Nat
namespace Sectors

variable {n first k : Nat} {media media' : Nat → Mem} {buf buf' : Mem}

/-- `buf'` is `buf` with `k` sectors of the medium at its start. -/
def Filled (n : Nat) (media : Nat → Mem) (buf buf' : Mem) (first k : Nat) : Prop :=
  ∀ a, buf' a = if a < n * k then media (first + a / n) (a % n) else buf a

/-- `media'` is `media` with the start of the buffer in the `k` sectors from `first` on. -/
def Laid (n : Nat) (buf : Mem) (media media' : Nat → Mem) (first k : Nat) : Prop :=
  ∀ sec o, media' sec o = if (first ≤ sec ∧ sec < first + k) ∧ o < n then buf (n * (sec - first) + o) else media sec o

theorem Filled.zero (n : Nat) (media : Nat → Mem) (buf : Mem) (first : Nat) : Filled n media buf buf first 0 :=
  fun a => (if_neg (not_lt_zero a)).symm

theorem Laid.zero (n : Nat) (buf : Mem) (media : Nat → Mem) (first : Nat) : Laid n buf media media first 0 :=
  fun _ _ => (if_neg (fun h => by omega)).symm

theorem Filled.next (h : Filled n media buf buf' first k) :
    Filled n media buf (blit buf' (n * k) n (media (first + k))) first (k + 1) := fun a => by
  unfold blit
  rw [mul_succ]
  by_cases ha : n * k ≤ a ∧ a < n * k + n
  · have hdiv : a / n = k := Nat.div_eq_of_lt_le (by rw [Nat.mul_comm]; exact ha.1) (by rw [Nat.mul_comm]; exact ha.2)
    have hmod : a % n = a - n * k := by
      have := div_add_mod a n
      rw [hdiv] at this
      omega
    rw [if_pos ha, if_pos ha.2, hdiv, hmod]
  · rw [if_neg ha, h a]
    exact if_congr (by omega) rfl rfl

theorem Laid.next (h : Laid n buf media media' first k) :
    Laid n buf media (Function.update media' (first + k) (blit (media' (first + k)) 0 n (fun o => buf (n * k + o))))
      first (k + 1) :=
  fun sec o => by
    rw [Function.update_apply]
    by_cases hsec : sec = first + k
    · subst hsec
      rw [if_pos rfl]
      unfold blit
      by_cases ho : o < n
      · rw [if_pos (by omega), if_pos (by omega), show first + k - first = k by omega, Nat.sub_zero]
      · rw [if_neg (by omega), h, if_neg (by omega), if_neg (by omega)]
    · rw [if_neg hsec, h]
      exact if_congr (by omega) rfl rfl

end Sectors
end OS64
