import Mathlib.Data.List.Pairwise
/-!
# Span — non-empty address ranges

A `Span` is a half-open range that holds an address.  `cut lo hi` takes `[lo, hi)` out of a span and leaves the parts on
either side; `mem_cut` says which addresses are left, and `pairwise_cut` that disjoint spans stay disjoint.
-/
namespace OS64

open List

structure Span where
  lo : Nat
  hi : Nat
  lt : lo < hi

namespace Span

def Has (r : Span) (a : Nat) : Prop := r.lo ≤ a ∧ a < r.hi

def Apart (r t : Span) : Prop := r.hi ≤ t.lo ∨ t.hi ≤ r.lo

theorem apart_of_forall {r t : Span} (h : ∀ a, r.Has a → ¬ t.Has a) : Apart r t := by
  have hr := r.lt
  have ht := t.lt
  unfold Has at h
  unfold Apart
  by_contra hn
  exact h (max r.lo t.lo) (by omega) (by omega)

/-- What is left of a span below `lo` and from `hi` on. -/
def cut (lo hi : Nat) (r : Span) : List Span :=
  (if h : r.lo < min r.hi lo then [⟨r.lo, min r.hi lo, h⟩] else []) ++
    (if h : max r.lo hi < r.hi then [⟨max r.lo hi, r.hi, h⟩] else [])

theorem mem_cut {lo hi : Nat} {r t : Span} (ht : t ∈ cut lo hi r) :
    (t.lo = r.lo ∧ t.hi = min r.hi lo) ∨ (t.lo = max r.lo hi ∧ t.hi = r.hi) := by
  rcases mem_append.1 ht with ht | ht
  · split at ht
    · simp only [mem_singleton] at ht
      subst ht
      exact .inl ⟨rfl, rfl⟩
    · cases ht
  split at ht
  · simp only [mem_singleton] at ht
    subst ht
    exact .inr ⟨rfl, rfl⟩
  · cases ht

theorem Has.of_cut {lo hi a : Nat} {r t : Span} (ht : t ∈ cut lo hi r) (ha : t.Has a) :
    r.Has a ∧ (a < lo ∨ hi ≤ a) := by
  have := mem_cut ht
  unfold Has at *
  omega

theorem pairwise_cut_one (lo hi : Nat) (hle : lo ≤ hi) (r : Span) : (cut lo hi r).Pairwise Apart := by
  unfold cut
  rw [pairwise_append]
  refine ⟨?_, ?_, fun x hx y hy => ?_⟩
  · split <;> simp
  · split <;> simp
  · split at hx
    · split at hy
      · simp only [mem_singleton] at hx hy
        subst hx hy
        show min r.hi lo ≤ max r.lo hi ∨ _
        omega
      · cases hy
    · cases hx

/-- **Spans apart stay apart when a range is cut out of all of them.** -/
theorem pairwise_cut {lo hi : Nat} (hle : lo ≤ hi) {l : List Span} (h : l.Pairwise Apart) :
    (l.flatMap (cut lo hi)).Pairwise Apart := by
  rw [pairwise_flatMap]
  refine ⟨fun r _ => pairwise_cut_one lo hi hle r, h.imp (fun {r t} hrt x hx y hy => ?_)⟩
  have hx := mem_cut hx
  have hy := mem_cut hy
  unfold Apart at *
  omega

end Span
end OS64
