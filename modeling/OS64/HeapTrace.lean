import Mathlib.Data.List.Basic
import Mathlib.Data.List.Nodup
/-!
# HeapTrace — what a piece of code does to heap blocks

A trace lists the accesses to blocks and the calls of `free` in order.  It is orderly if every block it releases is
released once and not accessed afterwards.
-/
namespace OS64

open List

inductive HeapOp (β : Type) where
  | access (b : β)
  | free (b : β)
deriving DecidableEq

namespace HeapOp

variable {β : Type}

/-- Each block that is released is released once, and is not accessed after that. -/
structure Orderly [DecidableEq β] (ops : List (HeapOp β)) : Prop where
  once : ∀ b, free b ∈ ops → ops.count (free b) = 1
  after : ∀ pre b post, ops = pre ++ free b :: post → access b ∉ post

theorem free_not_mem_accesses {l : List β} {b : β} : free b ∉ l.map access := by
  intro h
  obtain ⟨c, -, hc⟩ := mem_map.1 h
  cases hc

theorem access_not_mem_frees {l : List β} {b : β} : access b ∉ l.map free := by
  intro h
  obtain ⟨c, -, hc⟩ := mem_map.1 h
  cases hc

theorem orderly_of_frees_last [DecidableEq β] {used freed : List β} (h : freed.Nodup) :
    Orderly (used.map access ++ freed.map free) where
  once b hb := by
    have hin : free b ∈ freed.map free := (mem_append.1 hb).resolve_left free_not_mem_accesses
    have hnodup : (freed.map free).Nodup := h.map (fun _ _ hc => HeapOp.free.inj hc)
    rw [count_append, count_eq_zero_of_not_mem free_not_mem_accesses, Nat.zero_add]
    exact count_eq_one_of_mem hnodup hin
  after pre b post hops hin := by
    -- the release of `b` is not among the accesses, so what follows it are releases
    rcases append_eq_append_iff.1 hops with ⟨x, -, hx⟩ | ⟨y, hused, hy⟩
    · refine @access_not_mem_frees β freed b ?_
      rw [hx]
      exact mem_append_right _ (.tail _ hin)
    cases y with
    | nil =>
      rw [nil_append] at hy
      refine @access_not_mem_frees β freed b ?_
      rw [← hy]
      exact .tail _ hin
    | cons op y =>
      rw [cons_append, List.cons.injEq] at hy
      refine @free_not_mem_accesses β used b ?_
      rw [hused, hy.1]
      exact mem_append_right _ (.head _)

end HeapOp

end OS64
