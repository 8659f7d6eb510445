import Mathlib.Data.List.Basic
import Mathlib.Data.List.Nodup
/-!
# RingList — circular lists with a pointer to the last element

The nodes of a ring are a list without repetitions in which each node points to the next one and the last to the first
(`IsRing`).  A node is put behind the last (`IsRing.push`), and any node is taken out of a ring of two or more by
letting the node before it point past it (`IsRing.unlink`).
-/
namespace OS64

open List

/-- Each node of the list points to the next one, and the last one to `e`. -/
def Links (next : Nat → Option Nat) : List Nat → Nat → Prop
  | [], _ => True
  | a :: l, e => next a = some (l.headD e) ∧ Links next l e

section Links

variable {next next' : Nat → Option Nat} {a b e : Nat} {l l₁ l₂ : List Nat}

theorem links_append : Links next (l₁ ++ l₂) e ↔ Links next l₁ (l₂.headD e) ∧ Links next l₂ e := by
  induction l₁ with
  | nil => exact (and_iff_right trivial).symm
  | cons a l ih =>
    have hhead : (l ++ l₂).headD e = l.headD (l₂.headD e) := by cases l <;> rfl
    rw [cons_append, Links, Links, ih, hhead, and_assoc]

theorem Links.congr (h : ∀ x ∈ l, next' x = next x) (hl : Links next l e) : Links next' l e := by
  induction l with
  | nil => trivial
  | cons a l ih => exact ⟨(h a (.head _)).trans hl.1, ih (forall_mem_cons.1 h).2 hl.2⟩

theorem links_concat : Links next (l ++ [a]) e ↔ Links next l a ∧ next a = some e := by
  rw [links_append]
  exact and_congr_right (fun _ => and_iff_left trivial)

end Links

/-- The nodes of the ring from the first on, the last of which is `tail`. -/
structure IsRing (next : Nat → Option Nat) (tail : Nat) (l : List Nat) : Prop where
  nodup : l.Nodup
  last : l.getLast? = some tail
  links : Links next l (l.headD tail)

namespace IsRing

variable {next next' : Nat → Option Nat} {tail t x : Nat} {l pre post : List Nat}

theorem single (h : next t = some t) : IsRing next t [t] :=
  ⟨nodup_singleton t, rfl, h, trivial⟩

section
variable (h : IsRing next tail l)
include h

theorem ne_nil : l ≠ [] := by
  rintro rfl
  cases h.last

theorem split : ∃ q, l = q ++ [tail] := by
  obtain ⟨q, rfl⟩ := List.getLast?_eq_some_iff.1 h.last
  exact ⟨q, rfl⟩

theorem tail_mem : tail ∈ l := mem_of_getLast? h.last

theorem next_tail : next tail = some (l.headD tail) := by
  obtain ⟨q, hq⟩ := h.split
  have hl := h.links
  generalize l.headD tail = e at hl ⊢
  rw [hq] at hl
  exact (links_concat.1 hl).2

theorem headD_mem : l.headD tail ∈ l := by
  cases l with
  | nil => exact absurd rfl h.ne_nil
  | cons a l => exact .head _

theorem next_mem (hx : x ∈ l) : ∃ y ∈ l, next x = some y := by
  obtain ⟨pre, post, rfl⟩ := append_of_mem hx
  have hl := h.links
  have hmem := h.headD_mem
  generalize (pre ++ x :: post).headD tail = e at hl hmem
  have hx' := (links_append.1 hl).2.1
  refine ⟨post.headD e, ?_, hx'⟩
  cases post with
  | nil => exact hmem
  | cons y post => exact mem_append_right _ (.tail _ (.head _))

theorem eq_single (hl : l.headD tail = tail) : l = [tail] := by
  obtain ⟨q, rfl⟩ := h.split
  cases q with
  | nil => rfl
  | cons a q =>
    obtain rfl : a = tail := hl
    exact absurd (mem_append_right q (mem_singleton_self a)) (nodup_cons.1 h.nodup).1

end

/-- **One step of a walk round the ring**: behind the last node it is back at the first, before that it is not. -/
theorem walk {b : List Nat} (h : IsRing next tail (pre ++ x :: b)) :
    (b = [] ∧ next x = some ((pre ++ x :: b).headD tail)) ∨
      ∃ y b', b = y :: b' ∧ next x = some y ∧ y ≠ (pre ++ x :: b).headD tail := by
  have hx := (links_append.1 h.links).2.1
  cases b with
  | nil => exact .inl ⟨rfl, hx⟩
  | cons y b' =>
    refine .inr ⟨y, b', rfl, hx, ?_⟩
    cases pre with
    | nil =>
      rintro rfl
      exact (nodup_cons.1 h.nodup).1 (.head _)
    | cons a pre =>
      rintro rfl
      exact (nodup_append.1 h.nodup).2.2 y mem_cons_self y (.tail _ (.head _)) rfl

theorem congr (h : IsRing next tail l) (heq : ∀ x ∈ l, next' x = next x) : IsRing next' tail l :=
  ⟨h.nodup, h.last, h.links.congr heq⟩

theorem push (h : IsRing next tail l) (ht : t ∉ l) (h1 : next' t = next tail) (h2 : next' tail = some t)
    (hrest : ∀ x ∈ l, x ≠ tail → next' x = next x) : IsRing next' t (l ++ [t]) := by
  have hhead : (l ++ [t]).headD t = l.headD tail := by
    cases l with
    | nil => exact absurd rfl h.ne_nil
    | cons a l => rfl
  refine ⟨nodup_append.2 ⟨h.nodup, nodup_singleton t, fun a ha b hb => ?_⟩, List.getLast?_concat .., ?_⟩
  · rw [mem_singleton] at hb
    subst hb
    rintro rfl
    exact ht ha
  rw [hhead, links_concat, h1, h.next_tail]
  refine ⟨?_, rfl⟩
  obtain ⟨q, hq⟩ := h.split
  have hl := h.links
  have hnd := h.nodup
  subst hq
  rw [links_concat] at hl
  rw [links_concat]
  refine ⟨hl.1.congr (fun x hx => hrest x (mem_append_left _ hx) ?_), h2⟩
  rintro rfl
  exact (nodup_append.1 hnd).2.2 x hx x (mem_singleton_self x) rfl

def prev (tail : Nat) (pre : List Nat) : Nat := (pre.getLast?).getD tail

theorem unlink (h : IsRing next tail (pre ++ x :: post)) (hne : pre ++ post ≠ [])
    (h1 : next' (prev tail pre) = next x) (hrest : ∀ y ∈ pre ++ post, y ≠ prev tail pre → next' y = next y) :
    IsRing next' (if x = tail then prev tail pre else tail) (pre ++ post) := by
  have hnd : (pre ++ post).Nodup := h.nodup.sublist (List.Sublist.append_left (sublist_cons_self x post) pre)
  have hx : x ∉ pre ++ post := (nodup_middle.1 h.nodup).notMem
  have hlinks := h.links
  rcases eq_nil_or_concat pre with rfl | ⟨p, y, rfl⟩
  · -- the first node: the last one now points to the second
    rw [nil_append] at h hne hnd hx hlinks hrest ⊢
    obtain ⟨q, hq⟩ : ∃ q, post = q ++ [tail] := by
      rcases eq_nil_or_concat post with rfl | ⟨q, z, rfl⟩
      · exact absurd rfl hne
      · have hlast := h.last
        rw [concat_eq_append, ← cons_append, List.getLast?_concat, Option.some.injEq] at hlast
        exact ⟨q, by rw [concat_eq_append, hlast]⟩
    have hxt : x ≠ tail := by
      rintro rfl
      exact hx (by rw [hq]; exact mem_append_right _ (mem_singleton_self x))
    rw [if_neg hxt]
    refine ⟨hnd, by rw [hq]; exact List.getLast?_concat .., ?_⟩
    have hnext : next x = some (post.headD tail) := by
      have h0 := hlinks.1
      cases post with
      | nil => exact absurd rfl hne
      | cons z post => exact h0
    have hpost : Links next post x := hlinks.2
    subst hq
    rw [links_concat] at hpost
    rw [links_concat]
    refine ⟨hpost.1.congr (fun z hz => hrest z (mem_append_left _ hz) ?_), h1.trans hnext⟩
    rintro rfl
    exact (nodup_append.1 hnd).2.2 z hz z (mem_singleton_self z) rfl
  · -- a later node: the one before it now points past it
    rw [concat_eq_append] at h hne hnd hx hlinks hrest h1 ⊢
    have hprev : prev tail (p ++ [y]) = y := by
      unfold prev
      rw [List.getLast?_concat]
      rfl
    rw [hprev] at h1 hrest ⊢
    have hhead : (p ++ [y] ++ x :: post).headD tail = (p ++ [y] ++ post).headD (if x = tail then y else tail) := by
      cases p <;> rfl
    rw [hhead] at hlinks
    refine ⟨hnd, ?_, ?_⟩
    · cases post with
      | nil =>
        have hlast := h.last
        rw [List.getLast?_concat, Option.some.injEq] at hlast
        rw [if_pos hlast, append_nil, List.getLast?_concat]
      | cons z post =>
        have hlast := h.last
        rw [List.getLast?_append, List.getLast?_cons_cons] at hlast
        have hxt : x ≠ tail := by
          rintro rfl
          have hmem : x ∈ z :: post := by
            refine mem_of_getLast? ?_
            rw [← hlast]
            cases hz : (z :: post).getLast? with
            | none => exact absurd (List.getLast?_eq_none_iff.1 hz) (cons_ne_nil _ _)
            | some w => rfl
          exact hx (mem_append_right _ hmem)
        rwa [if_neg hxt, List.getLast?_append]
    · obtain ⟨hpy, hxpost⟩ := links_append.1 hlinks
      obtain ⟨hp, -⟩ := links_concat.1 hpy
      have hynd := (nodup_append.1 hnd)
      refine links_append.2 ⟨links_concat.2 ⟨hp.congr (fun z hz => hrest z ?_ ?_), h1.trans hxpost.1⟩,
        hxpost.2.congr (fun z hz => hrest z (mem_append_right _ hz) ?_)⟩
      · exact mem_append_left _ (mem_append_left _ hz)
      · rintro rfl
        exact (nodup_append.1 hynd.1).2.2 z hz z (mem_singleton_self z) rfl
      · rintro rfl
        exact hynd.2.2 z (mem_append_right _ (mem_singleton_self z)) z hz rfl

end IsRing

end OS64
