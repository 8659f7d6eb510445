import Mathlib.Algebra.GroupWithZero.Nat
import Mathlib.Data.List.Pairwise
/-!
# Cells — areas that tile a range and are linked both ways

A cell is an area of memory with a header of `w` bytes and a body of `size` bytes.  `Tiles` says that a list of cells
covers a range without gap or overlap; `Linked` that each cell's record names its neighbours, `R c prev next` being what
a cell's record says.  An edit of a few neighbouring cells is one splice (`Linked.splice`, `Tiles.splice`).
-/
namespace OS64

open List Nat

structure Cell (α : Type) where
  addr : Nat
  size : Nat
  tag : α

namespace Cell

variable {α : Type}

variable {cs : List (Cell α)} {R : Cell α → Nat → Nat → Prop} {hi lo : Nat}

def first (cs : List (Cell α)) (next : Nat) : Nat := (cs.head?.map addr).getD next

def last (prev : Nat) (cs : List (Cell α)) : Nat := (cs.getLast?.map addr).getD prev

@[simp] theorem first_nil (n : Nat) : first ([] : List (Cell α)) n = n := rfl

@[simp] theorem first_cons (c : Cell α) (cs : List (Cell α)) (n : Nat) : first (c :: cs) n = c.addr := rfl

@[simp] theorem last_concat (p : Nat) (cs : List (Cell α)) (c : Cell α) : last p (cs ++ [c]) = c.addr := by
  unfold last
  rw [List.getLast?_concat]
  rfl

theorem last_cons (p : Nat) (c : Cell α) (cs : List (Cell α)) : last p (c :: cs) = last c.addr cs := by
  cases cs with
  | nil => rfl
  | cons d cs =>
    unfold last
    rw [List.getLast?_cons_cons]
    rcases h : (d :: cs).getLast? with _ | e
    · simp at h
    · rfl

theorem last_of_ne (h : cs ≠ []) (p q : Nat) : last p cs = last q cs := by
  cases cs with
  | nil => exact absurd rfl h
  | cons c cs => rw [last_cons, last_cons]

theorem first_append (xs ys : List (Cell α)) (n : Nat) : first (xs ++ ys) n = first xs (first ys n) := by
  cases xs with
  | nil => rfl
  | cons x xs => rfl

theorem last_append (p : Nat) : ∀ (xs ys : List (Cell α)), last p (xs ++ ys) = last (last p xs) ys
  | [], _ => rfl
  | x :: xs, ys => by rw [cons_append, last_cons, last_cons, last_append]

/-! ## Links -/

/-- Every cell's record names its neighbours; `prev` precedes the list and `next` follows it. -/
def Linked (R : Cell α → Nat → Nat → Prop) : Nat → List (Cell α) → Nat → Prop
  | _, [], _ => True
  | prev, c :: cs, next => R c prev (first cs next) ∧ Linked R c.addr cs next

theorem linked_cons {c : Cell α} {p n : Nat} :
    Linked R p (c :: cs) n ↔ R c p (first cs n) ∧ Linked R c.addr cs n := Iff.rfl

theorem linked_append : ∀ {xs ys : List (Cell α)} {p n : Nat},
    Linked R p (xs ++ ys) n ↔ Linked R p xs (first ys n) ∧ Linked R (last p xs) ys n
  | [], _, _, _ => ⟨fun h => ⟨trivial, h⟩, And.right⟩
  | x :: xs, ys, p, n => by
    rw [cons_append, last_cons, linked_cons, linked_cons, first_append, linked_append, and_assoc]

theorem Linked.mono {R' : Cell α → Nat → Nat → Prop} : ∀ {cs : List (Cell α)} {p n : Nat},
    Linked R p cs n → (∀ c ∈ cs, ∀ p n, R c p n → R' c p n) → Linked R' p cs n
  | [], _, _, _, _ => trivial
  | c :: _, _, _, h, hR => ⟨hR c mem_cons_self _ _ h.1, h.2.mono (forall_mem_cons.1 hR).2⟩

/-- **Replacing neighbouring cells.**  The new cells start where the old ones did; the cells before them keep their
records, and of those after them only the first one's `prev` changes. -/
theorem Linked.splice {R' : Cell α → Nat → Nat → Prop} {xs ys ys' zs : List (Cell α)} {p n : Nat}
    (h : Linked R p (xs ++ (ys ++ zs)) n) (hfirst : first ys' (first zs n) = first ys (first zs n))
    (hxs : ∀ c ∈ xs, ∀ p n, R c p n → R' c p n) (hys : Linked R' (last p xs) ys' (first zs n))
    (hz : ∀ c rest, zs = c :: rest → ∀ n, R c (last (last p xs) ys) n → R' c (last (last p xs) ys') n)
    (hzs : ∀ c rest, zs = c :: rest → ∀ d ∈ rest, ∀ p n, R d p n → R' d p n) : Linked R' p (xs ++ (ys' ++ zs)) n := by
  rw [linked_append, linked_append] at h ⊢
  obtain ⟨h1, -, h3⟩ := h
  rw [first_append] at h1 ⊢
  rw [hfirst]
  refine ⟨h1.mono hxs, hys, ?_⟩
  cases zs with
  | nil => trivial
  | cons c rest => exact ⟨hz c rest rfl _ h3.1, h3.2.mono (hzs c rest rfl)⟩

/-! ## Tiling -/

variable {w : Nat}

/-- The cells cover `[lo, hi)`, one after the other. -/
def Tiles (w : Nat) : Nat → List (Cell α) → Nat → Prop
  | lo, [], hi => lo = hi
  | lo, c :: cs, hi => c.addr = lo ∧ Tiles w (lo + w + c.size) cs hi

theorem tiles_cons {c : Cell α} : Tiles w lo (c :: cs) hi ↔ c.addr = lo ∧ Tiles w (lo + w + c.size) cs hi := Iff.rfl

theorem tiles_append : ∀ {xs ys : List (Cell α)} {lo hi : Nat},
    Tiles w lo (xs ++ ys) hi ↔ ∃ mid, Tiles w lo xs mid ∧ Tiles w mid ys hi
  | [], _, lo, _ => ⟨fun h => ⟨lo, rfl, h⟩, fun ⟨_, h1, h2⟩ => by cases h1; exact h2⟩
  | x :: xs, ys, lo, hi => by
    rw [cons_append, tiles_cons, tiles_append]
    exact ⟨fun ⟨h, mid, h1, h2⟩ => ⟨mid, ⟨h, h1⟩, h2⟩, fun ⟨mid, ⟨h, h1⟩, h2⟩ => ⟨h, mid, h1, h2⟩⟩

theorem Tiles.mem : ∀ {cs : List (Cell α)} {lo hi : Nat}, Tiles w lo cs hi →
    lo ≤ hi ∧ ∀ c ∈ cs, lo ≤ c.addr ∧ c.addr + w + c.size ≤ hi
  | [], _, _, h => ⟨Nat.le_of_eq h, fun c hc => (by cases hc)⟩
  | c :: cs, lo, hi, ⟨h, hrest⟩ => by
    obtain ⟨hle, hmem⟩ := hrest.mem
    refine ⟨by omega, fun d hd => ?_⟩
    rcases mem_cons.1 hd with rfl | hd
    · omega
    · have := hmem d hd
      omega

/-- **The cells of a tiling follow one another**, so no two of them meet. -/
theorem Tiles.pairwise : ∀ {cs : List (Cell α)} {lo hi : Nat}, Tiles w lo cs hi →
    cs.Pairwise (fun c d => c.addr + w + c.size ≤ d.addr)
  | [], _, _, _ => List.Pairwise.nil
  | c :: cs, lo, hi, ⟨h, hrest⟩ =>
    List.Pairwise.cons (fun d hd => by have := (hrest.mem.2 d hd).1; omega) hrest.pairwise

theorem Tiles.sum : ∀ {cs : List (Cell α)} {lo hi : Nat}, Tiles w lo cs hi →
    (cs.map (fun c => w + c.size)).sum + lo = hi
  | [], _, _, h => by rwa [map_nil, sum_nil, zero_add]
  | c :: cs, lo, hi, ⟨_, hrest⟩ => by
    have := hrest.sum
    rw [map_cons, sum_cons]
    omega

/-- **Cells that tile an area are determined by it**, when what is linked at an address is. -/
theorem Tiles.determined {R : Cell α → Nat → Nat → Prop} (hw : w ≠ 0)
    (hR : ∀ c d p p' n n', c.addr = d.addr → R c p n → R d p' n' → c = d) :
    ∀ {cs ds : List (Cell α)} {lo hi p p' n n' : Nat}, Linked R p cs n → Tiles w lo cs hi → Linked R p' ds n' →
      Tiles w lo ds hi → cs = ds
  | [], [], _, _, _, _, _, _, _, _, _, _ => rfl
  | [], d :: ds, _, _, _, _, _, _, _, h, _, h' => by
    have := h'.2.mem.1
    have : _ = _ := h
    omega
  | c :: cs, [], _, _, _, _, _, _, _, h, _, h' => by
    have := h.2.mem.1
    have : _ = _ := h'
    omega
  | c :: cs, d :: ds, _, _, _, _, _, _, hl, h, hl', h' => by
    obtain rfl := hR c d _ _ _ _ (h.1.trans h'.1.symm) hl.1 hl'.1
    rw [h.2.determined hw hR hl.2 hl'.2 h'.2]

theorem Tiles.length_le : ∀ {cs : List (Cell α)} {lo hi : Nat}, Tiles w lo cs hi → lo + w * cs.length ≤ hi
  | [], _, _, h => Nat.le_of_eq h
  | c :: cs, lo, hi, ⟨_, hrest⟩ => by
    have := hrest.length_le
    rw [length_cons, mul_succ]
    omega

theorem Tiles.first (h : Tiles w lo cs hi) (hne : cs ≠ []) (n : Nat) : Cell.first cs n = lo := by
  cases cs with
  | nil => exact absurd rfl hne
  | cons c cs => exact h.1

/-- **Cells may be re-cut**, as long as the new ones cover what the old ones did. -/
theorem Tiles.splice {xs ys ys' zs : List (Cell α)} (h : Tiles w lo (xs ++ (ys ++ zs)) hi)
    (hys : ∀ a b, Tiles w a ys b → Tiles w a ys' b) : Tiles w lo (xs ++ (ys' ++ zs)) hi := by
  rw [tiles_append] at h ⊢
  obtain ⟨a, h1, h2⟩ := h
  rw [tiles_append] at h2
  obtain ⟨b, h2, h3⟩ := h2
  exact ⟨a, h1, tiles_append.2 ⟨b, hys a b h2, h3⟩⟩

end Cell
end OS64
