import OS64.PmmInit
import OS64.PmmSpec
/-!
# PmmInitSpec — which pages `pmm_init` leaves free, and what its counter counts

In page numbers: the managed pages are `[l, h)`, the lowest available address rounded up and the highest rounded down.
Releasing clears the pages wholly inside an available region (`Covered`); each reserving walk sets the pages it steps
into (`Hit`).  The counter is decremented once for every page of every region, so it is off by the pages counted more
than once (`Drift`).
-/
namespace OS64

open Nat

def MemoryRegion.Covers (r : MemoryRegion) (p : Nat) : Prop :=
  r.available = true ∧ r.baseAddr ≤ pageSize * p ∧ pageSize * (p + 1) ≤ r.baseAddr + r.length

instance (r : MemoryRegion) (p : Nat) : Decidable (r.Covers p) := inferInstanceAs (Decidable (_ ∧ _ ∧ _))

def MemoryRegion.pagesInside (r : MemoryRegion) : Nat :=
  if r.available then (r.baseAddr + r.length) / pageSize - (r.baseAddr + 4095) / pageSize else 0

/-- Neither the end of the region nor its start rounded up wraps past the address space. -/
def MemoryRegion.NoWrap (r : MemoryRegion) : Prop :=
  r.baseAddr + 4095 < 18446744073709551616 ∧ r.baseAddr + r.length < 18446744073709551616

instance (r : MemoryRegion) : Decidable r.NoWrap := inferInstanceAs (Decidable (_ ∧ _))

/-- A walk from `start` to `stop` in steps of a page steps into page `p`. -/
def Hit (start stop p : Nat) : Prop :=
  ∃ k, start + pageSize * k < stop ∧ pageSize * p ≤ start + pageSize * k ∧ start + pageSize * k < pageSize * (p + 1)

/-- Page `p` and the area `[start, stop)` share an address. -/
def Overlaps (start stop p : Nat) : Prop :=
  ∃ a, start ≤ a ∧ a < stop ∧ pageSize * p ≤ a ∧ a < pageSize * (p + 1)

theorem Hit.overlaps {start stop p : Nat} (h : Hit start stop p) : Overlaps start stop p := by
  obtain ⟨k, h1, h2, h3⟩ := h
  exact ⟨start + pageSize * k, le_add_right _ _, h1, h2, h3⟩

/-- **A walk from a page boundary misses no page of its area.** -/
theorem hit_of_aligned {start stop p : Nat} (hs : start % pageSize = 0) (h : Overlaps start stop p) :
    Hit start stop p := by
  obtain ⟨a, h1, h2, h3, h4⟩ := h
  unfold pageSize at *
  exact ⟨p - start / 4096, by unfold pageSize; omega, by unfold pageSize; omega, by unfold pageSize; omega⟩

namespace Pmm

/-! ## The bounds of the managed range -/

variable {r : MemoryRegion} {h k l n : Nat} {P Q : Nat → Prop} {s t u : Pmm}

theorem boundsStep_spec (b : Nat × Nat) (r : MemoryRegion) : let b' := boundsStep b r
    (b'.1 ≤ b.1 ∧ b.2 ≤ b'.2) ∧
    (r.available = true → b'.1 ≤ r.baseAddr ∧ u64 (r.baseAddr + r.length) ≤ b'.2) ∧
    (b'.1 = b.1 ∨ r.available = true ∧ b'.1 = r.baseAddr) ∧
    (b'.2 = b.2 ∨ r.available = true ∧ b'.2 = u64 (r.baseAddr + r.length)) := by
  unfold boundsStep
  grind

/-- **Every available region lies between the bounds**, and a bound that moved is an end of such a region. -/
theorem foldl_bounds : ∀ (l : List MemoryRegion) (b : Nat × Nat), let b' := l.foldl boundsStep b
    (b'.1 ≤ b.1 ∧ b.2 ≤ b'.2) ∧
    (∀ r ∈ l, r.available = true → b'.1 ≤ r.baseAddr ∧ u64 (r.baseAddr + r.length) ≤ b'.2) ∧
    (b'.1 = b.1 ∨ ∃ r ∈ l, r.available = true ∧ b'.1 = r.baseAddr) ∧
    (b'.2 = b.2 ∨ ∃ r ∈ l, r.available = true ∧ b'.2 = u64 (r.baseAddr + r.length))
  | [], b => ⟨⟨le_rfl, le_rfl⟩, nofun, .inl rfl, .inl rfl⟩
  | r :: l, b => by
    obtain ⟨hle, hmem, hlow, hhigh⟩ := boundsStep_spec b r
    obtain ⟨hle', hmem', hlow', hhigh'⟩ := foldl_bounds l (boundsStep b r)
    refine ⟨⟨hle'.1.trans hle.1, hle.2.trans hle'.2⟩, List.forall_mem_cons.2
      ⟨fun ha => ⟨hle'.1.trans (hmem ha).1, (hmem ha).2.trans hle'.2⟩, hmem'⟩, ?_, ?_⟩
    · rcases hlow' with h | ⟨x, hx, h⟩
      · rw [← h] at hlow
        exact hlow.imp_right (⟨r, .head _, ·⟩)
      · exact .inr ⟨x, .tail _ hx, h⟩
    · rcases hhigh' with h | ⟨x, hx, h⟩
      · rw [← h] at hhigh
        exact hhigh.imp_right (⟨r, .head _, ·⟩)
      · exact .inr ⟨x, .tail _ hx, h⟩

theorem pageUp_eq {x : Nat} (h : x + 4095 < 2 ^ 64) : pageUp x = pageSize * ((x + 4095) / pageSize) := by
  unfold pageUp
  rw [u64_of_lt h, clearLow_eq 12 _ (by decide) h]
  exact mul_comm _ _

theorem clearLow_pages {x : Nat} (h : x < 2 ^ 64) : clearLow 12 x = pageSize * (x / pageSize) := by
  rw [clearLow_eq 12 _ (by decide) h]
  exact mul_comm _ _

def firstPage (regions : List MemoryRegion) : Nat := lowestAddr regions / pageSize

def endPage (regions : List MemoryRegion) : Nat := highestAddr regions / pageSize

theorem regionBounds_lt (regions : List MemoryRegion) : (regionBounds regions).2 < 2 ^ 64 :=
  (foldl_bounds regions _).2.2.2.elim (fun h => h.trans_lt (by decide))
    (by rintro ⟨r, -, -, h⟩; exact h.trans_lt (u64_lt _))

theorem highestAddr_eq (regions : List MemoryRegion) : highestAddr regions = pageSize * endPage regions ∧
    endPage regions = (regionBounds regions).2 / pageSize := by
  have hlt := regionBounds_lt regions
  have hval : highestAddr regions = pageSize * ((regionBounds regions).2 / pageSize) := by
    unfold highestAddr
    simp only
    split
    · exact clearLow_pages hlt
    · unfold pageSize at *; omega
  unfold endPage
  rw [hval]
  unfold pageSize
  omega

/-- **No available region**: the managed range is empty. -/
theorem lowestAddr_none {regions : List MemoryRegion} (h : ∀ r ∈ regions, r.available = false) :
    lowestAddr regions = 0 ∧ highestAddr regions = 0 := by
  obtain ⟨-, -, hlow, hhigh⟩ := foldl_bounds regions (18446744073709551615, 0)
  have hno : ∀ P : MemoryRegion → Prop, ¬ ∃ r ∈ regions, r.available = true ∧ P r := by
    rintro P ⟨r, hr, ha, -⟩
    exact absurd ha (by rw [h r hr]; decide)
  have hb : regionBounds regions = (18446744073709551615, 0) :=
    Prod.ext (hlow.resolve_right (hno _)) (hhigh.resolve_right (hno _))
  unfold lowestAddr highestAddr
  rw [hb]
  exact ⟨rfl, rfl⟩

theorem lowestAddr_some {regions : List MemoryRegion} (hr : r ∈ regions) (ha : r.available = true)
    (hw : r.NoWrap) : lowestAddr regions = pageSize * firstPage regions ∧
      firstPage regions = ((regionBounds regions).1 + 4095) / pageSize := by
  have hle : (regionBounds regions).1 ≤ _ := ((foldl_bounds regions _).2.1 r hr ha).1
  have hlt : (regionBounds regions).1 + 4095 < 2 ^ 64 := by
    unfold MemoryRegion.NoWrap at hw
    omega
  have hval : lowestAddr regions = pageSize * (((regionBounds regions).1 + 4095) / pageSize) := by
    unfold lowestAddr
    simp only
    split
    · exact pageUp_eq hlt
    · unfold pageSize at *; omega
  unfold firstPage
  rw [hval]
  unfold pageSize
  omega

/-! ## One step of a walk -/

structure Manages (l h : Nat) (s : Pmm) : Prop where
  base : s.baseAddr = pageSize * l
  total : s.totalPages = h - l
  le : l ≤ h
  fits : h - l ≤ 536870912

theorem Manages.frame (hm : Manages l h s) (hf : SameFrame s t) : Manages l h t :=
  ⟨hf.base.trans hm.base, hf.total.trans hm.total, hm.le, hm.fits⟩

theorem Manages.fits' (hm : Manages l h s) : s.Fits := by
  unfold Fits
  rw [hm.total]
  exact hm.fits

theorem Manages.index {addr : Nat} (hm : Manages l h s) (hl : pageSize * l ≤ addr) (hh : addr < pageSize * h) :
    u32 ((addr - s.baseAddr) / pageSize) = addr / pageSize - l ∧ addr / pageSize - l < s.totalPages := by
  rw [hm.base, hm.total]
  have hfits := hm.fits
  have hidx : (addr - pageSize * l) / pageSize = addr / pageSize - l := by unfold pageSize at *; omega
  have hlt : addr / pageSize - l < h - l := by unfold pageSize at *; omega
  rw [hidx, u32_of_lt (by omega)]
  exact ⟨rfl, hlt⟩

/-- The counter, with the `K` pages counted down, agrees modulo its width with the pages in use and the `C` free
ones. -/
def Drift (K C : Nat) (s : Pmm) : Prop :=
  (s.usedPages + K) % 4294967296 = (numSet s.used s.totalPages + C) % 4294967296

/-- From `s` to `t` the pages with `P` were marked, with the counter keeping up. -/
structure Marks (l h : Nat) (P : Nat → Prop) (s t : Pmm) : Prop where
  frame : SameFrame s t
  used : ∀ j, j < h - l → (t.used j = true ↔ s.used j = true ∨ P (l + j))
  drift : ∀ K C, Drift K C s → Drift K C t

theorem Marks.congr (hs : Marks l h P s t) (hPQ : ∀ p, P p ↔ Q p) : Marks l h Q s t :=
  ⟨hs.frame, fun j hj => (hs.used j hj).trans (or_congr_right (hPQ _)), hs.drift⟩

theorem Marks.trans (hs : Marks l h P s t) (ht : Marks l h Q t u) : Marks l h (fun p => P p ∨ Q p) s u :=
  ⟨hs.frame.trans ht.frame, fun j hj => by rw [ht.used j hj, hs.used j hj, or_assoc],
    fun K C hK => ht.drift K C (hs.drift K C hK)⟩

theorem Marks.same (hP : ∀ j, j < h - l → P (l + j) → s.used j = true) : Marks l h P s s :=
  ⟨SameFrame.rfl' s, fun j hj => ⟨.inl, fun hu => hu.elim id (hP j hj)⟩, fun _ _ hK => hK⟩

theorem reservePage_spec (hm : Manages l h s) (addr : Nat) :
    Marks l h (fun p => addr / pageSize = p) s (reservePage (pageSize * l) (pageSize * h) addr s) := by
  unfold reservePage
  by_cases hin : addr ≥ pageSize * l ∧ addr < pageSize * h
  · obtain ⟨hidx, hlt⟩ := hm.index hin.1 hin.2
    have hq : l ≤ addr / pageSize := by unfold pageSize at *; omega
    simp only [if_pos hin, hidx, if_pos hlt]
    generalize hi : addr / pageSize - l = i at hlt
    cases hu : maskTest (s.bits (i / 8)) (i % 8) with
    | true =>
      refine .same (fun j hj hp => ?_)
      obtain rfl : j = i := by omega
      exact hu
    | false =>
      simp only [Bool.not_false, if_true]
      have hused : ∀ j, (s.setByte (i / 8) (maskSet (s.bits (i / 8)) (i % 8))).incUsed.used j =
          (s.used j || decide (j = i)) := fun j => by
        rw [incUsed_used, used_set _ _ _ _ (mod_lt i (by decide)), page_split]
      refine ⟨⟨rfl, rfl, rfl⟩, fun j hj => ?_, fun K C hK => ?_⟩
      · rw [hused, Bool.or_eq_true, decide_eq_true_eq]
        exact or_congr Iff.rfl (by omega)
      have hcount : numSet (s.setByte (i / 8) (maskSet (s.bits (i / 8)) (i % 8))).incUsed.used s.totalPages =
          numSet s.used s.totalPages + 1 := by
        refine numSet_flip hlt hu ?_ (fun j _ hj => ?_)
        · rw [hused]; simp
        · rw [hused]; simp [hj]
      unfold Drift at *
      show (u32 (s.usedPages + 1) + K) % _ = (numSet _ s.totalPages + C) % _
      unfold u32
      omega
  · rw [if_neg hin]
    refine .same (fun j hj hp => ?_)
    unfold pageSize at *
    omega

theorem walk_turn {start stop : Nat} : k < (stop - start + 4095) / pageSize ↔ start + pageSize * k < stop := by
  unfold pageSize; omega

theorem page_of_addr {a p : Nat} : a / pageSize = p ↔ pageSize * p ≤ a ∧ a < pageSize * (p + 1) := by
  unfold pageSize; omega

theorem walk_rule {f : Nat → Pmm → Pmm} (start stop : Nat) (I : Nat → Pmm → Prop) (h0 : I 0 s)
    (hstep : ∀ k t, start + pageSize * k < stop → I k t → I (k + 1) (f (start + pageSize * k) t)) :
    I ((stop - start + 4095) / pageSize) (walk f start stop s) := by
  have hloop := forLoop_rule (α := Empty) (f := fun k s => (f (start + pageSize * k) s, .next)) I
    (E := I ((stop - start + 4095) / pageSize)) (Q := fun _ _ => False) ((stop - start + 4095) / pageSize) 0 s h0
    (fun t ht => by rwa [zero_add] at ht)
    (fun k t _ hk ht => hstep k t (walk_turn.1 (by rwa [zero_add] at hk)) ht)
  unfold walk
  exact hloop.cases (fun _ h => h) (fun _ a => a.elim)

/-- **A reserving walk marks exactly the pages it steps into**, with the counter keeping up. -/
theorem walk_reserve (start stop : Nat) (hm : Manages l h s) :
    Marks l h (Hit start stop) s (walk (reservePage (pageSize * l) (pageSize * h)) start stop s) := by
  have hwalk := walk_rule start stop
    (fun k t => Marks l h (fun p => ∃ i < k, (start + pageSize * i) / pageSize = p) s t)
    (.same (fun _ _ => by rintro ⟨i, hi, -⟩; omega))
    (fun k t _ ht => (ht.trans (reservePage_spec (hm.frame ht.frame) _)).congr (fun _ => exists_lt_succ_right.symm))
  exact hwalk.congr (fun p => exists_congr (fun i => and_congr walk_turn page_of_addr))

/-- From `s` to `t` the pages with `P` were freed, with the counter going down by `n`. -/
structure Frees (l h : Nat) (P : Nat → Prop) (n : Nat) (s t : Pmm) : Prop where
  frame : SameFrame s t
  used : ∀ j, j < h - l → (t.used j = true ↔ s.used j = true ∧ ¬ P (l + j))
  count : (t.usedPages + n) % 4294967296 = s.usedPages % 4294967296

theorem Frees.congr (hs : Frees l h P n s t) (hPQ : ∀ p, P p ↔ Q p) : Frees l h Q n s t :=
  ⟨hs.frame, fun j hj => (hs.used j hj).trans (and_congr_right' (not_congr (hPQ _))), hs.count⟩

theorem Frees.trans (hs : Frees l h P n s t) (ht : Frees l h Q k t u) : Frees l h (fun p => P p ∨ Q p) (n + k) s u :=
  ⟨hs.frame.trans ht.frame, fun j hj => by rw [ht.used j hj, hs.used j hj, and_assoc, not_or],
    by have := hs.count; have := ht.count; omega⟩

theorem Frees.same (hP : ∀ p, ¬ P p) : Frees l h P 0 s s :=
  ⟨SameFrame.rfl' s, fun _ _ => (and_iff_left (hP _)).symm, rfl⟩

theorem releasePage_spec {addr : Nat} (hm : Manages l h s) (hl : pageSize * l ≤ addr) (hh : addr < pageSize * h) :
    Frees l h (fun p => addr / pageSize = p) 1 s (releasePage (pageSize * l) (pageSize * h) addr s) := by
  obtain ⟨hidx, hlt⟩ := hm.index hl hh
  have hq : l ≤ addr / pageSize := by unfold pageSize at *; omega
  unfold releasePage
  simp only [if_pos (show addr ≥ pageSize * l ∧ addr < pageSize * h from ⟨hl, hh⟩), hidx, if_pos hlt]
  refine ⟨⟨rfl, rfl, rfl⟩, fun j hj => ?_, ?_⟩
  · rw [decUsed_used, used_clear _ _ _ _ (mod_lt _ (by decide)), Bool.and_eq_true, Bool.not_eq_true',
      decide_eq_false_iff_not]
    exact and_congr Iff.rfl (not_congr (by omega))
  · simp only [decUsed, setByte_usedPages, u32]
    omega

theorem region_walk (hw : r.NoWrap) : pageUp r.baseAddr = pageSize * ((r.baseAddr + 4095) / pageSize) ∧
    clearLow 12 (u64 (r.baseAddr + r.length)) = pageSize * ((r.baseAddr + r.length) / pageSize) := by
  unfold MemoryRegion.NoWrap at hw
  rw [pageUp_eq (by omega), u64_of_lt (by omega), clearLow_pages (by omega)]
  exact ⟨rfl, rfl⟩

/-- **Releasing a region frees exactly the pages wholly inside it**, and counts each of them down once. -/
theorem releaseRegion_spec (hm : Manages l h s)
    (hr : r.available = true → r.NoWrap ∧ l ≤ (r.baseAddr + 4095) / pageSize ∧ (r.baseAddr + r.length) / pageSize ≤ h) :
    Frees l h r.Covers r.pagesInside s (releaseRegion (pageSize * l) (pageSize * h) s r) := by
  unfold releaseRegion MemoryRegion.pagesInside
  by_cases ha : r.available = true
  · obtain ⟨hw, hlo, hhi⟩ := hr ha
    obtain ⟨hstart, hstop⟩ := region_walk hw
    rw [if_pos ha, if_pos ha, hstart, hstop]
    have hcov : ∀ p, (r.baseAddr + 4095) / pageSize ≤ p ∧ p < (r.baseAddr + r.length) / pageSize ↔ r.Covers p :=
        fun p => by
      unfold MemoryRegion.Covers pageSize
      rw [and_iff_right ha]
      omega
    generalize (r.baseAddr + 4095) / pageSize = A at *
    generalize (r.baseAddr + r.length) / pageSize = B at *
    have hwalk := walk_rule (pageSize * A) (pageSize * B)
      (fun k t => Frees l h (fun p => A ≤ p ∧ p < A + k) k s t) (.same (fun _ => by omega)) (fun k t hk ht => by
        have hpage : (pageSize * A + pageSize * k) / pageSize = A + k := by unfold pageSize; omega
        refine (ht.trans (releasePage_spec (hm.frame ht.frame) ?_ ?_)).congr (fun p => by omega)
        all_goals unfold pageSize at *; omega)
    have hn : (pageSize * B - pageSize * A + 4095) / pageSize = B - A := by unfold pageSize; omega
    rw [hn] at hwalk
    exact hwalk.congr (fun p => (by omega : _ ↔ A ≤ p ∧ p < B).trans (hcov p))
  · rw [if_neg ha, if_neg ha]
    exact .same (fun _ hc => ha hc.1)

/-- **Step 7**: the pages of the available regions are free, and the counter went down once for every page of every
region. -/
theorem releaseRegions_spec : ∀ (regions : List MemoryRegion) (s : Pmm), Manages l h s →
    (∀ r ∈ regions, r.available = true →
      r.NoWrap ∧ l ≤ (r.baseAddr + 4095) / pageSize ∧ (r.baseAddr + r.length) / pageSize ≤ h) →
    Frees l h (fun p => ∃ r ∈ regions, r.Covers p) (regions.map MemoryRegion.pagesInside).sum s
      (regions.foldl (releaseRegion (pageSize * l) (pageSize * h)) s)
  | [], s, _, _ => .same (fun _ => by simp)
  | r :: regions, s, hm, hr => by
    have hone := releaseRegion_spec hm (hr r (.head _))
    have hrest := releaseRegions_spec regions _ (hm.frame hone.frame) (List.forall_mem_cons.1 hr).2
    exact (hone.trans hrest).congr (fun p => (List.exists_mem_cons_iff (·.Covers p) r regions).symm)

end Pmm
end OS64
