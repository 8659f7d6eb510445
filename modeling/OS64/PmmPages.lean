import OS64.PmmInitSpec
import OS64.PmmRun
/-!
# PmmPages — the pages one by one

The page allocator takes the free pages in order (`pmmAllocPage_pages`), and freeing an address frees the page it hits,
if any (`pmmFreePage_used`).  Both move the counter with the bits (`KeepsCount`).
-/
namespace OS64

open List Bool Nat
namespace Pmm

variable {s s' t : Pmm} {i : Nat}

def freePages (s : Pmm) : List Nat := (List.range s.totalPages).filter (fun i => !s.used i)

theorem mem_freePages : i ∈ s.freePages ↔ i < s.totalPages ∧ s.used i = false := by
  unfold freePages
  rw [mem_filter, mem_range, not_eq_true']

theorem freePages_nodup (s : Pmm) : s.freePages.Nodup := nodup_range.filter _

theorem freePages_take (ht : Takes s s' i 1) (hlow : ∀ j, j < i → s.used j = true) :
    s.freePages = i :: s'.freePages := by
  obtain ⟨k, hk⟩ : ∃ k, s.totalPages = i + 1 + k := Nat.exists_eq_add_of_le ht.bound
  have hfree : s.used i = false := ht.free i (le_refl i) (lt_succ_self i)
  have hother : ∀ j, j ≠ i → s'.used j = s.used j := fun j hj => by
    rw [ht.used j, decide_eq_false (by omega), Bool.or_false]
  have hbelow : ∀ u : Nat → Bool, (∀ j, j < i → u j = true) → (List.range i).filter (fun j => !u j) = [] :=
      fun u hu => by
    refine filter_eq_nil_iff.2 (fun j hj => ?_)
    rw [hu j (mem_range.1 hj)]
    exact false_ne_true
  have hself : s'.used i = true := by rw [ht.used i, decide_eq_true (by omega), Bool.or_true]
  have habove : ((List.range k).map (i + 1 + ·)).filter (fun j => !s'.used j) =
      ((List.range k).map (i + 1 + ·)).filter (fun j => !s.used j) := by
    refine filter_congr (fun j hj => ?_)
    obtain ⟨x, -, rfl⟩ := mem_map.1 hj
    rw [hother _ (by omega)]
  unfold freePages
  rw [ht.frame.total, hk, range_add, range_succ, filter_append, filter_append, filter_append,
    filter_append, hbelow s.used hlow, hbelow s'.used (fun j hj => by rw [hother j (by omega)]; exact hlow j hj),
    habove]
  have h1 : [i].filter (fun j => !s.used j) = [i] := by rw [filter_cons, hfree]; rfl
  have h2 : [i].filter (fun j => !s'.used j) = [] := by rw [filter_cons, hself]; rfl
  rw [h1, h2]
  rfl

/-! ## The counter -/

structure KeepsCount (s s' : Pmm) : Prop where
  drift : ∀ k c, Drift k c s → Drift k c s'
  lt : s.usedPages < 4294967296 → s'.usedPages < 4294967296

theorem KeepsCount.rfl' (s : Pmm) : KeepsCount s s := ⟨fun _ _ h => h, id⟩

theorem KeepsCount.trans {u : Pmm} (h : KeepsCount s t) (h' : KeepsCount t u) : KeepsCount s u :=
  ⟨fun k c hd => h'.drift k c (h.drift k c hd), fun hl => h'.lt (h.lt hl)⟩

theorem KeepsCount.eq (h : KeepsCount s s') (hframe : SameFrame s s') (hlt : s.usedPages < 2 ^ 32)
    (hused : ∀ i, i < s.totalPages → s'.used i = s.used i) : s'.usedPages = s.usedPages := by
  have hd := h.drift (numSet s.used s.totalPages) s.usedPages (by unfold Drift; rw [add_comm])
  have hlt' := h.lt hlt
  unfold Drift at hd
  rw [hframe.total, numSet_congr hused] at hd
  omega

theorem keepsCount_take (ht : Takes s s' i 1) (hu : s'.usedPages = u32 (s.usedPages + 1)) : KeepsCount s s' := by
  refine ⟨fun k c h => ?_, fun _ => by rw [hu]; exact mod_lt _ (by decide)⟩
  have hfree : s.used i = false := ht.free i (le_refl i) (lt_succ_self i)
  have hcount : numSet s'.used s.totalPages = numSet s.used s.totalPages + 1 := by
    refine numSet_flip ht.bound hfree ?_ (fun j _ hj => ?_)
    · rw [ht.used i, decide_eq_true (by omega), Bool.or_true]
    · rw [ht.used j, decide_eq_false (by omega), Bool.or_false]
  unfold Drift at *
  rw [hu, ht.frame.total]
  unfold u32
  omega

/-- **The page allocator takes the first of the free pages**, or finds none. -/
theorem pmmAllocPage_pages (hf : s.Fits) (hp : s.bitmap ≠ 0) :
    (∃ i, s.freePages = i :: s.pmmAllocPage.1.freePages ∧ Takes s s.pmmAllocPage.1 i 1 ∧
      s.pmmAllocPage.2 = s.pageAddr i ∧ KeepsCount s s.pmmAllocPage.1) ∨
    (s.freePages = [] ∧ s.pmmAllocPage.2 = 0 ∧ SameFrame s s.pmmAllocPage.1 ∧
      (∀ j, j < s.totalPages → s.pmmAllocPage.1.used j = s.used j) ∧ s.pmmAllocPage.1.usedPages = s.usedPages) := by
  rcases pmmAllocPage_spec hf hp with ⟨⟨i, ht, hlow, ha⟩, hu⟩ | ⟨hnull, hinv, hu⟩
  · exact .inl ⟨i, freePages_take ht hlow, ht, ha, keepsCount_take ht hu⟩
  refine .inr ⟨?_, hnull, hinv.frame, hinv.low, hu⟩
  refine eq_nil_iff_forall_not_mem.2 (fun j hj => ?_)
  obtain ⟨hjt, hj⟩ := mem_freePages.1 hj
  rw [hinv.full j hjt hjt] at hj
  cases hj

/-! ## No free page -/

/-- The search with no page to be found has set every bit below `n`. -/
structure Filled (s t : Pmm) (n : Nat) : Prop where
  frame : SameFrame s t
  used : ∀ j, t.used j = (s.used j || decide (j < n))

theorem Filled.step {t' : Pmm} {n : Nat} (h : Filled s t n) (hframe : SameFrame t t')
    (hused : ∀ j, t'.used j = (t.used j || decide (j = n))) : Filled s t' (n + 1) := by
  refine ⟨h.frame.trans hframe, fun j => ?_⟩
  rw [hused, h.used, Bool.or_assoc, ← Bool.decide_or]
  exact congrArg (s.used j || ·) (decide_eq_decide.2 (by omega))

theorem Filled.skip {n : Nat} (h : Filled s t n) (hset : t.used n = true) : Filled s t (n + 1) := by
  refine h.step (SameFrame.rfl' t) (fun j => ?_)
  by_cases hj : j = n
  · rw [hj, hset, Bool.true_or]
  · rw [decide_eq_false hj, Bool.or_false]

/-- **The search that finds no page** sets the bits behind the last page. -/
theorem pmmAllocPage_full {s : Pmm} (hf : s.Fits) (hp : s.bitmap ≠ 0) (hnil : s.freePages = []) :
    Filled s s.pmmAllocPage.1 (8 * s.bitmapBytes) := by
  have hfull : ∀ j, j < s.totalPages → s.used j = true := fun j hj => by
    by_contra hfree
    have hmem := mem_freePages.2 ⟨hj, eq_false_iff.2 hfree⟩
    rw [hnil] at hmem
    cases hmem
  have hrule := pmmAllocPage_rule (I := fun n t => Filled s t n) (Q := fun _ _ => False) hf (fun _ _ h => h.frame.total)
    (fun _ _ h hset => h.skip hset)
    (fun b k t hk h hfree hlt => by
      have hused := (used_byte t b k hk).trans hfree
      rw [h.used, hfull _ hlt] at hused
      cases hused)
    (fun b k t hk h _ _ => h.step ⟨rfl, rfl, rfl⟩ (fun j => used_set t b k j hk)) hp
    ⟨SameFrame.rfl' s, fun j => by rw [decide_eq_false (not_lt_zero j), Bool.or_false]⟩
  exact (hrule.resolve_left id).2

theorem bits_eq_iff {s s' : Pmm} : s'.bits = s.bits ↔ ∀ i, s'.used i = s.used i := by
  constructor
  · intro h i
    unfold used
    rw [h]
  intro h
  funext b
  refine BitVec.eq_of_getLsbD_eq (fun k hk => ?_)
  rw [← maskTest_eq _ k hk, ← maskTest_eq _ k hk, ← used_byte s' b k hk, ← used_byte s b k hk]
  exact h _

/-! ## Freeing -/

/-- The page that freeing the address `a` concerns: the index is taken in 32 bits. -/
def Hits (s : Pmm) (a i : Nat) : Prop :=
  a ≠ 0 ∧ s.baseAddr ≤ a ∧ i < s.totalPages ∧ (a - s.baseAddr) / pageSize % 4294967296 = i

instance (s : Pmm) (a i : Nat) : Decidable (s.Hits a i) := inferInstanceAs (Decidable (_ ∧ _ ∧ _ ∧ _))

theorem hits_frame {s s' : Pmm} (h : SameFrame s s') (a i : Nat) : s'.Hits a i ↔ s.Hits a i := by
  unfold Hits
  rw [h.base, h.total]

/-- **`pmm_free_page`** of the address of a page. -/
theorem pmmFreePage_used {s : Pmm} (hp : s.bitmap ≠ 0) {a : Nat} (ha : a % 4096 = 0) (hlt : a < 18446744073709551616) :
    SameFrame s (s.pmmFreePage a) ∧ (∀ i, (s.pmmFreePage a).used i = (s.used i && !decide (s.Hits a i))) ∧
      KeepsCount s (s.pmmFreePage a) := by
  have hu : u64 a = a := mod_eq_of_lt hlt
  have hclear : clearLow 12 (u64 a) = a := by
    rw [clearLow_page]
    omega
  -- no page in use is hit
  have hmiss : (∀ i, s.Hits a i → s.used i = false) → s.pmmFreePage a = s →
      SameFrame s (s.pmmFreePage a) ∧ (∀ i, (s.pmmFreePage a).used i = (s.used i && !decide (s.Hits a i))) ∧
        KeepsCount s (s.pmmFreePage a) := fun hno heq => by
    rw [heq]
    refine ⟨SameFrame.rfl' s, fun i => ?_, KeepsCount.rfl' s⟩
    by_cases hi : s.Hits a i
    · rw [hno i hi, Bool.false_and]
    · rw [decide_eq_false hi, Bool.not_false, Bool.and_true]
  by_cases h0 : a = 0
  · refine hmiss (fun i h => absurd h0 h.1) ?_
    unfold pmmFreePage
    rw [if_pos (.inr (hu.trans h0))]
  by_cases hb : a < s.baseAddr
  · refine hmiss (fun i h => absurd h.2.1 (Nat.not_le_of_lt hb)) ?_
    unfold pmmFreePage
    rw [if_neg (by rw [hu]; exact not_or.2 ⟨hp, h0⟩), hclear, if_pos hb]
  have hidx : u32 ((a - s.baseAddr) / pageSize) = (a - s.baseAddr) / pageSize % 4294967296 := rfl
  have hcode : s.pmmFreePage a = if u32 ((a - s.baseAddr) / pageSize) ≥ s.totalPages then s
      else if maskTest (s.bits (u32 ((a - s.baseAddr) / pageSize) / 8)) (u32 ((a - s.baseAddr) / pageSize) % 8) then
        (s.setByte (u32 ((a - s.baseAddr) / pageSize) / 8)
          (maskClear (s.bits (u32 ((a - s.baseAddr) / pageSize) / 8)) (u32 ((a - s.baseAddr) / pageSize) % 8))).decUsed
      else s := by
    unfold pmmFreePage
    rw [if_neg (by rw [hu]; exact not_or.2 ⟨hp, h0⟩), hclear, if_neg hb]
  generalize hj : u32 ((a - s.baseAddr) / pageSize) = j at hcode hidx
  have hhits : ∀ i, s.Hits a i ↔ i = j ∧ j < s.totalPages := fun i => by
    unfold Hits
    rw [← hidx]
    refine ⟨fun h => ⟨h.2.2.2.symm, h.2.2.2 ▸ h.2.2.1⟩, fun h => ⟨h0, not_lt.1 hb, h.1 ▸ h.2, h.1.symm⟩⟩
  by_cases hjt : j ≥ s.totalPages
  · refine hmiss (fun i h => absurd ((hhits i).1 h).2 (Nat.not_lt_of_le hjt)) ?_
    rw [hcode, if_pos hjt]
  have hjt' : j < s.totalPages := not_le.1 hjt
  have hj8 : j % 8 < 8 := mod_lt j (by decide)
  rw [if_neg hjt] at hcode
  cases hset : maskTest (s.bits (j / 8)) (j % 8) with
  | false =>
    refine hmiss (fun i h => ?_) ?_
    · rwa [((hhits i).1 h).1]
    · rw [hcode, hset, if_neg Bool.false_ne_true]
  | true =>
    have hused : s.used j = true := hset
    rw [hset, if_pos rfl] at hcode
    rw [hcode]
    have hbits : ∀ i, (s.setByte (j / 8) (maskClear (s.bits (j / 8)) (j % 8))).decUsed.used i =
        (s.used i && !decide (i = j)) := fun i => by
      rw [decUsed_used, used_clear _ _ _ _ hj8, page_split]
    refine ⟨⟨rfl, rfl, rfl⟩, fun i => ?_, fun k c h => ?_, fun _ => mod_lt _ (by decide)⟩
    · rw [hbits i]
      congr 2
      exact decide_eq_decide.2 ((hhits i).trans (and_iff_left hjt')).symm
    have hcount : numSet s.used s.totalPages =
        numSet (s.setByte (j / 8) (maskClear (s.bits (j / 8)) (j % 8))).decUsed.used s.totalPages + 1 := by
      refine numSet_flip hjt' ?_ hused (fun i _ hi => ?_)
      · rw [hbits j, decide_eq_true rfl, Bool.not_true, Bool.and_false]
      · rw [hbits i, decide_eq_false hi, Bool.not_false, Bool.and_true]
    unfold Drift at *
    change (u32 (s.usedPages + 4294967295) + k) % _ = (numSet _ s.totalPages + c) % _
    unfold u32
    omega

theorem freeAll_used : ∀ (l : List Nat) {s : Pmm}, s.bitmap ≠ 0 → (∀ a ∈ l, a % 4096 = 0 ∧ a < 2 ^ 64) →
    SameFrame s (l.foldl pmmFreePage s) ∧
      (∀ i, (l.foldl pmmFreePage s).used i = (s.used i && !decide (∃ a ∈ l, s.Hits a i))) ∧
      KeepsCount s (l.foldl pmmFreePage s)
  | [], s, _, _ => by
    refine ⟨SameFrame.rfl' s, fun i => ?_, KeepsCount.rfl' s⟩
    rw [decide_eq_false (fun ⟨a, ha, _⟩ => not_mem_nil ha), Bool.not_false, Bool.and_true]
    rfl
  | a :: l, s, hp, hl => by
    obtain ⟨ha, hlt⟩ := hl a (.head _)
    obtain ⟨hframe, hused, hdrift⟩ := pmmFreePage_used hp ha hlt
    obtain ⟨hframe', hused', hdrift'⟩ := freeAll_used l (by rwa [hframe.bitmap])
      (fun b hb => hl b (mem_cons_of_mem a hb))
    refine ⟨hframe.trans hframe', fun i => ?_, hdrift.trans hdrift'⟩
    rw [foldl_cons, hused' i, hused i, Bool.and_assoc, ← Bool.not_or, ← Bool.decide_or]
    congr 2
    refine decide_eq_decide.2 ⟨?_, ?_⟩
    · rintro (h | ⟨b, hb, h⟩)
      · exact ⟨a, .head _, h⟩
      · exact ⟨b, mem_cons_of_mem a hb, (hits_frame hframe b i).1 h⟩
    · rintro ⟨b, hb, h⟩
      rcases mem_cons.1 hb with rfl | hb
      · exact .inl h
      · exact .inr ⟨b, hb, (hits_frame hframe b i).2 h⟩

end Pmm
end OS64
