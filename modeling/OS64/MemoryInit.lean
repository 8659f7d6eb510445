import OS64.PmmInitFree
import OS64.PmmRun
/-!
# MemoryInit — `memory_init`: the page allocator and the heap brought up from one memory map

The heap is given the range from `_heap_start` up to a megabyte below the total memory when that is less than 512 MiB
long, and the linker's area otherwise; nothing reserves that range in the page allocator.  `heapApart_iff` says on which
machines the two still do not meet.
-/
namespace OS64

/-- The ranges `[a, b)` and `[c, d)` share an address. -/
def Meets (a b c d : Nat) : Prop := ∃ x, a ≤ x ∧ x < b ∧ c ≤ x ∧ x < d

namespace Pmm

/-- The range handed to `malloc_init`: its start and its length. -/
def heapArea (info : Multiboot2Info) (syms : KernelSyms) : Nat × Nat :=
  let heapStart := syms.heapStart
  let totalmem := multiboot2GetTotalMemory info
  let reserved := 1024 * 1024
  let heapEnd := sub64 totalmem reserved
  let heapSize := sub64 heapEnd heapStart
  if heapSize > 0 ∧ heapSize < 512 * 1024 * 1024 then (heapStart, heapSize)
  else (syms.heapStart, sub64 syms.heapEnd syms.heapStart)

/-- `memory_init`: the allocator's record and the arguments of `malloc_init`.  `paging_init` only reads `cr3`. -/
def memoryInit (info : Multiboot2Info) (syms : KernelSyms) (mb2Addr mb2Size : Nat) : Pmm × (Nat × Nat) :=
  (pmmInit info syms mb2Addr mb2Size, heapArea info syms)

/-- **The allocator and the range `[lo, hi)` have nothing in common**: no free page meets it, and no page or range that
a later run of allocations hands out does. -/
def HeapApart (s : Pmm) (lo hi : Nat) : Prop :=
  (∀ j, j < s.totalPages → s.used j = false →
    ¬ Meets (s.baseAddr + pageSize * j) (s.baseAddr + pageSize * (j + 1)) lo hi) ∧
  ∀ t, AllocRun s t →
    ((t.exec .allocPage).2 ≠ 0 → ¬ Meets (t.exec .allocPage).2 ((t.exec .allocPage).2 + pageSize) lo hi) ∧
    ∀ n, (t.exec (.allocRange n)).2 ≠ 0 →
      ¬ Meets (t.exec (.allocRange n)).2 ((t.exec (.allocRange n)).2 + pageSize * u32 n) lo hi

/-! ## A record's later runs -/

theorem AllocRun.keeps {s₀ s : Pmm} (hf : s₀.Fits) (h : AllocRun s₀ s) :
    SameFrame s₀ s ∧ ∀ j, j < s₀.totalPages → s₀.used j = true → s.used j = true := by
  have hstep : ∀ (s : Pmm) (op : Op), (∀ a n, op ≠ .freePage a ∧ op ≠ .freeRange a n) →
      (SameFrame s₀ s ∧ ∀ j, j < s₀.totalPages → s₀.used j = true → s.used j = true) →
      SameFrame s₀ (s.exec op).1 ∧ ∀ j, j < s₀.totalPages → s₀.used j = true → (s.exec op).1.used j = true := by
    intro s op hop ih
    have hfs := ih.1.fits hf
    rcases exec_alloc hfs op hop with ⟨i, -, ht, -⟩ | ⟨-, hframe, hused⟩
    · exact ⟨ih.1.trans ht.frame, fun j hj hu => by rw [ht.used, ih.2 j hj hu, Bool.true_or]⟩
    · exact ⟨ih.1.trans hframe, fun j hj hu => by rw [hused j (by rwa [ih.1.total])]; exact ih.2 j hj hu⟩
  induction h with
  | start => exact ⟨SameFrame.rfl' s₀, fun _ _ h => h⟩
  | page _ ih => exact hstep _ .allocPage (fun _ _ => ⟨nofun, nofun⟩) ih
  | range n _ ih => exact hstep _ (.allocRange n) (fun _ _ => ⟨nofun, nofun⟩) ih

theorem AllocRun.hands {s₀ s : Pmm} (hf : s₀.Fits) (h : AllocRun s₀ s) (op : Op)
    (hop : ∀ a n, op ≠ .freePage a ∧ op ≠ .freeRange a n) (hne : (s.exec op).2 ≠ 0) :
    ∃ i, 0 < op.pages ∧ i + op.pages ≤ s₀.totalPages ∧ (∀ j, i ≤ j → j < i + op.pages → s₀.used j = false) ∧
      (s.exec op).2 = s₀.pageAddr i := by
  obtain ⟨hframe, hkeep⟩ := h.keeps hf
  have hfs := hframe.fits hf
  rcases exec_alloc hfs op hop with ⟨i, hn, ht, ha⟩ | ⟨ha, -, -⟩
  · have hbound : i + op.pages ≤ s₀.totalPages := by rw [← hframe.total]; exact ht.bound
    refine ⟨i, hn, hbound, fun j hj hj' => Bool.eq_false_iff.2 (fun hu => ?_), by rw [ha, pageAddr_frame hframe]⟩
    have := ht.free j hj hj'
    rw [hkeep j (by omega) hu] at this
    cases this
  · exact absurd ha hne

/-- **A record is apart from a range exactly when** its free pages are and so is every free range taken at the address
the 32-bit product gives it. -/
theorem heapApart_record {s : Pmm} (hf : s.Fits) {lo hi : Nat} : HeapApart s lo hi ↔
      (∀ j, j < s.totalPages → s.used j = false →
        ¬ Meets (s.baseAddr + pageSize * j) (s.baseAddr + pageSize * (j + 1)) lo hi) ∧
      ∀ i n, 0 < n → i + n ≤ s.totalPages → (∀ j, i ≤ j → j < i + n → s.used j = false) → s.pageAddr i ≠ 0 →
        ¬ Meets (s.pageAddr i) (s.pageAddr i + pageSize * n) lo hi := by
  refine and_congr Iff.rfl ⟨fun h i n hn hi hfree hne => ?_, fun h t ht => ⟨fun hne => ?_, fun n hne => ?_⟩⟩
  · obtain ⟨t, ht, -, -, haddr⟩ := allocRun_hands hf hn hi hfree
    have htot : s.totalPages ≤ 2 ^ 29 := hf
    have hmeet := (h t ht).2 n (by rwa [haddr])
    rwa [haddr, u32_of_lt (by omega)] at hmeet
  · obtain ⟨i, hn, hi, hfree, haddr⟩ := ht.hands hf .allocPage (fun _ _ => ⟨nofun, nofun⟩) hne
    rw [haddr] at hne ⊢
    exact h i 1 hn hi hfree hne
  · obtain ⟨i, hn, hi, hfree, haddr⟩ := ht.hands hf (.allocRange n) (fun _ _ => ⟨nofun, nofun⟩) hne
    rw [haddr] at hne ⊢
    exact h i (u32 n) hn hi hfree hne

theorem exec_noBytes {s : Pmm} (h : s.bitmapBytes = 0) : (s.exec .allocPage) = (s, 0) ∧
    ∀ n, (s.exec (.allocRange n)) = (s, 0) := by
  constructor
  · simp only [exec, pmmAllocPage, h]
    split <;> rfl
  intro n
  simp only [exec, pmmAllocRange, pmmFindContinuousPages, h, forLoop]
  split
  · rfl
  · split <;> simp

/-! ## After `memory_init` -/

/-- The address the allocator gives page `p`: its offset into the managed range is a 32-bit product. -/
def offerAddr (regions : List MemoryRegion) (p : Nat) : Nat :=
  (pageSize * firstPage regions + pageSize * ((p - firstPage regions) % 1048576)) % 18446744073709551616

/-- **The machines on which the range `[lo, hi)` is left alone.**  Where the bounds cross, the range must miss the
`2^32 - 1` pages the record then claims; elsewhere it must miss every page offered, and every run of offered pages as
placed by the 32-bit product. -/
def HeapClear (regions : List MemoryRegion) (syms : KernelSyms) (mb2Addr mb2Size lo hi : Nat) : Prop :=
  (Cramped regions → ∀ p, firstPage regions ≤ p → p < firstPage regions + 4294967295 → ¬ Overlaps lo hi p) ∧
  (¬ Cramped regions →
    (∀ p, Offered regions syms mb2Addr mb2Size p → ¬ Overlaps lo hi p) ∧
    ∀ p n, 0 < n → (∀ k, k < n → Offered regions syms mb2Addr mb2Size (p + k)) → offerAddr regions p ≠ 0 →
      ¬ Meets (offerAddr regions p) (offerAddr regions p + pageSize * n) lo hi)

theorem meets_page {l j lo hi : Nat} :
    Meets (pageSize * l + pageSize * j) (pageSize * l + pageSize * (j + 1)) lo hi ↔ Overlaps lo hi (l + j) := by
  have h1 : pageSize * l + pageSize * j = pageSize * (l + j) := by unfold pageSize; omega
  have h2 : pageSize * l + pageSize * (j + 1) = pageSize * (l + j + 1) := by unfold pageSize; omega
  exact ⟨fun ⟨x, h⟩ => ⟨x, by omega⟩, fun ⟨x, h⟩ => ⟨x, by omega⟩⟩

theorem offerAddr_eq {regions : List MemoryRegion} {s : Pmm} (hb : s.baseAddr = pageSize * firstPage regions)
    (i : Nat) : s.pageAddr i = offerAddr regions (firstPage regions + i) := by
  unfold pageAddr offerAddr u64 u32
  rw [hb, Nat.add_sub_cancel_left]
  have hprod : i * pageSize % 4294967296 = pageSize * (i % 1048576) := by unfold pageSize; omega
  rw [hprod]

/-- **The heap that `memory_init` sets up and the pages the allocator can hand out never meet, exactly on these
machines.** -/
theorem heapApart_iff (info : Multiboot2Info) (syms : KernelSyms) (mb2Addr mb2Size : Nat)
    (hin : InitInput (multiboot2GetMemoryRegions info 64) syms mb2Addr mb2Size) :
    HeapApart (memoryInit info syms mb2Addr mb2Size).1 (memoryInit info syms mb2Addr mb2Size).2.1
        ((memoryInit info syms mb2Addr mb2Size).2.1 + (memoryInit info syms mb2Addr mb2Size).2.2) ↔
      HeapClear (multiboot2GetMemoryRegions info 64) syms mb2Addr mb2Size (heapArea info syms).1
        ((heapArea info syms).1 + (heapArea info syms).2) := by
  unfold memoryInit pmmInit
  generalize multiboot2GetMemoryRegions info 64 = regions at hin ⊢
  unfold HeapClear
  by_cases hc : Cramped regions
  · -- every page reads as free and nothing is ever handed out
    obtain ⟨hb, ht, hbytes, hu⟩ := initFrom_crossed hin hc
    rw [iff_false_intro (not_not.2 hc), false_imp_iff, and_true, imp_iff_right hc]
    have hrun : ∀ t, AllocRun (initFrom regions syms mb2Addr mb2Size) t →
        t = initFrom regions syms mb2Addr mb2Size := by
      intro t htr
      induction htr with
      | start => rfl
      | page _ ih => rw [ih, (exec_noBytes hbytes).1]
      | range n _ ih => rw [ih, (exec_noBytes hbytes).2 n]
    unfold HeapApart
    rw [hb, ht]
    constructor
    · rintro ⟨hfree, -⟩ p hp hp'
      have := hfree (p - firstPage regions) (by omega) (hu _)
      rwa [meets_page, Nat.add_sub_cancel' hp] at this
    intro hclear
    refine ⟨fun j hj _ => ?_, fun t htr => ?_⟩
    · rw [meets_page]
      exact hclear _ (by omega) (by omega)
    · rw [hrun t htr]
      exact ⟨fun hne => absurd (by rw [(exec_noBytes hbytes).1]) hne,
        fun n hne => absurd (by rw [(exec_noBytes hbytes).2 n]) hne⟩
  · obtain ⟨hm, -, -, -⟩ := initFrom_spec hin hc
    have hfits := hm.fits'
    have hfree := fun j hj => initFrom_free hin hc (j := j) hj
    have hpage : ∀ p, Offered regions syms mb2Addr mb2Size p →
        ∃ j, j < endPage regions - firstPage regions ∧ p = firstPage regions + j := fun p hp => by
      have := covered_managed hin hp.1
      exact ⟨p - firstPage regions, by omega, by omega⟩
    rw [iff_false_intro hc, false_imp_iff, true_and, not_false_eq_true, imp_iff_right trivial, heapApart_record hfits,
      hm.base, hm.total]
    refine and_congr ⟨fun h p hp => ?_, fun h j hj huj => ?_⟩ ⟨fun h p n hn hp hne => ?_, fun h i n hn hi huj hne => ?_⟩
    · obtain ⟨j, hj, rfl⟩ := hpage p hp
      rw [← meets_page]
      exact h j hj ((hfree j hj).2 hp)
    · rw [meets_page]
      exact h _ ((hfree j hj).1 huj)
    · obtain ⟨i, hi, rfl⟩ := hpage p (hp 0 hn)
      obtain ⟨k, hk, hkp⟩ := hpage _ (hp (n - 1) (by omega))
      rw [← offerAddr_eq hm.base] at hne ⊢
      refine h i n hn (by omega) (fun j hj hj' => (hfree j (by omega)).2 ?_) hne
      have := hp (j - i) (by omega)
      rwa [show firstPage regions + i + (j - i) = firstPage regions + j by omega] at this
    · rw [offerAddr_eq hm.base] at hne ⊢
      refine h (firstPage regions + i) n hn (fun k hk => ?_) hne
      rw [Nat.add_assoc]
      exact (hfree (i + k) (by omega)).1 (huj _ (by omega) (by omega))

theorem smallMap_heapApart_iff :
    HeapApart (memoryInit smallMap smallSyms 0x10000 1024).1 (memoryInit smallMap smallSyms 0x10000 1024).2.1
        ((memoryInit smallMap smallSyms 0x10000 1024).2.1 + (memoryInit smallMap smallSyms 0x10000 1024).2.2) ↔
      HeapClear (multiboot2GetMemoryRegions smallMap 64) smallSyms 0x10000 1024 (heapArea smallMap smallSyms).1
        ((heapArea smallMap smallSyms).1 + (heapArea smallMap smallSyms).2) :=
  heapApart_iff smallMap smallSyms 0x10000 1024 smallMap_input

/-- **On a PC with 128 MiB** the heap gets everything up to a megabyte below the end, and the page at 80 MiB is free. -/
theorem smallMap_heap_free : heapArea smallMap smallSyms = (0x4400000, 0x3ae0000) ∧
    ¬ HeapApart (memoryInit smallMap smallSyms 0x10000 1024).1 (memoryInit smallMap smallSyms 0x10000 1024).2.1
      ((memoryInit smallMap smallSyms 0x10000 1024).2.1 + (memoryInit smallMap smallSyms 0x10000 1024).2.2) := by
  have harea : heapArea smallMap smallSyms = (0x4400000, 0x3ae0000) := by decide
  refine ⟨harea, fun h => ?_⟩
  have hfirst : firstPage (multiboot2GetMemoryRegions smallMap 64) = 0 := by decide
  have hend : endPage (multiboot2GetMemoryRegions smallMap 64) = 0x7fe0 := by decide
  have hcramped : ¬ Cramped (multiboot2GetMemoryRegions smallMap 64) := by
    rw [← crossed_iff smallMap_input (by decide), hend]
    decide
  obtain ⟨hm, -, -, -⟩ := initFrom_spec smallMap_input hcramped
  have hoffered : Offered (multiboot2GetMemoryRegions smallMap 64) smallSyms 0x10000 1024 (0 + 0x5000) := by
    refine ⟨by decide, fun hr => ?_⟩
    rw [reserved_iff smallMap_input hcramped (by decide)] at hr
    rcases hr.1 with ((⟨a, ha⟩ | ⟨a, ha⟩) | ⟨a, ha⟩) | ⟨a, ha⟩
    · unfold pageSize at ha; omega
    · change 0x100000 ≤ a ∧ a < 0x4c00000 ∧ _ at ha
      unfold pageSize at ha; omega
    · unfold pageSize at ha; omega
    · unfold mapBytes at ha
      change 0x200000 ≤ a ∧ a < 0x200000 + _ ∧ _ at ha
      unfold pageSize at ha; omega
  have hfree := (initFrom_free smallMap_input hcramped (j := 0x5000) (by decide)).2 (by exact hoffered)
  unfold memoryInit pmmInit HeapApart at h
  simp only [hm.base, hm.total, harea] at h
  refine h.1 0x5000 (by omega) hfree ⟨0x5000000, ?_⟩
  unfold pageSize
  omega

end Pmm
end OS64
