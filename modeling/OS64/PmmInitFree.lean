import OS64.PmmInitSpec
/-!
# PmmInitFree — the free pages and the counter after `pmm_init`, exactly

The three ways bring-up goes wrong, each read off the memory map and the linker's addresses alone: all available memory
strictly inside one page, so that the rounded bounds cross and the page count wraps (`Cramped`); whole pages lying in
several available regions, counted down once for each (`Recounted`); the last page of an unaligned area, which a walk
from the area's start steps over (`Missed`).  Without them bring-up is right (`initRight_iff`).
-/
namespace OS64

open Nat

/-- Page `p` lies wholly inside an available region. -/
def Covered (regions : List MemoryRegion) (p : Nat) : Prop := ∃ r ∈ regions, r.Covers p

instance (regions : List MemoryRegion) (p : Nat) : Decidable (Covered regions p) :=
  inferInstanceAs (Decidable (∃ r ∈ regions, r.Covers p))

def coveredPages (regions : List MemoryRegion) : Nat :=
  numSet (fun p => decide (Covered regions p)) 4503599627370496

/-- There is available memory, and all of it lies strictly inside one page. -/
def Cramped (regions : List MemoryRegion) : Prop :=
  (∃ r ∈ regions, r.available = true) ∧ ∃ p, ∀ r ∈ regions, r.available = true →
    pageSize * p < r.baseAddr ∧ r.baseAddr + r.length < pageSize * (p + 1)

/-- The pages counted down, region by region, differ from the pages released. -/
def Recounted (regions : List MemoryRegion) : Prop :=
  (regions.map MemoryRegion.pagesInside).sum % 4294967296 ≠ coveredPages regions % 4294967296

namespace Pmm

/-- What the boot loader and the linker promise: no region wraps, the available memory fits the bitmap, and the reserved
areas end before the last page of the address space. -/
structure InitInput (regions : List MemoryRegion) (syms : KernelSyms) (mb2Addr mb2Size : Nat) : Prop where
  noWrap : ∀ r ∈ regions, r.available = true → r.NoWrap
  span : ∀ r ∈ regions, ∀ r' ∈ regions, r.available = true → r'.available = true →
    r'.baseAddr + r'.length ≤ r.baseAddr + 2199023255552
  kernel : syms.kernelPhysEnd ≤ 18446744073709547520
  bitmap : syms.pmmBitmap + 67108864 ≤ 18446744073709547520
  mb2Some : 0 < mb2Size
  mb2End : mb2Addr + mb2Size + 4095 < 18446744073709551616

section

variable {regions : List MemoryRegion} {syms : KernelSyms} {mb2Addr mb2Size : Nat}

section
variable (hin : InitInput regions syms mb2Addr mb2Size)
include hin

/-- **The bounds**, when there is available memory: the lowest base and the highest end. -/
theorem regionBounds_spec (hav : ∃ r ∈ regions, r.available = true) :
    (∃ r ∈ regions, r.available = true ∧ (regionBounds regions).1 = r.baseAddr) ∧
    (∃ r ∈ regions, r.available = true ∧ (regionBounds regions).2 = r.baseAddr + r.length) ∧
    ∀ r ∈ regions, r.available = true →
      (regionBounds regions).1 ≤ r.baseAddr ∧ r.baseAddr + r.length ≤ (regionBounds regions).2 := by
  have hmem : ∀ r ∈ regions, r.available = true →
      (regionBounds regions).1 ≤ r.baseAddr ∧ r.baseAddr + r.length ≤ (regionBounds regions).2 := fun r hr ha => by
    have h := (foldl_bounds regions (18446744073709551615, 0)).2.1 r hr ha
    rw [u64_of_lt (hin.noWrap r hr ha).2] at h
    exact h
  obtain ⟨r, hr, ha⟩ := hav
  have hw := hin.noWrap r hr ha
  have hle := hmem r hr ha
  obtain ⟨-, -, h1, h2⟩ := foldl_bounds regions (18446744073709551615, 0)
  change (regionBounds regions).1 = _ ∨ _ at h1
  change (regionBounds regions).2 = _ ∨ _ at h2
  refine ⟨?_, ?_, hmem⟩
  · rcases h1 with h1 | h1
    · have := hw.1
      omega
    · exact h1
  · rcases h2 with h2 | ⟨x, hx, hxa, hxe⟩
    · exact ⟨r, hr, ha, by omega⟩
    · exact ⟨x, hx, hxa, hxe.trans (u64_of_lt (hin.noWrap x hx hxa).2)⟩

theorem region_managed {r : MemoryRegion} (hr : r ∈ regions) (ha : r.available = true) : r.NoWrap ∧
    firstPage regions ≤ (r.baseAddr + 4095) / pageSize ∧ (r.baseAddr + r.length) / pageSize ≤ endPage regions := by
  have hw := hin.noWrap r hr ha
  have hle := (regionBounds_spec hin ⟨r, hr, ha⟩).2.2 r hr ha
  rw [(lowestAddr_some hr ha hw).2, (highestAddr_eq regions).2]
  exact ⟨hw, Nat.div_le_div_right (by omega), Nat.div_le_div_right hle.2⟩

/-- **When the rounded bounds cross**: exactly when the available memory lies strictly inside one page. -/
theorem crossed_iff (hav : ∃ r ∈ regions, r.available = true) :
    endPage regions < firstPage regions ↔ Cramped regions := by
  obtain ⟨⟨r, hr, ha, hlo⟩, ⟨r', hr', ha', hhi⟩, hmem⟩ := regionBounds_spec hin hav
  have hfirst := (lowestAddr_some hr ha (hin.noWrap r hr ha)).2
  have hend := (highestAddr_eq regions).2
  constructor
  · intro hlt
    refine ⟨hav, endPage regions, fun x hx hxa => ?_⟩
    have hx' := hmem x hx hxa
    unfold pageSize at *
    omega
  rintro ⟨-, p, hp⟩
  have h1 := hp r hr ha
  have h2 := hp r' hr' ha'
  unfold pageSize at *
  omega

theorem initFull_manages (hc : ¬ Cramped regions) : lowestAddr regions = pageSize * firstPage regions ∧
    Manages (firstPage regions) (endPage regions)
      (initFull (lowestAddr regions) (highestAddr regions) syms.pmmBitmap) := by
  have hhi := (highestAddr_eq regions).1
  by_cases hav : ∃ r ∈ regions, r.available = true
  · have hcross : firstPage regions ≤ endPage regions := not_lt.1 (fun h => hc ((crossed_iff hin hav).1 h))
    obtain ⟨⟨r, hr, ha, hlo⟩, ⟨r', hr', ha', hend⟩, hmem⟩ := regionBounds_spec hin hav
    obtain ⟨hl, hfirst⟩ := lowestAddr_some hr ha (hin.noWrap r hr ha)
    have hspan := hin.span r hr r' hr' ha ha'
    have hend' := (highestAddr_eq regions).2
    have hfits : endPage regions - firstPage regions ≤ 2 ^ 29 := by unfold pageSize at *; omega
    have htot : u32 (sub64 (highestAddr regions) (lowestAddr regions) / pageSize) =
        endPage regions - firstPage regions := by
      have hlt := regionBounds_lt regions
      rw [hhi, hl, sub64_of_le (by unfold pageSize at *; omega) (by unfold pageSize; omega)]
      have hdiv : (pageSize * endPage regions - pageSize * firstPage regions) / pageSize =
          endPage regions - firstPage regions := by unfold pageSize; omega
      rw [hdiv, u32_of_lt (by omega)]
    exact ⟨hl, hl, htot, hcross, hfits⟩
  · have hnone : ∀ r ∈ regions, r.available = false := fun r hr => Bool.eq_false_iff.2 (fun h => hav ⟨r, hr, h⟩)
    obtain ⟨h1, h2⟩ := lowestAddr_none hnone
    unfold firstPage endPage
    rw [h1, h2]
    exact ⟨rfl, rfl, rfl, le_rfl, zero_le _⟩

end

theorem initFull_used {l h lowest highest bitmap j : Nat} (hm : Manages l h (initFull lowest highest bitmap))
    (hj : j < h - l) : (initFull lowest highest bitmap).used j = true := by
  have htot : u32 (sub64 highest lowest / pageSize) = h - l := hm.total
  have hfits := hm.fits
  refine bitAt_of_full ?_ rfl
  show (if j / 8 < u32 (u32 (sub64 highest lowest / pageSize) + 7) / 8 then 0xFF#8 else _) = _
  rw [u32_of_lt (by omega), if_pos (by omega)]

/-! ## The record `pmm_init` builds -/

def Reserved (syms : KernelSyms) (mb2Addr mb2Size bytes p : Nat) : Prop :=
  ((Hit 0 0x100000 p ∨ Hit syms.kernelPhysStart syms.kernelPhysEnd p) ∨
    Hit (clearLow 12 mb2Addr) (clearLow 12 (u64 (mb2Addr + mb2Size + 4095))) p) ∨
    Hit syms.pmmBitmap (u64 (syms.pmmBitmap + bytes)) p

theorem covered_managed (hin : InitInput regions syms mb2Addr mb2Size) {p : Nat} (hp : Covered regions p) :
    firstPage regions ≤ p ∧ p < endPage regions := by
  obtain ⟨r, hr, ha, h1, h2⟩ := hp
  have hr := region_managed hin hr ha
  unfold pageSize at *
  omega

theorem coveredPages_eq (hin : InitInput regions syms mb2Addr mb2Size) (hle : firstPage regions ≤ endPage regions) :
    coveredPages regions = numSet (fun j => decide (Covered regions (firstPage regions + j)))
      (endPage regions - firstPage regions) := by
  have hlt := regionBounds_lt regions
  have hend := (highestAddr_eq regions).2
  refine numSet_window hle (by unfold pageSize at *; omega) (fun p hp => decide_eq_false (fun hcov => ?_))
  have := covered_managed hin hcov
  omega

/-- **The record `pmm_init` builds**, where the bounds do not cross: a page is in use unless it was released and none of
the walks stepped into it, and the counter is short by the pages released more than once. -/
theorem initFrom_spec (hin : InitInput regions syms mb2Addr mb2Size) (hc : ¬ Cramped regions) :
    let s := initFrom regions syms mb2Addr mb2Size
    Manages (firstPage regions) (endPage regions) s ∧ s.bitmap = syms.pmmBitmap ∧
    (∀ j, j < endPage regions - firstPage regions → (s.used j = true ↔ ¬ Covered regions (firstPage regions + j) ∨
      Reserved syms mb2Addr mb2Size ((endPage regions - firstPage regions + 7) / 8) (firstPage regions + j))) ∧
    Drift (regions.map MemoryRegion.pagesInside).sum (coveredPages regions) s := by
  obtain ⟨hl, hm⟩ := initFull_manages hin hc
  have hh := (highestAddr_eq regions).1
  rw [hl, hh] at hm
  have hfree := releaseRegions_spec regions _ hm (fun r hr ha => region_managed hin hr ha)
  -- step 8: the four walks, one after the other
  have h1 := walk_reserve 0 0x100000 (hm.frame hfree.frame)
  have h2 := h1.trans (walk_reserve syms.kernelPhysStart syms.kernelPhysEnd (hm.frame (hfree.frame.trans h1.frame)))
  have h3 := h2.trans (walk_reserve (clearLow 12 mb2Addr) (clearLow 12 (u64 (mb2Addr + mb2Size + 4095)))
    (hm.frame (hfree.frame.trans h2.frame)))
  have h4 := h3.trans (walk_reserve syms.pmmBitmap
    (u64 (syms.pmmBitmap + (endPage regions - firstPage regions + 7) / 8)) (hm.frame (hfree.frame.trans h3.frame)))
  have hframe := hfree.frame.trans h4.frame
  have hused : ∀ j, j < endPage regions - firstPage regions → (_ ↔ ¬ Covered regions (firstPage regions + j)) :=
    fun j hj => (hfree.used j hj).trans (and_iff_right (initFull_used hm hj))
  unfold initFrom
  simp only [hl, hh, bitmapBytes_of_fits hm.fits', hm.total]
  refine ⟨hm.frame hframe, hframe.bitmap, fun j hj => (h4.used j hj).trans (or_congr_left (hused j hj)),
    h4.drift _ _ ?_⟩
  -- the pages released are the covered ones of the managed range, each once
  have hcov := numSet_not (fun j => decide (Covered regions (firstPage regions + j)))
    (endPage regions - firstPage regions)
  rw [← coveredPages_eq hin hm.le, add_comm] at hcov
  unfold Drift
  rw [hfree.count, hfree.frame.total, hm.total, numSet_congr (fun j hj => ?_), hcov]
  · exact congrArg (· % 2 ^ 32) hm.total
  · rw [Bool.eq_iff_iff, Bool.not_eq_true', decide_eq_false_iff_not]
    exact hused j hj

/-! ## When bring-up is right -/

/-- The page overlaps an area that must not be handed out: the first megabyte, the kernel image, the Multiboot2 block or
the `bytes` of the bitmap in use. -/
def Untouchable (syms : KernelSyms) (mb2Addr mb2Size bytes p : Nat) : Prop :=
  ((Overlaps 0 0x100000 p ∨ Overlaps syms.kernelPhysStart syms.kernelPhysEnd p) ∨
    Overlaps mb2Addr (mb2Addr + mb2Size) p) ∨ Overlaps syms.pmmBitmap (syms.pmmBitmap + bytes) p

/-- **What `pmm_init` is for**: the free pages are the available ones outside the reserved areas, and the counter counts
the others. -/
def InitRight (regions : List MemoryRegion) (syms : KernelSyms) (mb2Addr mb2Size : Nat) (s : Pmm) : Prop :=
  (∀ j, j < s.totalPages → (s.used j = false ↔ Covered regions (s.baseAddr / pageSize + j) ∧
    ¬ Untouchable syms mb2Addr mb2Size s.bitmapBytes (s.baseAddr / pageSize + j))) ∧
  s.Counted

def mapBytes (regions : List MemoryRegion) : Nat := (endPage regions - firstPage regions + 7) / 8

/-- The page is released and none of the four reserving walks steps into it. -/
def Offered (regions : List MemoryRegion) (syms : KernelSyms) (mb2Addr mb2Size p : Nat) : Prop :=
  Covered regions p ∧ ¬ Reserved syms mb2Addr mb2Size (mapBytes regions) p

/-- **The pages `pmm_init` leaves free are the offered ones.** -/
theorem initFrom_free (hin : InitInput regions syms mb2Addr mb2Size) (hc : ¬ Cramped regions) {j : Nat}
    (hj : j < endPage regions - firstPage regions) : (initFrom regions syms mb2Addr mb2Size).used j = false ↔
      Offered regions syms mb2Addr mb2Size (firstPage regions + j) := by
  obtain ⟨-, -, hu, -⟩ := initFrom_spec hin hc
  rw [← Bool.not_eq_true, hu j hj]
  exact not_or.trans (and_congr not_not Iff.rfl)

/-- A released page of the kernel image or of the bitmap that both walks step over and no other area reserves. -/
def Missed (regions : List MemoryRegion) (syms : KernelSyms) (mb2Addr mb2Size p : Nat) : Prop :=
  Covered regions p ∧ ¬ Overlaps 0 0x100000 p ∧ ¬ Overlaps mb2Addr (mb2Addr + mb2Size) p ∧
  (Overlaps syms.kernelPhysStart syms.kernelPhysEnd p ∨
    Overlaps syms.pmmBitmap (syms.pmmBitmap + mapBytes regions) p) ∧
  ¬ Hit syms.kernelPhysStart syms.kernelPhysEnd p ∧
  ¬ Hit syms.pmmBitmap (syms.pmmBitmap + mapBytes regions) p

theorem hit_firstMiB {p : Nat} : Hit 0 0x100000 p ↔ Overlaps 0 0x100000 p :=
  ⟨Hit.overlaps, hit_of_aligned rfl⟩

theorem hit_mb2 (hin : InitInput regions syms mb2Addr mb2Size) {p : Nat} :
    Hit (clearLow 12 mb2Addr) (clearLow 12 (u64 (mb2Addr + mb2Size + 4095))) p ↔
      Overlaps mb2Addr (mb2Addr + mb2Size) p := by
  have hend := hin.mb2End
  have hsome := hin.mb2Some
  rw [u64_of_lt hend, clearLow_pages (by omega), clearLow_pages hend]
  constructor
  · intro h
    obtain ⟨a, h1, h2, h3, h4⟩ := h.overlaps
    refine ⟨max mb2Addr (pageSize * p), ?_⟩
    unfold pageSize at *
    omega
  · rintro ⟨a, h1, h2, h3, h4⟩
    refine hit_of_aligned (by unfold pageSize; omega) ⟨pageSize * p, ?_⟩
    unfold pageSize at *
    omega

/-- **Where the walks and the areas differ**: the walks reserve no page outside the areas, and miss the `Missed`
ones. -/
theorem reserved_iff (hin : InitInput regions syms mb2Addr mb2Size) (hc : ¬ Cramped regions) {p : Nat}
    (hp : Covered regions p) : Reserved syms mb2Addr mb2Size (mapBytes regions) p ↔
      Untouchable syms mb2Addr mb2Size (mapBytes regions) p ∧ ¬ Missed regions syms mb2Addr mb2Size p := by
  have hbytes : mapBytes regions ≤ 67108864 := by
    have := (initFull_manages hin hc).2.fits
    unfold mapBytes
    omega
  have hbit := hin.bitmap
  unfold Reserved Untouchable Missed
  rw [hit_firstMiB, hit_mb2 hin, u64_of_lt (by omega)]
  have hk : Hit syms.kernelPhysStart syms.kernelPhysEnd p → _ := Hit.overlaps
  have hb : Hit syms.pmmBitmap (syms.pmmBitmap + mapBytes regions) p → _ := Hit.overlaps
  tauto

theorem counted_iff {s : Pmm} (hs : s.Fits) (hu : s.usedPages < 2 ^ 32)
    (hd : Drift (regions.map MemoryRegion.pagesInside).sum (coveredPages regions) s) :
    s.Counted ↔ ¬ Recounted regions := by
  have hle := numSet_le s.used s.totalPages
  unfold Fits at hs
  unfold Drift at hd
  unfold Counted Recounted
  omega

theorem initFrom_rule (I : Pmm → Prop) (h0 : I (initFull (lowestAddr regions) (highestAddr regions) syms.pmmBitmap))
    (hrelease : ∀ a s, I s → I (releasePage (lowestAddr regions) (highestAddr regions) a s))
    (hreserve : ∀ a s, I s → I (reservePage (lowestAddr regions) (highestAddr regions) a s)) :
    I (initFrom regions syms mb2Addr mb2Size) := by
  have hwalk : ∀ f start stop s, (∀ a s, I s → I (f a s)) → I s → I (walk f start stop s) := fun f start stop s hf hs =>
    walk_rule start stop (fun _ => I) hs (fun _ t _ ht => hf _ t ht)
  refine hwalk _ _ _ _ hreserve (hwalk _ _ _ _ hreserve (hwalk _ _ _ _ hreserve (hwalk _ _ _ _ hreserve
    (List.foldlRecOn regions _ h0 (fun s hs r _ => ?_)))))
  unfold releaseRegion
  split
  · exact hwalk _ _ _ _ hrelease hs
  · exact hs

theorem initFrom_counter : (initFrom regions syms mb2Addr mb2Size).usedPages < 2 ^ 32 := by
  refine initFrom_rule (·.usedPages < 2 ^ 32) (u32_lt _) (fun a s hs => ?_) (fun a s hs => ?_)
  · unfold releasePage
    dsimp only
    split_ifs
    exacts [u32_lt _, hs, hs]
  · unfold reservePage
    dsimp only
    split_ifs
    exacts [u32_lt _, hs, hs, hs]

/-- **Where the bounds cross**, no walk does anything, the page count wraps to `2^32 - 1`, and the bitmap, of which no
byte was filled, shows every page free. -/
theorem initFrom_crossed (hin : InitInput regions syms mb2Addr mb2Size) (hc : Cramped regions) :
    let s := initFrom regions syms mb2Addr mb2Size
    s.baseAddr = pageSize * firstPage regions ∧ s.totalPages = 4294967295 ∧ s.bitmapBytes = 0 ∧
      ∀ j, s.used j = false := by
  intro s
  obtain ⟨⟨r, hr, ha, hlo⟩, -, hmem⟩ := regionBounds_spec hin hc.1
  obtain ⟨hl, hfirst⟩ := lowestAddr_some hr ha (hin.noWrap r hr ha)
  have hh := (highestAddr_eq regions).1
  have hend := (highestAddr_eq regions).2
  have hlt := (crossed_iff hin hc.1).2 hc
  have hle := hmem r hr ha
  have hw := (hin.noWrap r hr ha).1
  have hone : firstPage regions = endPage regions + 1 := by unfold pageSize at *; omega
  have hguard : ∀ a, ¬ (a ≥ lowestAddr regions ∧ a < highestAddr regions) := fun a => by
    rw [hl, hh]
    unfold pageSize
    omega
  have htot : u32 (sub64 (highestAddr regions) (lowestAddr regions) / pageSize) = 4294967295 := by
    rw [hl, hh, sub64_of_lt (by unfold pageSize at *; omega) (by unfold pageSize; omega)]
    unfold u32 pageSize
    omega
  have hs : s = initFull (lowestAddr regions) (highestAddr regions) syms.pmmBitmap := by
    refine initFrom_rule (· = _) rfl ?_ ?_
    · rintro a _ rfl
      unfold releasePage
      rw [if_neg (hguard a)]
    · rintro a _ rfl
      unfold reservePage
      rw [if_neg (hguard a)]
  have hbytes : u32 (4294967295 + 7) / 8 = 0 := rfl
  rw [hs]
  refine ⟨hl, htot, ?_, fun j => bitAt_of_zero ?_ rfl⟩
  · unfold bitmapBytes initFull
    simp only [htot, hbytes]
  · unfold initFull
    simp only [htot, hbytes, not_lt_zero, if_false]

end

/-- **`pmm_init` is right exactly when** the available memory is not all strictly inside one page, no whole page lies in
two available regions, and no released page of the kernel image or the bitmap is stepped over. -/
theorem initRight_iff (info : Multiboot2Info) (syms : KernelSyms) (mb2Addr mb2Size : Nat)
    (hin : InitInput (multiboot2GetMemoryRegions info 64) syms mb2Addr mb2Size) :
    InitRight (multiboot2GetMemoryRegions info 64) syms mb2Addr mb2Size (pmmInit info syms mb2Addr mb2Size) ↔
      ¬ Cramped (multiboot2GetMemoryRegions info 64) ∧ ¬ Recounted (multiboot2GetMemoryRegions info 64) ∧
        ∀ p, ¬ Missed (multiboot2GetMemoryRegions info 64) syms mb2Addr mb2Size p := by
  unfold pmmInit
  generalize multiboot2GetMemoryRegions info 64 = regions at hin ⊢
  by_cases hc : Cramped regions
  · -- every page reads as free, the first one among them, which no region covers
    obtain ⟨hb, ht, -, hu⟩ := initFrom_crossed hin hc
    refine ⟨fun hright => ?_, fun h => absurd hc h.1⟩
    have hcov := ((hright.1 0 (by rw [ht]; decide)).1 (hu 0)).1
    have hlt := (crossed_iff hin hc.1).2 hc
    have := covered_managed hin hcov
    omega
  · obtain ⟨hm, -, -, hd⟩ := initFrom_spec hin hc
    have hfits := hm.fits'
    have hbytes : (initFrom regions syms mb2Addr mb2Size).bitmapBytes = mapBytes regions := by
      rw [bitmapBytes_of_fits hfits, hm.total]
      rfl
    unfold InitRight
    rw [hbytes, hm.base, hm.total, Nat.mul_div_cancel_left _ (by decide : 0 < pageSize),
      counted_iff hfits initFrom_counter hd]
    constructor
    · rintro ⟨hright, hcount⟩
      refine ⟨hc, hcount, fun p hp => ?_⟩
      obtain ⟨h1, h2⟩ := covered_managed hin hp.1
      have hj : p - firstPage regions < endPage regions - firstPage regions := by omega
      have hpj : firstPage regions + (p - firstPage regions) = p := by omega
      have hiff := (initFrom_free hin hc hj).symm.trans (hright _ hj)
      unfold Offered at hiff
      rw [hpj, reserved_iff hin hc hp.1] at hiff
      exact (hiff.1 ⟨hp.1, fun h => h.2 hp⟩).2 (by
        obtain ⟨-, -, -, harea, -⟩ := hp
        tauto)
    · rintro ⟨-, hcount, hmiss⟩
      refine ⟨fun j hj => (initFrom_free hin hc hj).trans (and_congr_right (fun hcov => ?_)), hcount⟩
      rw [reserved_iff hin hc hcov]
      exact not_congr ⟨And.left, fun h => ⟨h, hmiss _⟩⟩

/-- A PC with 128 MiB: conventional memory, memory above the first megabyte and the firmware's area. -/
def smallMap : Multiboot2Info :=
  ⟨639, 129920, [⟨0, 0x9fc00, 1⟩, ⟨0x100000, 0x7ee0000, 1⟩, ⟨0xfffc0000, 0x40000, 2⟩]⟩

/-- A layout of the linker script: the bitmap of 64 MiB is in the `.bss` section, the heap of 8 MiB ends the image. -/
def smallSyms : KernelSyms := ⟨0x100000, 0x4c00000, 0x4400000, 0x4c00000, 0x200000⟩

theorem smallMap_input : InitInput (multiboot2GetMemoryRegions smallMap 64) smallSyms 0x10000 1024 where
  noWrap := by decide
  span := by decide
  kernel := by decide
  bitmap := by decide
  mb2Some := by decide
  mb2End := by decide

theorem smallMap_right_iff :
    InitRight (multiboot2GetMemoryRegions smallMap 64) smallSyms 0x10000 1024
      (pmmInit smallMap smallSyms 0x10000 1024) ↔
      ¬ Cramped (multiboot2GetMemoryRegions smallMap 64) ∧ ¬ Recounted (multiboot2GetMemoryRegions smallMap 64) ∧
        ∀ p, ¬ Missed (multiboot2GetMemoryRegions smallMap 64) smallSyms 0x10000 1024 p :=
  initRight_iff smallMap smallSyms 0x10000 1024 smallMap_input

def twiceMap : Multiboot2Info := ⟨0, 0, [⟨0x100000, 0x2000, 1⟩, ⟨0x100000, 0x2000, 1⟩]⟩

theorem twiceMap_miscounted :
    InitInput (multiboot2GetMemoryRegions twiceMap 64) ⟨0x200000, 0x201000, 0, 0, 0x200000⟩ 0x10000 8 ∧
    ¬ InitRight (multiboot2GetMemoryRegions twiceMap 64) ⟨0x200000, 0x201000, 0, 0, 0x200000⟩ 0x10000 8
      (pmmInit twiceMap ⟨0x200000, 0x201000, 0, 0, 0x200000⟩ 0x10000 8) :=
  ⟨⟨by decide, by decide, by decide, by decide, by decide, by decide⟩, fun h => absurd h.2 (by decide +kernel)⟩

end Pmm
end OS64
