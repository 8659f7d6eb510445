import OS64.PmmCount
/-!
# PmmSpec — what each call of the allocator does to the pages

`Takes s s' i n`: the call marked exactly the `n` free pages from `i` on.  The page search stops at the lowest free page
(`pmmAllocPage_spec`), the two range searches at the lowest start that fits (`pmmFindContinuousPages_spec`,
`alignedSearch_spec`); both are one scan with an alignment, the plain search having alignment `1` (`ScanInv`).
-/
namespace OS64

open Nat
namespace Pmm

variable {s s' : Pmm} {n a : Nat}

structure SameFrame (s s' : Pmm) : Prop where
  bitmap : s'.bitmap = s.bitmap
  base : s'.baseAddr = s.baseAddr
  total : s'.totalPages = s.totalPages

theorem SameFrame.rfl' (s : Pmm) : SameFrame s s := ⟨rfl, rfl, rfl⟩

theorem SameFrame.trans {t u : Pmm} (h : SameFrame s t) (h' : SameFrame t u) : SameFrame s u :=
  ⟨h'.bitmap.trans h.bitmap, h'.base.trans h.base, h'.total.trans h.total⟩

theorem SameFrame.fits (h : SameFrame s s') (hf : s.Fits) : s'.Fits := by
  unfold Fits at *
  rwa [h.total]

/-- **The call took the `n` pages from `i` on**: they were free and in range, and no other bit changed. -/
structure Takes (s s' : Pmm) (i n : Nat) : Prop where
  frame : SameFrame s s'
  bound : i + n ≤ s.totalPages
  free : ∀ j, i ≤ j → j < i + n → s.used j = false
  used : ∀ j, s'.used j = (s.used j || decide (i ≤ j ∧ j < i + n))

@[simp] theorem incUsed_used (s : Pmm) : s.incUsed.used = s.used := by rfl

theorem pageAddr_frame (h : SameFrame s s') (i : Nat) : s'.pageAddr i = s.pageAddr i := by
  unfold pageAddr; rw [h.base]

/-! ## The page search -/

/-- The page search at page `n`: every managed page below is in use, and no bit changed unless the scan is already
past the managed pages. -/
structure SeekInv (s s' : Pmm) (n : Nat) : Prop where
  frame : SameFrame s s'
  low : ∀ j, j < s.totalPages → s'.used j = s.used j
  same : (∀ j, s'.used j = s.used j) ∨ s.totalPages ≤ n
  full : ∀ j, j < n → j < s.totalPages → s.used j = true

def SeekFound (s s' : Pmm) (a : Nat) : Prop :=
  ∃ i, Takes s s' i 1 ∧ (∀ j, j < i → s.used j = true) ∧ a = s.pageAddr i

theorem SeekInv.found {b k : Nat} (h : SeekInv s s' (8 * b + k)) (hk : k < 8)
    (hlt : 8 * b + k < s.totalPages) (hfree : maskTest (s'.bits b) k = false) :
    SeekFound s (s'.setByte b (maskSet (s'.bits b) k)).incUsed (s'.pageAddr (8 * b + k)) := by
  have hsame : ∀ j, s'.used j = s.used j := by
    rcases h.same with hs | hs
    · exact hs
    · omega
  refine ⟨8 * b + k, ⟨⟨h.frame.bitmap, h.frame.base, h.frame.total⟩, by omega, fun j hj hj' => ?_, fun j => ?_⟩,
    fun j hj => h.full j hj (by omega), pageAddr_frame h.frame _⟩
  · obtain rfl : j = 8 * b + k := by omega
    rw [← hsame, used_byte s' b k hk]; exact hfree
  · rw [incUsed_used, used_set s' b k j hk, hsame]
    congr 1
    exact decide_eq_decide.2 (by omega)

theorem SeekInv.past {b k : Nat} (h : SeekInv s s' (8 * b + k)) (hk : k < 8)
    (hge : s.totalPages ≤ 8 * b + k) : SeekInv s (s'.setByte b (maskSet (s'.bits b) k)) (8 * b + (k + 1)) := by
  refine ⟨⟨h.frame.bitmap, h.frame.base, h.frame.total⟩, fun j hj => ?_, .inr (by omega),
    fun j _ hj => h.full j (by omega) hj⟩
  rw [used_set s' b k j hk, h.low j hj]
  have : ¬ j = 8 * b + k := by omega
  simp [this]

theorem SeekInv.step (h : SeekInv s s' n) (hn : n < s.totalPages → s'.used n = true) :
    SeekInv s s' (n + 1) := by
  refine ⟨h.frame, h.low, h.same.imp id (fun hs => by omega), fun j hj hj' => ?_⟩
  by_cases hjn : j = n
  · subst hjn; rw [← h.low j hj']; exact hn hj'
  · exact h.full j (by omega) hj'

/-- **The page allocator takes the lowest free page**, or finds none and leaves the managed pages alone. -/
theorem pmmAllocPage_spec (hf : s.Fits) (hp : s.bitmap ≠ 0) :
    (SeekFound s s.pmmAllocPage.1 s.pmmAllocPage.2 ∧ s.pmmAllocPage.1.usedPages = u32 (s.usedPages + 1)) ∨
    (s.pmmAllocPage.2 = 0 ∧ SeekInv s s.pmmAllocPage.1 s.totalPages ∧ s.pmmAllocPage.1.usedPages = s.usedPages) := by
  have hbytes := bitmapBytes_of_fits hf
  have hrule := pmmAllocPage_rule (I := fun n t => SeekInv s t n ∧ t.usedPages = s.usedPages)
    (Q := fun t a => SeekFound s t a ∧ t.usedPages = u32 (s.usedPages + 1)) hf (fun _ _ h => h.1.frame.total)
    (fun _ _ h hu => ⟨h.1.step (fun _ => hu), h.2⟩)
    (fun b k t hk h hfree hlt => ⟨h.1.found hk hlt hfree, congrArg (fun u => u32 (u + 1)) h.2⟩)
    (fun b k t hk h _ hge => ⟨h.1.past hk hge, h.2⟩) hp
    ⟨⟨SameFrame.rfl' s, fun _ _ => rfl, .inl (fun _ => rfl), fun j hj => absurd hj (not_lt_zero j)⟩, rfl⟩
  refine hrule.imp id (fun h => ⟨h.1, ?_, h.2.2⟩)
  obtain ⟨-, h, -⟩ := h
  exact ⟨h.frame, h.low, .inr le_rfl, fun j hj _ => h.full j (by omega) hj⟩

/-! ## The range searches -/

section
variable {s : Pmm} {a count n m start b k : Nat}

/-- A range search for `count` pages from a multiple of `a`, at page `n` with `m` pages in hand from `start` on: no
start it has passed fits. -/
structure ScanInv (s : Pmm) (a count n m start : Nat) : Prop where
  lt : m < count
  run : 0 < m → start + m = n ∧ start % a = 0
  free : 0 < m → ∀ j, start ≤ j → j < n → s.used j = false
  before : ∀ p, p % a = 0 → p < n → (0 < m → p < start) → ∃ j, p ≤ j ∧ j < n ∧ j < p + count ∧ s.used j = true

structure ScanFound (s : Pmm) (a count start : Nat) : Prop where
  bound : start + count ≤ s.totalPages
  aligned : start % a = 0
  free : ∀ j, start ≤ j → j < start + count → s.used j = false
  first : ∀ p, p % a = 0 → p < start → ∃ j, p ≤ j ∧ j < p + count ∧ s.used j = true

def ScanNone (s : Pmm) (a count : Nat) : Prop :=
  ∀ p, p % a = 0 → p + count ≤ s.totalPages → ∃ j, p ≤ j ∧ j < p + count ∧ s.used j = true

theorem ScanInv.zero (s : Pmm) (a count : Nat) (hc : 0 < count) : ScanInv s a count 0 0 0 :=
  ⟨hc, fun h => by omega, fun h => by omega, fun p _ hp => by omega⟩

theorem ScanInv.reset (h : ScanInv s a count n m start) (hu : s.used n = true)
    (start' : Nat) : ScanInv s a count (n + 1) 0 start' := by
  refine ⟨by have := h.lt; omega, fun h => by omega, fun h => by omega, fun p hp hpn _ => ?_⟩
  by_cases hpast : p < n ∧ (0 < m → p < start)
  · obtain ⟨j, hj⟩ := h.before p hp hpast.1 hpast.2
    exact ⟨j, hj.1, by omega, hj.2.2.1, hj.2.2.2⟩
  refine ⟨n, by omega, by omega, ?_, hu⟩
  have hlt := h.lt
  by_cases hm : 0 < m
  · have hrun := (h.run hm).1
    omega
  · omega

theorem ScanInv.skip (h : ScanInv s a count n 0 start) (hn : n % a ≠ 0) : ScanInv s a count (n + 1) 0 start := by
  refine ⟨h.lt, fun h => by omega, fun h => by omega, fun p hp hpn _ => ?_⟩
  have hne : p ≠ n := fun hpn => hn (hpn ▸ hp)
  obtain ⟨j, hj⟩ := h.before p hp (by omega) (fun h0 => by omega)
  exact ⟨j, hj.1, by omega, hj.2.2.1, hj.2.2.2⟩

section
variable (h : ScanInv s a count n m start) (hu : s.used n = false) (hn : m = 0 → n % a = 0)
include h hu hn

theorem ScanInv.longer {i : Nat}
    (hi : i = if m = 0 then n else start) : i + m = n ∧ i % a = 0 ∧ (∀ j, i ≤ j → j < n + 1 → s.used j = false) ∧
      ∀ p, p % a = 0 → p < i → ∃ j, p ≤ j ∧ j < n ∧ j < p + count ∧ s.used j = true := by
  by_cases hm : m = 0
  · subst hm
    subst hi
    refine ⟨rfl, hn rfl, fun j hj hj' => ?_, fun p hp hps => h.before p hp hps (fun h0 => by omega)⟩
    obtain rfl : j = i := by omega
    exact hu
  rw [if_neg hm] at hi
  subst hi
  have hrun := h.run (by omega)
  refine ⟨hrun.1, hrun.2, fun j hj hj' => ?_, fun p hp hps => h.before p hp (by omega) (fun _ => hps)⟩
  by_cases hjn : j = n
  · subst hjn; exact hu
  · exact h.free (by omega) j hj (by omega)

theorem ScanInv.extend (hlt : m + 1 < count) : ScanInv s a count (n + 1) (m + 1) (if m = 0 then n else start) := by
  obtain ⟨hrun, hal, hfree, hpast⟩ := h.longer hu hn rfl
  refine ⟨hlt, fun _ => ⟨by omega, hal⟩, fun _ => hfree, fun p hp _ hps => ?_⟩
  obtain ⟨j, hpj, hjn, hj⟩ := hpast p hp (hps (by omega))
  exact ⟨j, hpj, by omega, hj⟩

theorem ScanInv.found
    (hnt : n < s.totalPages) (hc : m + 1 = count) : ScanFound s a count (if m = 0 then n else start) := by
  obtain ⟨hrun, hal, hfree, hpast⟩ := h.longer hu hn rfl
  refine ⟨by omega, hal, fun j hj hj' => hfree j hj (by omega), fun p hp hps => ?_⟩
  obtain ⟨j, hpj, -, hj⟩ := hpast p hp hps
  exact ⟨j, hpj, hj⟩

end

theorem ScanInv.none (h : ScanInv s a count n m start) (hn : s.totalPages ≤ n) : ScanNone s a count := by
  intro p hp hpt
  have hlt := h.lt
  by_cases hpast : p < n ∧ (0 < m → p < start)
  · obtain ⟨j, hj⟩ := h.before p hp hpast.1 hpast.2
    exact ⟨j, hj.1, hj.2.2.1, hj.2.2.2⟩
  exfalso
  by_cases hm : 0 < m
  · have hrun := (h.run hm).1
    omega
  · omega

/-- Eight pages in use at once: the `0xFF` byte. -/
theorem ScanInv.resetByte (h : ScanInv s a count (8 * b) m start)
    (hfull : s.bits b = 0xFF#8) (start' : Nat) : ScanInv s a count (8 * b + 8) 0 start' := by
  have hu : ∀ k, k < 8 → s.used (8 * b + k) = true := fun k hk => bitAt_of_full hfull (by omega)
  have step : ∀ k, k < 8 → ScanInv s a count (8 * b + (k + 1)) 0 start' := fun k => by
    induction k with
    | zero => exact fun hk => h.reset (hu 0 hk) start'
    | succ k ih => exact fun hk => (ih (by omega)).reset (hu (k + 1) hk) start'
  exact step 7 (by decide)

def AlignedInv (s : Pmm) (a count n : Nat) (c : AlignedScan) : Prop :=
  ScanInv s a count n c.continuous c.startPage ∧ (c.inAligned = true ↔ 0 < c.continuous)

theorem alignedBit_spec {c : AlignedScan} (hf : s.Fits) (hcount : count < 2 ^ 32)
    (hb : 8 * b < s.totalPages) (hk : k < 8) (h : AlignedInv s a count (8 * b + k) c) :
    BodyPost (fun c => AlignedInv s a count (8 * b + (k + 1)) c)
      (fun c => AlignedInv s a count (8 * b + 8) c ∨ (ScanNone s a count ∧ s.totalPages ≤ 8 * b + 8))
      (fun _ p => ScanFound s a count p) (alignedBit s count a b k c) := by
  obtain ⟨h, hflag⟩ := h
  have hlt := h.lt
  unfold alignedBit
  simp only [pageIdx_eq hf hb hk]
  split
  · rename_i hge
    exact .inr ⟨h.none hge, by omega⟩
  split
  · rename_i hskip
    obtain ⟨hin, hna⟩ := hskip
    have hin : c.inAligned = false := by simpa using hin
    have hm : c.continuous = 0 := by
      rw [hin] at hflag
      have := mt hflag.2 (by decide)
      omega
    rw [hm] at h
    refine ⟨?_, hflag⟩
    rw [hm]
    exact h.skip hna
  rename_i hns
  have hone : c.continuous = 0 → (8 * b + k) % a = 0 := fun hm => by
    by_contra hna
    refine hns ⟨?_, hna⟩
    cases hin : c.inAligned with
    | false => rfl
    | true => have := hflag.1 hin; omega
  cases hm : maskTest (s.bits b) k with
  | true => exact ⟨h.reset (by rwa [used_byte s b k hk]) _, by simp⟩
  | false =>
    have hu : s.used (8 * b + k) = false := by rwa [used_byte s b k hk]
    have hnext : u32 (c.continuous + 1) = c.continuous + 1 := u32_of_lt (by omega)
    have hcont : (if c.continuous = 0 then { c with startPage := 8 * b + k, inAligned := true } else c).continuous =
        c.continuous := by
      split <;> rfl
    have hstart : (if c.continuous = 0 then { c with startPage := 8 * b + k, inAligned := true } else c).startPage =
        if c.continuous = 0 then 8 * b + k else c.startPage := by
      split <;> rfl
    have hin : (if c.continuous = 0 then { c with startPage := 8 * b + k, inAligned := true } else c).inAligned =
        true := by
      split
      · rfl
      · exact hflag.2 (by omega)
    simp only [Bool.not_false, if_true, hcont, hnext]
    split
    · rename_i hc
      rw [hstart]
      exact h.found hu hone (by omega) hc
    · rw [hstart, hin]
      exact ⟨h.extend hu hone (by omega), by simp⟩

theorem alignedByte_spec {c : AlignedScan} (hf : s.Fits) (hcount : count < 2 ^ 32)
    (hb : 8 * b < s.totalPages) (h : AlignedInv s a count (8 * b) c) :
    BodyPost (fun c => AlignedInv s a count (8 * b + 8) c ∨ (ScanNone s a count ∧ s.totalPages ≤ 8 * b + 8))
      (fun _ => ScanNone s a count) (fun _ p => ScanFound s a count p) (alignedByte s count a b c) := by
  have hloop := forLoop_rule (fun k c => AlignedInv s a count (8 * b + k) c)
    (E := fun c => AlignedInv s a count (8 * b + 8) c ∨ (ScanNone s a count ∧ s.totalPages ≤ 8 * b + 8))
    (Q := fun _ p => ScanFound s a count p) 8 0 c h (fun _ hs => .inl hs)
    (fun k c _ hk hc => alignedBit_spec hf hcount hb (by omega) hc)
  unfold alignedByte
  split
  · rename_i hfull
    exact .inl ⟨h.1.resetByte hfull _, by simp⟩
  · exact hloop.cases (fun _ h => h) (fun _ _ h => h)

/-- **The aligned search finds the lowest aligned run of `count` free pages**, or there is none. -/
theorem alignedSearch_spec (hf : s.Fits) (hc : 0 < count) (hcount : count < 2 ^ 32) :
    LoopPost (fun _ => ScanNone s a count) (fun _ p => ScanFound s a count p)
      (forLoop (alignedByte s count a) s.bitmapBytes 0 ⟨0, 0, false⟩) := by
  have hbytes := bitmapBytes_of_fits hf
  refine forLoop_rule (fun b c => AlignedInv s a count (8 * b) c ∨ (ScanNone s a count ∧ s.totalPages ≤ 8 * b)) _ 0 _
    (.inl ⟨ScanInv.zero s a count hc, by simp⟩) (fun c hc => ?_) (fun b c _ hb hc => ?_)
  · rcases hc with hc | hc
    · exact hc.1.none (by omega)
    · exact hc.1
  · rcases hc with hc | hc
    · exact alignedByte_spec hf hcount (by omega) hc
    · omega

def AlignedScan.scan (c : AlignedScan) : Scan := ⟨c.continuous, c.startPage⟩

/-- The plain search is the aligned one with alignment 1. -/
theorem findBit_aligned (k : Nat) (c : AlignedScan) :
    findBit s count b k c.scan = ((alignedBit s count 1 b k c).1.scan, (alignedBit s count 1 b k c).2) := by
  have hone : ¬ ((!c.inAligned) = true ∧ u32 (b * 8 + k) % 1 ≠ 0) := fun hc => hc.2 (mod_one _)
  unfold findBit alignedBit AlignedScan.scan
  simp only [if_neg hone]
  split
  · rfl
  split
  · by_cases hz : c.continuous = 0
    · simp only [if_pos hz]
      split <;> rfl
    · simp only [if_neg hz]
      split <;> rfl
  · rfl

theorem findByte_aligned (b : Nat) (c : AlignedScan) :
    findByte s count b c.scan = ((alignedByte s count 1 b c).1.scan, (alignedByte s count 1 b c).2) := by
  unfold findByte alignedByte
  split
  · rfl
  · rw [forLoop_map AlignedScan.scan findBit_aligned 8 0 c]
    rcases forLoop (alignedBit s count 1 b) 8 0 c with ⟨c', _ | p⟩ <;> rfl

/-- **The plain search finds the lowest run of `count` free pages**, or there is none. -/
theorem pmmFindContinuousPages_spec (hf : s.Fits) (hc : 0 < count) (hcount : count < 2 ^ 32) :
    ScanFound s 1 count (s.pmmFindContinuousPages count) ∨
      (s.pmmFindContinuousPages count = noPage ∧ ScanNone s 1 count) := by
  unfold pmmFindContinuousPages
  by_cases hbig : count > s.totalPages
  · rw [if_pos (.inr hbig)]
    exact .inr ⟨rfl, fun p _ hp => by omega⟩
  rw [if_neg (by omega), show (⟨0, 0⟩ : Scan) = AlignedScan.scan ⟨0, 0, false⟩ from rfl,
    forLoop_map AlignedScan.scan findByte_aligned]
  exact (alignedSearch_spec hf hc hcount).cases (fun _ hc => .inr ⟨rfl, hc⟩) (fun _ _ hp => .inl hp)

end

/-! ## Marking -/

theorem markPage_used {t : Pmm} {start i : Nat} (hf : t.Fits) (hlt : start + i < t.totalPages) (mark : Bool) :
    ∃ u, markPage start mark i t = (u, .next) ∧ SameFrame t u ∧ ∀ j, u.used j = if j = start + i then mark
      else t.used j := by
  have hidx : u32 (start + i) = start + i := by unfold Fits at hf; rw [u32_of_lt (by omega)]
  unfold markPage
  simp only [hidx]
  rw [if_neg (not_le.2 hlt)]
  have hsame : maskTest (t.bits ((start + i) / 8)) ((start + i) % 8) = mark →
      ∀ j, t.used j = if j = start + i then mark else t.used j := fun hm j => by
    split
    · rename_i hj
      rwa [hj]
    · rfl
  cases mark with
  | true =>
    cases hm : maskTest (t.bits ((start + i) / 8)) ((start + i) % 8) with
    | true => exact ⟨t, rfl, SameFrame.rfl' t, hsame hm⟩
    | false =>
      refine ⟨_, rfl, ⟨rfl, rfl, rfl⟩, fun j => ?_⟩
      rw [incUsed_used, used_set _ _ _ _ (mod_lt _ (by decide)), page_split]
      by_cases hj : j = start + i <;> simp [hj]
  | false =>
    cases hm : maskTest (t.bits ((start + i) / 8)) ((start + i) % 8) with
    | true =>
      refine ⟨_, rfl, ⟨rfl, rfl, rfl⟩, fun j => ?_⟩
      rw [decUsed_used, used_clear _ _ _ _ (mod_lt _ (by decide)), page_split]
      by_cases hj : j = start + i <;> simp [hj]
    | false => exact ⟨t, rfl, SameFrame.rfl' t, hsame hm⟩

/-- **Marking a range in bounds gives its pages the mark, and no others.** -/
theorem pmmMarkRange_used {start : Nat} (hf : s.Fits) (hb : start + n ≤ s.totalPages) (mark : Bool) :
    SameFrame s (s.pmmMarkRange start n mark) ∧
      ∀ j, (s.pmmMarkRange start n mark).used j = if start ≤ j ∧ j < start + n then mark else s.used j := by
  refine LoopPost.state
    (forLoop_rule (fun i t => SameFrame s t ∧ ∀ j, t.used j = if start ≤ j ∧ j < start + i then mark else s.used j) n 0
      s ⟨SameFrame.rfl' s, fun j => (if_neg (by omega)).symm⟩ (fun t ht => by rwa [zero_add] at ht) ?_)
  rintro i t - hi ⟨hframe, hused⟩
  have htot := hframe.total
  obtain ⟨u, hu, hsame, hj⟩ := @markPage_used t start i (by unfold Fits at *; omega) (by omega) mark
  rw [hu]
  refine ⟨hframe.trans hsame, fun j => ?_⟩
  rw [hj, hused]
  by_cases hlast : j = start + i
  · rw [if_pos hlast, if_pos (by omega)]
  · rw [if_neg hlast]
    exact if_congr (by omega) rfl rfl

theorem pmmMarkRange_takes {start : Nat} (hf : s.Fits) (hb : start + n ≤ s.totalPages)
    (hfree : ∀ j, start ≤ j → j < start + n → s.used j = false) : Takes s (s.pmmMarkRange start n true) start n := by
  obtain ⟨hframe, hused⟩ := pmmMarkRange_used hf hb true
  refine ⟨hframe, hb, hfree, fun j => ?_⟩
  rw [hused]
  by_cases hj : start ≤ j ∧ j < start + n <;> simp [hj]

/-- Clearing at turn `i`: the first `i` pages of the range are free, the rest as before. -/
structure ClearInv (s s' : Pmm) (start i : Nat) : Prop where
  frame : SameFrame s s'
  used : ∀ j, s'.used j = (s.used j && !decide (start ≤ j ∧ j < start + i))

/-- **Unmarking a range in bounds frees exactly its pages.** -/
theorem pmmMarkRange_clears {start : Nat} (hf : s.Fits) (hb : start + n ≤ s.totalPages) :
    ClearInv s (s.pmmMarkRange start n false) start n := by
  obtain ⟨hframe, hused⟩ := pmmMarkRange_used hf hb false
  refine ⟨hframe, fun j => ?_⟩
  rw [hused]
  by_cases hj : start ≤ j ∧ j < start + n <;> simp [hj]

/-! ## First fit -/

/-- The `n` pages from `i` on are managed and free, and `i` is a multiple of `a`. -/
structure RunAt (s : Pmm) (a n i : Nat) : Prop where
  aligned : i % a = 0
  bound : i + n ≤ s.totalPages
  free : ∀ j, i ≤ j → j < i + n → s.used j = false

/-- **First fit**: the call marks the lowest run that fits and returns its address, or returns `NULL` if there is none;
no other bit of a managed page changes. -/
def FirstFit (s : Pmm) (a n : Nat) (s' : Pmm) (addr : Nat) : Prop :=
  (∃ i, RunAt s a n i ∧ (∀ p, RunAt s a n p → i ≤ p) ∧ addr = s.pageAddr i ∧
    ∀ j, j < s.totalPages → s'.used j = (s.used j || decide (i ≤ j ∧ j < i + n))) ∨
  ((∀ i, ¬ RunAt s a n i) ∧ addr = 0 ∧ ∀ j, j < s.totalPages → s'.used j = s.used j)

theorem ScanFound.firstFit {i : Nat} (hf : s.Fits) (h : ScanFound s a n i) :
    FirstFit s a n (s.pmmMarkRange i n true) ((s.pmmMarkRange i n true).pageAddr i) := by
  have htakes := pmmMarkRange_takes hf h.bound h.free
  refine .inl ⟨i, ⟨h.aligned, h.bound, h.free⟩, fun p hp => ?_, pageAddr_frame htakes.frame i, fun j _ => htakes.used j⟩
  refine not_lt.1 (fun hlt => ?_)
  obtain ⟨j, hpj, hjn, hu⟩ := h.first p hp.aligned hlt
  rw [hp.free j hpj hjn] at hu
  cases hu

theorem ScanNone.not_runAt (h : ScanNone s a n) (i : Nat) : ¬ RunAt s a n i := by
  intro hi
  obtain ⟨j, hij, hjn, hu⟩ := h i hi.aligned hi.bound
  rw [hi.free j hij hjn] at hu
  cases hu

theorem pmmAllocPage_firstFit (hf : s.Fits) (hp : s.bitmap ≠ 0) :
    FirstFit s 1 1 s.pmmAllocPage.1 s.pmmAllocPage.2 := by
  rcases pmmAllocPage_spec hf hp with ⟨⟨i, htakes, hlow, haddr⟩, -⟩ | ⟨hnull, hseek, -⟩
  · refine .inl ⟨i, ⟨mod_one i, htakes.bound, htakes.free⟩, fun p hrun => ?_, haddr, fun j _ => htakes.used j⟩
    refine not_lt.1 (fun hlt => ?_)
    have hu := hlow p hlt
    rw [hrun.free p (le_refl p) (lt_succ_self p)] at hu
    cases hu
  · refine .inr ⟨fun i hrun => ?_, hnull, hseek.low⟩
    have hu := hseek.full i hrun.bound hrun.bound
    rw [hrun.free i (le_refl i) (lt_succ_self i)] at hu
    cases hu

theorem pmmAllocRange_firstFit (hf : s.Fits) (hn : 0 < n) (hlt : n < 2 ^ 32) :
    FirstFit s 1 n (s.pmmAllocRange n).1 (s.pmmAllocRange n).2.1 := by
  unfold pmmAllocRange
  simp only [u32_of_lt hlt]
  rw [if_neg (by omega)]
  rcases pmmFindContinuousPages_spec hf hn hlt with hfound | ⟨hnone, hscan⟩
  · have hbound := hfound.bound
    rw [if_neg (by unfold Fits at hf; unfold noPage; omega)]
    exact hfound.firstFit hf
  · rw [if_pos hnone]
    exact .inr ⟨hscan.not_runAt, rfl, fun _ _ => rfl⟩

theorem pmmAllocAlignedRange_firstFit (hf : s.Fits) (hn : 0 < n) (hlt : n < 2 ^ 32)
    (ha : a.isPowerOfTwo) (halt : a < 2 ^ 32) :
    FirstFit s a n (s.pmmAllocAlignedRange n a).1 (s.pmmAllocAlignedRange n a).2.1 := by
  obtain ⟨k, hk⟩ := ha
  have hpos : 0 < a := hk ▸ Nat.two_pow_pos k
  have hmask : a &&& (a - 1) = 0 := by rw [hk, and_two_pow_sub_one_eq_mod, mod_self]
  have hsearch := alignedSearch_spec (a := a) hf hn hlt
  unfold pmmAllocAlignedRange
  simp only [u32_of_lt hlt, u32_of_lt halt]
  rw [if_neg (by omega), if_neg (fun hc => hc hmask)]
  cases hr : (forLoop (alignedByte s n a) s.bitmapBytes 0 ⟨0, 0, false⟩).2 with
  | some i => exact (hsearch.2 i hr).firstFit hf
  | none => exact .inr ⟨(hsearch.1 hr).not_runAt, rfl, fun _ _ => rfl⟩

/-- **The three searches are first fit and complete**, for every bitmap. -/
theorem searches_firstFit {s : Pmm} (hf : s.totalPages ≤ 536870912) (hp : s.bitmap ≠ 0) :
    FirstFit s 1 1 s.pmmAllocPage.1 s.pmmAllocPage.2 ∧
    (∀ n, 0 < n → n < 4294967296 → FirstFit s 1 n (s.pmmAllocRange n).1 (s.pmmAllocRange n).2.1) ∧
    ∀ n a, 0 < n → n < 4294967296 → a.isPowerOfTwo → a < 4294967296 →
      FirstFit s a n (s.pmmAllocAlignedRange n a).1 (s.pmmAllocAlignedRange n a).2.1 :=
  ⟨pmmAllocPage_firstFit hf hp, fun _ hn hlt => pmmAllocRange_firstFit hf hn hlt,
    fun _ _ hn hlt ha halt => pmmAllocAlignedRange_firstFit hf hn hlt ha halt⟩

def twelvePages : Pmm :=
  { bitmap := 4096, bits := fun b => if b = 0 then 0x21#8 else 0x00#8, baseAddr := 1048576, totalPages := 12,
    usedPages := 2 }

theorem twelvePages_firstFit : FirstFit twelvePages 1 1 twelvePages.pmmAllocPage.1 twelvePages.pmmAllocPage.2 ∧
    FirstFit twelvePages 1 5 (twelvePages.pmmAllocRange 5).1 (twelvePages.pmmAllocRange 5).2.1 ∧
    FirstFit twelvePages 4 3 (twelvePages.pmmAllocAlignedRange 3 4).1 (twelvePages.pmmAllocAlignedRange 3 4).2.1 := by
  obtain ⟨hpage, hrange, haligned⟩ := @searches_firstFit twelvePages (by decide) (by decide)
  exact ⟨hpage, hrange 5 (by decide) (by decide), haligned 3 4 (by decide) (by decide) ⟨2, rfl⟩ (by decide)⟩

end Pmm
end OS64
