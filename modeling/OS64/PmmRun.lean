import OS64.PmmSpec
import OS64.Span
/-!
# PmmRun — runs of the allocator: live allocations are disjoint, unless the address product wraps

A run starts from any record and calls the five operations in any order, a free naming only pages of live allocations.
The allocator multiplies a page index by the page size in 32 bits, so the address of page `2^20` and above is taken
modulo 4 GiB.  `allocSafe_iff` says exactly from which records every run is safe: those whose free pages all have an
address the product can express (`NoTrunc`).
-/
namespace OS64

open List Nat
namespace Pmm

variable {s s₀ : Pmm} {addr i n : Nat} {live : List Span}

def Op.pages : Op → Nat
  | .allocPage => 1
  | .allocRange n => u32 n
  | .allocAlignedRange n _ => u32 n
  | .freePage _ => 0
  | .freeRange _ _ => 0

/-- **Every allocating call takes a free range, or takes nothing and returns `NULL`**; the address it returns is the
32-bit product's. -/
theorem exec_alloc (hf : s.Fits) (op : Op) (hop : ∀ a n, op ≠ .freePage a ∧ op ≠ .freeRange a n) :
    (∃ i, 0 < op.pages ∧ Takes s (s.exec op).1 i op.pages ∧ (s.exec op).2 = s.pageAddr i) ∨
      ((s.exec op).2 = 0 ∧ SameFrame s (s.exec op).1 ∧ ∀ j, j < s.totalPages → (s.exec op).1.used j = s.used j) := by
  have hsame : SameFrame s s ∧ ∀ j, j < s.totalPages → s.used j = s.used j := ⟨SameFrame.rfl' s, fun _ _ => rfl⟩
  cases op with
  | allocPage =>
    by_cases hp : s.bitmap = 0
    · have : s.exec .allocPage = (s, 0) := by simp only [exec, pmmAllocPage, if_pos hp]
      rw [this]
      exact .inr ⟨rfl, hsame⟩
    · rcases pmmAllocPage_spec hf hp with ⟨⟨i, ht, -, ha⟩, -⟩ | ⟨ha, hk, -⟩
      · exact .inl ⟨i, one_pos, ht, ha⟩
      · exact .inr ⟨ha, hk.frame, hk.low⟩
  | allocRange n =>
    simp only [exec, pmmAllocRange]
    by_cases hn : u32 n = 0
    · rw [if_pos hn]; exact .inr ⟨rfl, hsame⟩
    rw [if_neg hn]
    rcases pmmFindContinuousPages_spec hf (Nat.pos_of_ne_zero hn) (u32_lt n) with hfound | ⟨hnone, -⟩
    · have hne : s.pmmFindContinuousPages (u32 n) ≠ noPage := by
        have := hfound.bound
        unfold Fits at hf
        unfold noPage
        omega
      rw [if_neg hne]
      have ht := pmmMarkRange_takes hf hfound.bound hfound.free
      exact .inl ⟨_, Nat.pos_of_ne_zero hn, ht, pageAddr_frame ht.frame _⟩
    · rw [if_pos hnone]; exact .inr ⟨rfl, hsame⟩
  | allocAlignedRange n a =>
    simp only [exec, pmmAllocAlignedRange]
    by_cases hn : u32 n = 0 ∨ u32 a = 0
    · rw [if_pos hn]; exact .inr ⟨rfl, hsame⟩
    rw [if_neg hn]
    split
    · exact .inr ⟨rfl, hsame⟩
    have hspec := alignedSearch_spec (a := u32 a) hf (Nat.pos_of_ne_zero (fun h => hn (.inl h))) (u32_lt n)
    split
    · rename_i start hstart
      have hfound := hspec.2 start hstart
      have ht := pmmMarkRange_takes hf hfound.bound hfound.free
      exact .inl ⟨start, Nat.pos_of_ne_zero (fun h => hn (.inl h)), ht, pageAddr_frame ht.frame _⟩
    · exact .inr ⟨rfl, hsame⟩
  | freePage addr => exact absurd rfl (hop addr 0).1
  | freeRange addr n => exact absurd rfl (hop addr n).2

/-! ## Runs -/

/-- The range an allocating call adds to the live ones when it returns `addr`. -/
def grant (addr n : Nat) (live : List Span) : List Span :=
  if h : addr ≠ 0 ∧ 0 < n then ⟨addr, addr + pageSize * n, by unfold pageSize; omega⟩ :: live else live

def Op.Allowed (live : List Span) : Op → Prop
  | .freePage addr => ∃ r ∈ live, r.Has (clearLow 12 (u64 addr))
  | .freeRange addr n => 0 < u32 n ∧ ∀ k, k < u32 n → ∃ r ∈ live, r.Has (clearLow 12 (u64 addr) + pageSize * k)
  | _ => True

/-- The live ranges after a call that returned `ret`: freed pages are cut out of the allocations they belonged to. -/
def Op.liveAfter (ret : Nat) (live : List Span) : Op → List Span
  | .freePage addr => live.flatMap (Span.cut (clearLow 12 (u64 addr)) (clearLow 12 (u64 addr) + pageSize))
  | .freeRange addr n =>
    live.flatMap (Span.cut (clearLow 12 (u64 addr)) (clearLow 12 (u64 addr) + pageSize * u32 n))
  | op => grant ret op.pages live

inductive Reach (s₀ : Pmm) : Pmm → List Span → Prop
  | start : Reach s₀ s₀ []
  | step {s : Pmm} {live : List Span} (op : Op) (h : Reach s₀ s live) (hop : op.Allowed live) :
      Reach s₀ (s.exec op).1 (op.liveAfter (s.exec op).2 live)

/-- **The returned address is exact**: `base_addr + 4096 * i`, with `i` the first bit the call set. -/
def AddrExact (s : Pmm) (op : Op) : Prop :=
  (s.exec op).2 ≠ 0 → ∃ i, (s.exec op).2 = s.baseAddr + pageSize * i ∧ s.used i = false ∧
    (s.exec op).1.used i = true ∧ ∀ j, j < i → (s.exec op).1.used j = s.used j

/-- **Every run from `s₀` is safe**: in every state reached the live ranges are pairwise disjoint and inside the
managed range, and every next call returns an exact address. -/
def AllocSafe (s₀ : Pmm) : Prop :=
  ∀ s live, Reach s₀ s live →
    live.Pairwise Span.Apart ∧
    (∀ r ∈ live, s₀.baseAddr ≤ r.lo ∧ r.hi ≤ s₀.baseAddr + pageSize * s₀.totalPages) ∧
    ∀ op : Op, op.Allowed live → AddrExact s op

/-- **The address product is exact at page `i`**: below page `2^20` and below the top of the address space.  The other
disjunct is the page whose truncated address is `0`, which callers read as a failed call. -/
def NoTrunc (s : Pmm) (i : Nat) : Prop :=
  (i < 1048576 ∧ s.baseAddr + pageSize * i < 18446744073709551616) ∨
    (s.baseAddr + pageSize * (i % 1048576)) % 18446744073709551616 = 0

theorem noTrunc_iff (hb : s.baseAddr < 2 ^ 64) (hi : i < 2 ^ 29) :
    NoTrunc s i ↔ s.pageAddr i = 0 ∨ s.pageAddr i = s.baseAddr + pageSize * i := by
  unfold NoTrunc pageAddr u64 u32 pageSize
  omega

/-! ## Safe runs -/

/-- What a safe run carries: live ranges are whole pages in use, and every page that is free or live has an exact
address. -/
structure RunInv (s₀ s : Pmm) (live : List Span) : Prop where
  frame : SameFrame s₀ s
  apart : live.Pairwise Span.Apart
  pages : ∀ r ∈ live, ∃ p n, r.lo = s₀.baseAddr + pageSize * p ∧ r.hi = s₀.baseAddr + pageSize * (p + n) ∧
    p + n ≤ s₀.totalPages
  taken : ∀ i, i < s₀.totalPages → (∃ r ∈ live, r.Has (s₀.baseAddr + pageSize * i)) → s.used i = true
  exact : ∀ i, i < s₀.totalPages → (s.used i = false ∨ ∃ r ∈ live, r.Has (s₀.baseAddr + pageSize * i)) → NoTrunc s₀ i

theorem RunInv.start (h : ∀ i, i < s₀.totalPages → s₀.used i = false → NoTrunc s₀ i) : RunInv s₀ s₀ [] := by
  refine ⟨SameFrame.rfl' s₀, List.Pairwise.nil, fun r hr => (by cases hr), fun i _ hr => ?_, fun i hi hr => ?_⟩
  · obtain ⟨r, hr, -⟩ := hr
    cases hr
  · rcases hr with hr | ⟨r, hr, -⟩
    · exact h i hi hr
    · cases hr

theorem RunInv.apart_free (h : RunInv s₀ s live) {t : Span}
    (hlo : t.lo = s₀.baseAddr + pageSize * i) (hhi : t.hi = s₀.baseAddr + pageSize * (i + n))
    (hfree : ∀ j, i ≤ j → j < i + n → s.used j = false) : ∀ r ∈ live, Span.Apart t r := fun r hr => by
  obtain ⟨p, m, hrlo, hrhi, hpm⟩ := h.pages r hr
  refine Span.apart_of_forall (fun a ha hra => ?_)
  unfold Span.Has at ha hra
  unfold pageSize at hlo hhi hrlo hrhi
  -- the page both ranges share
  obtain ⟨j, hj⟩ : ∃ j, j = (a - s₀.baseAddr) / 4096 := ⟨_, rfl⟩
  have hin : r.Has (s₀.baseAddr + pageSize * j) := by unfold Span.Has pageSize; omega
  have hu := h.taken j (by omega) ⟨r, hr, hin⟩
  rw [hfree j (by omega) (by omega)] at hu
  cases hu

theorem RunInv.alloc {s' : Pmm} (h : RunInv s₀ s live) (hb : s₀.baseAddr < 2 ^ 64)
    (hf : s₀.Fits) (hn : 0 < n) (ht : Takes s s' i n) (ha : addr = s.pageAddr i) :
    RunInv s₀ s' (grant addr n live) ∧ (addr ≠ 0 → addr = s.baseAddr + pageSize * i) := by
  have hbound : i + n ≤ s₀.totalPages := by rw [← h.frame.total]; exact ht.bound
  have haddr : addr = 0 ∨ addr = s₀.baseAddr + pageSize * i := by
    rw [ha, pageAddr_frame h.frame]
    unfold Fits at hf
    exact (noTrunc_iff hb (by omega)).1 (h.exact i (by omega) (.inl (ht.free i (le_refl i) (by omega))))
  have hused : ∀ j, s.used j = true → s'.used j = true := fun j hj => by rw [ht.used, hj]; rfl
  have hfree : ∀ j, s'.used j = false → s.used j = false := fun j hj => by
    cases hs : s.used j with
    | false => rfl
    | true => rw [hused j hs] at hj; cases hj
  refine ⟨?_, fun hne => by rw [h.frame.base]; exact haddr.resolve_left hne⟩
  by_cases h0 : addr = 0
  · have hg : grant addr n live = live := dif_neg (fun hc => hc.1 h0)
    rw [hg]
    exact ⟨h.frame.trans ht.frame, h.apart, h.pages, fun j hj hr => hused j (h.taken j hj hr),
      fun j hj hr => h.exact j hj (hr.imp (hfree j) id)⟩
  have haddr := haddr.resolve_left h0
  have hlt : addr < addr + pageSize * n := by unfold pageSize; omega
  have hhi : addr + pageSize * n = s₀.baseAddr + pageSize * (i + n) := by rw [haddr]; unfold pageSize; omega
  have hg : grant addr n live = ⟨addr, addr + pageSize * n, hlt⟩ :: live := dif_pos ⟨h0, hn⟩
  rw [hg]
  refine ⟨h.frame.trans ht.frame, ?_, ?_, ?_, ?_⟩
  · exact List.Pairwise.cons (h.apart_free haddr hhi ht.free) h.apart
  · intro r hr
    rcases mem_cons.1 hr with rfl | hr
    · exact ⟨i, n, haddr, hhi, hbound⟩
    · exact h.pages r hr
  · rintro j hj ⟨r, hr, hrj⟩
    rcases mem_cons.1 hr with rfl | hr
    · unfold Span.Has pageSize at hrj
      unfold pageSize at haddr hhi
      rw [ht.used, decide_eq_true (by simp only at hrj; omega), Bool.or_true]
    · exact hused j (h.taken j hj ⟨r, hr, hrj⟩)
  · intro j hj hr
    rcases hr with hr | ⟨r, hr, hrj⟩
    · exact h.exact j hj (.inl (hfree j hr))
    rcases mem_cons.1 hr with rfl | hr
    · unfold Span.Has pageSize at hrj
      unfold pageSize at haddr hhi
      exact h.exact j hj (.inl (ht.free j (by simp only at hrj; omega) (by simp only at hrj; omega)))
    · exact h.exact j hj (.inr ⟨r, hr, hrj⟩)

/-- **Freeing live pages keeps the invariant**, with those pages cut out of the live ranges. -/
theorem RunInv.free {s' : Pmm} (h : RunInv s₀ s live) {p : Nat} (hframe : SameFrame s s')
    (hkeep : ∀ j, j < s₀.totalPages → ¬ (p ≤ j ∧ j < p + n) → s'.used j = s.used j)
    (hlive : ∀ j, p ≤ j → j < p + n → ∃ r ∈ live, r.Has (s₀.baseAddr + pageSize * j)) :
    RunInv s₀ s' (live.flatMap (Span.cut (s₀.baseAddr + pageSize * p) (s₀.baseAddr + pageSize * (p + n)))) := by
  have hback : ∀ j, (∃ t ∈ live.flatMap (Span.cut (s₀.baseAddr + pageSize * p) (s₀.baseAddr + pageSize * (p + n))),
      t.Has (s₀.baseAddr + pageSize * j)) →
      (∃ r ∈ live, r.Has (s₀.baseAddr + pageSize * j)) ∧ ¬ (p ≤ j ∧ j < p + n) := by
    rintro j ⟨t, ht, htj⟩
    obtain ⟨r, hr, ht⟩ := mem_flatMap.1 ht
    obtain ⟨hrj, hout⟩ := Span.Has.of_cut ht htj
    refine ⟨⟨r, hr, hrj⟩, ?_⟩
    unfold pageSize at hout
    omega
  refine ⟨h.frame.trans hframe, Span.pairwise_cut (by unfold pageSize; omega) h.apart, ?_, ?_, ?_⟩
  · intro t ht
    obtain ⟨r, hr, ht⟩ := mem_flatMap.1 ht
    obtain ⟨q, m, hlo, hhi, hqm⟩ := h.pages r hr
    have hlt := t.lt
    unfold pageSize at *
    rcases Span.mem_cut ht with ⟨htlo, hthi⟩ | ⟨htlo, hthi⟩
    · by_cases hc : r.hi ≤ s₀.baseAddr + 4096 * p
      · exact ⟨q, m, by omega, by omega, hqm⟩
      · exact ⟨q, p - q, by omega, by omega, by omega⟩
    · by_cases hc : s₀.baseAddr + 4096 * (p + n) ≤ r.lo
      · exact ⟨q, m, by omega, by omega, hqm⟩
      · exact ⟨p + n, q + m - (p + n), by omega, by omega, by omega⟩
  · intro j hj hr
    obtain ⟨hr, hout⟩ := hback j hr
    rw [hkeep j hj hout]
    exact h.taken j hj hr
  · intro j hj hr
    by_cases hin : p ≤ j ∧ j < p + n
    · exact h.exact j hj (.inr (hlive j hin.1 hin.2))
    · rcases hr with hr | hr
      · exact h.exact j hj (.inl (by rwa [← hkeep j hj hin]))
      · exact h.exact j hj (.inr (hback j hr).1)

theorem RunInv.page_of_live (h : RunInv s₀ s live) {a : Nat} (ha : a % 4096 = 0)
    (hbase : s₀.baseAddr % 4096 = 0) (hr : ∃ r ∈ live, r.Has a) :
    s₀.baseAddr ≤ a ∧ ∃ j, j < s₀.totalPages ∧ a = s₀.baseAddr + pageSize * j := by
  obtain ⟨r, hr, hra⟩ := hr
  obtain ⟨p, n, hlo, hhi, hpn⟩ := h.pages r hr
  unfold Span.Has at hra
  unfold pageSize at *
  exact ⟨by omega, (a - s₀.baseAddr) / 4096, by omega, by omega⟩

theorem clearLow_page (x : Nat) : clearLow 12 (u64 x) = u64 x / 4096 * 4096 :=
  clearLow_eq 12 (u64 x) (by decide) (u64_lt x)

theorem RunInv.index_of_live (h : RunInv s₀ s live) (hf : s₀.Fits) {a j : Nat}
    (ha : a = s₀.baseAddr + pageSize * j) (hj : j < s₀.totalPages) :
    ¬ a < s.baseAddr ∧ u32 ((a - s.baseAddr) / pageSize) = j ∧ j < s.totalPages := by
  rw [h.frame.base, h.frame.total, ha, Nat.add_sub_cancel_left]
  unfold Fits at hf
  rw [Nat.mul_div_cancel_left j (by decide), u32_of_lt (by omega)]
  exact ⟨by omega, rfl, hj⟩

theorem RunInv.freePage (h : RunInv s₀ s live) (hbase : s₀.baseAddr % 4096 = 0)
    (hf : s₀.Fits) (hop : Op.Allowed live (.freePage addr)) :
    RunInv s₀ (s.exec (.freePage addr)).1 (Op.liveAfter 0 live (.freePage addr)) := by
  have halign : clearLow 12 (u64 addr) % 4096 = 0 := by rw [clearLow_page]; omega
  obtain ⟨hle, j, hj, haj⟩ := h.page_of_live halign hbase hop
  obtain ⟨hge, hidx, hjt⟩ := h.index_of_live hf haj hj
  have hcut : clearLow 12 (u64 addr) + pageSize = s₀.baseAddr + pageSize * (j + 1) := by
    rw [haj]; unfold pageSize; omega
  have hcode : s.pmmFreePage addr = s ∨
      s.pmmFreePage addr = (s.setByte (j / 8) (maskClear (s.bits (j / 8)) (j % 8))).decUsed := by
    unfold pmmFreePage
    simp only
    split
    · exact .inl rfl
    · rw [hidx, if_neg (by omega)]
      split
      · exact .inr rfl
      · exact .inl rfl
  simp only [exec, Op.liveAfter]
  rw [hcut, haj]
  refine h.free ?_ (fun i hi hout => ?_) (fun i hi hi' => ?_)
  · rcases hcode with hc | hc <;> rw [hc]
    · exact SameFrame.rfl' s
    · exact ⟨rfl, rfl, rfl⟩
  · rcases hcode with hc | hc <;> rw [hc]
    rw [decUsed_used, used_clear _ _ _ _ (mod_lt _ (by decide)), decide_eq_false (by omega),
      Bool.not_false, Bool.and_true]
  · obtain rfl : i = j := by omega
    rwa [← haj]

theorem RunInv.freeRange (h : RunInv s₀ s live) (hbase : s₀.baseAddr % 4096 = 0)
    (hf : s₀.Fits) (hop : Op.Allowed live (.freeRange addr n)) :
    RunInv s₀ (s.exec (.freeRange addr n)).1 (Op.liveAfter 0 live (.freeRange addr n)) := by
  obtain ⟨hn, hop⟩ := hop
  have halign : clearLow 12 (u64 addr) % 4096 = 0 := by rw [clearLow_page]; omega
  obtain ⟨-, j, hj, haj⟩ := h.page_of_live halign hbase (hop 0 hn)
  obtain ⟨hge, hidx, hjt⟩ := h.index_of_live hf haj hj
  have hcut : clearLow 12 (u64 addr) + pageSize * u32 n = s₀.baseAddr + pageSize * (j + u32 n) := by
    rw [haj]; unfold pageSize; omega
  -- the last page named is managed too, so the marking loop never leaves the managed range
  have hlast : j + u32 n ≤ s.totalPages := by
    obtain ⟨-, i, hi, hai⟩ := h.page_of_live (by unfold pageSize; omega) hbase (hop (u32 n - 1) (by omega))
    rw [h.frame.total]
    unfold pageSize at hai haj
    omega
  have hfs := h.frame.fits hf
  have hclears := pmmMarkRange_clears hfs hlast
  simp only [exec, Op.liveAfter]
  rw [hcut, haj]
  have hcode : s.pmmFreeRange addr n = s ∨ s.pmmFreeRange addr n = s.pmmMarkRange j (u32 n) false := by
    unfold pmmFreeRange
    simp only
    split
    · exact .inl rfl
    · rw [hidx, if_neg (by omega)]
      exact .inr rfl
  refine h.free ?_ (fun i hi hout => ?_) (fun i hi hi' => ?_)
  · rcases hcode with hc | hc <;> rw [hc]
    · exact SameFrame.rfl' s
    · exact hclears.frame
  · rcases hcode with hc | hc <;> rw [hc]
    rw [hclears.used, decide_eq_false hout, Bool.not_false, Bool.and_true]
  · have := hop (i - j) (by omega)
    rwa [haj, show s₀.baseAddr + pageSize * j + pageSize * (i - j) = s₀.baseAddr + pageSize * i by
      unfold pageSize; omega] at this

section Runs

variable {s₀ : Pmm} (hb : s₀.baseAddr < 18446744073709551616) (hbase : s₀.baseAddr % 4096 = 0) (hf : s₀.Fits)
include hb hf

theorem RunInv.grantStep {s : Pmm} {live : List Span} (h : RunInv s₀ s live) (op : Op)
    (hop : ∀ a n, op ≠ .freePage a ∧ op ≠ .freeRange a n) :
    RunInv s₀ (s.exec op).1 (grant (s.exec op).2 op.pages live) ∧ AddrExact s op := by
  have hfs := h.frame.fits hf
  rcases exec_alloc hfs op hop with ⟨i, hn, ht, ha⟩ | ⟨ha, hframe, hused⟩
  · obtain ⟨hinv, hexact⟩ := h.alloc hb hf hn ht ha
    refine ⟨hinv, fun hne => ⟨i, hexact hne, ht.free i (le_refl i) (by omega), ?_, fun j hj => ?_⟩⟩
    · rw [ht.used, decide_eq_true (by omega), Bool.or_true]
    · rw [ht.used, decide_eq_false (by omega), Bool.or_false]
  have hg : grant (s.exec op).2 op.pages live = live := dif_neg (fun hc => hc.1 ha)
  rw [hg]
  refine ⟨⟨h.frame.trans hframe, h.apart, h.pages, fun j hj hr => ?_, fun j hj hr => ?_⟩, fun hne => absurd ha hne⟩
  · rw [hused j (by rwa [h.frame.total])]; exact h.taken j hj hr
  · rw [hused j (by rwa [h.frame.total])] at hr; exact h.exact j hj hr

include hbase

theorem RunInv.step {s : Pmm} {live : List Span} (h : RunInv s₀ s live) (op : Op) (hop : op.Allowed live) :
    RunInv s₀ (s.exec op).1 (op.liveAfter (s.exec op).2 live) ∧ AddrExact s op := by
  cases op with
  | allocPage => exact h.grantStep hb hf .allocPage (fun a n => ⟨nofun, nofun⟩)
  | allocRange n => exact h.grantStep hb hf (.allocRange n) (fun a n => ⟨nofun, nofun⟩)
  | allocAlignedRange n a => exact h.grantStep hb hf (.allocAlignedRange n a) (fun a n => ⟨nofun, nofun⟩)
  | freePage addr => exact ⟨h.freePage hbase hf hop, fun hne => absurd rfl hne⟩
  | freeRange addr n => exact ⟨h.freeRange hbase hf hop, fun hne => absurd rfl hne⟩

/-- **Where every free page has an exact address, every run is safe.** -/
theorem allocSafe_of_noTrunc (h : ∀ i, i < s₀.totalPages → s₀.used i = false → NoTrunc s₀ i) : AllocSafe s₀ := by
  have hinv : ∀ s live, Reach s₀ s live → RunInv s₀ s live := fun s live hr => by
    induction hr with
    | start => exact RunInv.start h
    | step op _ hop ih => exact (ih.step hb hbase hf op hop).1
  intro s live hr
  have hs := hinv s live hr
  refine ⟨hs.apart, fun r hr => ?_, fun op hop => (hs.step hb hbase hf op hop).2⟩
  obtain ⟨p, n, hlo, hhi, hpn⟩ := hs.pages r hr
  unfold pageSize at *
  omega

end Runs

/-! ## Unsafe runs -/

/-- The records reached from `s₀` by allocating alone, pages and ranges. -/
inductive AllocRun (s₀ : Pmm) : Pmm → Prop
  | start : AllocRun s₀ s₀
  | page {s : Pmm} (h : AllocRun s₀ s) : AllocRun s₀ (s.exec .allocPage).1
  | range {s : Pmm} (n : Nat) (h : AllocRun s₀ s) : AllocRun s₀ (s.exec (.allocRange n)).1

theorem AllocRun.reach {s₀ s : Pmm} (h : AllocRun s₀ s) : ∃ live, Reach s₀ s live := by
  induction h with
  | start => exact ⟨[], Reach.start⟩
  | page _ ih => exact ih.elim (fun live hr => ⟨_, Reach.step .allocPage hr trivial⟩)
  | range n _ ih => exact ih.elim (fun live hr => ⟨_, Reach.step (.allocRange n) hr trivial⟩)

theorem allocRange_lowest {s : Pmm} (hf : s.Fits) {i n : Nat} (hn : 0 < n) (hi : i + n ≤ s.totalPages)
    (hfree : ∀ j, i ≤ j → j < i + n → s.used j = false) :
    ∃ j, j ≤ i ∧ Takes s (s.exec (.allocRange n)).1 j n ∧ (s.exec (.allocRange n)).2 = s.pageAddr j ∧
      ∀ p, p < j → ∃ k, p ≤ k ∧ k < p + n ∧ s.used k = true := by
  have htot : s.totalPages ≤ 2 ^ 29 := hf
  have hu : u32 n = n := u32_of_lt (by omega)
  -- the search cannot pass over `i`
  have hover : ∀ p, p = i → ¬ ∃ k, p ≤ k ∧ k < p + n ∧ s.used k = true := by
    rintro p rfl ⟨k, hk, hk', huk⟩
    rw [hfree k hk hk'] at huk
    cases huk
  rcases pmmFindContinuousPages_spec hf hn (by omega) with hfound | ⟨-, hnone⟩
  · have hne : s.pmmFindContinuousPages n ≠ noPage := by
      have := hfound.bound
      unfold noPage
      omega
    have ht := pmmMarkRange_takes hf hfound.bound hfound.free
    simp only [exec, pmmAllocRange, hu, if_neg hn.ne', if_neg hne]
    refine ⟨_, ?_, ht, pageAddr_frame ht.frame _, fun p hp => hfound.first p (mod_one p) hp⟩
    by_contra hgt
    exact hover i rfl (hfound.first i (mod_one i) (by omega))
  · exact absurd (hnone i (mod_one i) hi) (hover i rfl)

/-- **Taking one page at a time**, a run comes to a record in which a page free at the start is the lowest free one,
with nothing from it on taken yet. -/
theorem allocRun_lowest {s₀ : Pmm} (hf : s₀.Fits) {i : Nat} (hi : i < s₀.totalPages) (hfree : s₀.used i = false) :
    ∀ (m : Nat) (s : Pmm), AllocRun s₀ s → SameFrame s₀ s → (∀ j, i ≤ j → s.used j = s₀.used j) →
      i - numSet s.used i = m →
        ∃ s, AllocRun s₀ s ∧ SameFrame s₀ s ∧ (∀ j, i ≤ j → s.used j = s₀.used j) ∧ ∀ j, j < i → s.used j = true
  | 0, s, hr, hframe, hkeep, hm => by
    have hle := numSet_le s.used i
    exact ⟨s, hr, hframe, hkeep, count_iff_forall.1 (by unfold numSet at *; omega)⟩
  | m + 1, s, hr, hframe, hkeep, hm => by
    have hfs := hframe.fits hf
    obtain ⟨j, hji, ht, -, hlow⟩ := allocRange_lowest hfs one_pos (by rwa [hframe.total])
      (fun j h h' => by rw [hkeep j h, show j = i by omega, hfree])
    have hlt : j < i := by
      rcases hji.lt_or_eq with h | h
      · exact h
      subst h
      have : numSet s.used j = j := count_iff_forall.2 (fun p hp => by
        obtain ⟨k, hk, hk', hu⟩ := hlow p hp
        rwa [show p = k by omega])
      omega
    have hcount : numSet (s.exec (.allocRange 1)).1.used i = numSet s.used i + 1 := by
      refine numSet_flip hlt (ht.free j (le_refl j) (by omega)) ?_ (fun k _ hk => ?_)
      · rw [ht.used, decide_eq_true (by omega), Bool.or_true]
      · rw [ht.used, decide_eq_false (by omega), Bool.or_false]
    refine allocRun_lowest hf hi hfree m _ (AllocRun.range 1 hr) (hframe.trans ht.frame) (fun k hk => ?_) (by omega)
    rw [ht.used, hkeep k hk, decide_eq_false (by omega), Bool.or_false]

/-- **A run can be steered to hand out any free range**, at the address of its first page. -/
theorem allocRun_hands {s₀ : Pmm} (hf : s₀.Fits) {i n : Nat} (hn : 0 < n) (hi : i + n ≤ s₀.totalPages)
    (hfree : ∀ j, i ≤ j → j < i + n → s₀.used j = false) :
    ∃ s, AllocRun s₀ s ∧ SameFrame s₀ s ∧ Takes s (s.exec (.allocRange n)).1 i n ∧
      (s.exec (.allocRange n)).2 = s₀.pageAddr i := by
  obtain ⟨s, hr, hframe, hkeep, hlow⟩ := allocRun_lowest hf (by omega) (hfree i (le_refl i) (by omega)) _ s₀
    AllocRun.start (SameFrame.rfl' s₀) (fun _ _ => rfl) rfl
  have hfs := hframe.fits hf
  obtain ⟨j, hji, ht, haddr, -⟩ := allocRange_lowest hfs hn (by rwa [hframe.total])
    (fun j h h' => by rw [hkeep j h]; exact hfree j h h')
  obtain rfl : j = i := by
    rcases hji.lt_or_eq with hlt | heq
    · have := ht.free j (le_refl j) (by omega)
      rw [hlow j hlt] at this
      cases this
    · exact heq
  exact ⟨s, hr, hframe, ht, by rw [haddr, pageAddr_frame hframe]⟩

/-- **Where every run is safe, every free page has an exact address**: a run can be steered to hand out any of them. -/
theorem noTrunc_of_allocSafe {s₀ : Pmm} (hb : s₀.baseAddr < 2 ^ 64) (hf : s₀.Fits) (h : AllocSafe s₀)
    {i : Nat} (hi : i < s₀.totalPages) (hfree : s₀.used i = false) : NoTrunc s₀ i := by
  obtain ⟨s, hr, hframe, ht, haddr⟩ := allocRun_hands hf one_pos hi (fun j h h' => by rw [show j = i by omega, hfree])
  obtain ⟨live, hreach⟩ := hr.reach
  have hexact := (h s live hreach).2.2 (.allocRange 1) trivial
  unfold Fits at hf
  rw [noTrunc_iff hb (by omega), ← haddr]
  by_cases h0 : (s.exec (.allocRange 1)).2 = 0
  · exact .inl h0
  obtain ⟨k, hk, hkfree, hkused, -⟩ := hexact h0
  have hki : k = i := by
    rw [ht.used, hkfree, Bool.false_or, decide_eq_true_eq] at hkused
    omega
  rw [hk, hki, hframe.base]
  exact .inr rfl

/-- **From which records every run is safe**: exactly those whose free pages all have an address the 32-bit product
expresses. -/
theorem allocSafe_iff (s₀ : Pmm) (hb : s₀.baseAddr < 18446744073709551616) (hbase : s₀.baseAddr % 4096 = 0)
    (hf : s₀.Fits) : AllocSafe s₀ ↔ ∀ i, i < s₀.totalPages → s₀.used i = false → NoTrunc s₀ i :=
  ⟨fun h _ hi hfree => noTrunc_of_allocSafe hb hf h hi hfree, allocSafe_of_noTrunc hb hbase hf⟩

def eightPages : Pmm := ⟨4096, fun _ => 0x00#8, 1048576, 8, 0⟩

theorem allocSafe_eightPages : AllocSafe eightPages :=
  (allocSafe_iff eightPages (by decide) (by decide) (by decide)).2
    (fun i hi _ => .inl (by change i < 8 at hi; change _ ∧ 1048576 + 4096 * i < _; omega))

def pastFourGiB : Pmm := ⟨4096, fun b => if b = 131072 then 0xFE#8 else 0xFF#8, 1048576, 1048577, 1048576⟩

/-- **The page at index `2^20` is handed out at the address of page `0`.** -/
theorem pastFourGiB_unsafe : pastFourGiB.baseAddr % 4096 = 0 ∧ pastFourGiB.Fits ∧ ¬ AllocSafe pastFourGiB := by
  refine ⟨by decide, by decide, fun h => ?_⟩
  have := noTrunc_of_allocSafe (i := 1048576) (by decide) (by decide) h (by decide) (by decide)
  revert this
  unfold NoTrunc
  decide

end Pmm
end OS64
