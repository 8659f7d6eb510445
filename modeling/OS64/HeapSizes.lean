import OS64.HeapRun
import OS64.PmmRun
/-!
# HeapSizes — when a block is as large as asked for

Sizes are 64-bit words.  `align_up` takes the last seven of them to 0, and the sum `malloc_aligned` asks for wraps as
well: `malloc` then hands out a small block for a huge request.  `malloc_right_iff`, `calloc_right_iff` and
`aligned_right_iff` say when that happens.
-/
namespace OS64

open Nat Res
namespace Heap

variable {env : Heap → Nat → Option Mem} {s : Heap} {bs : List Block} {size : Nat}

/-- Pages come from `pmm_alloc_range`, on some manager of at most 2^29 pages. -/
def Paged (env : Heap → Nat → Option Mem) : Prop :=
  ∀ s n m, env s n = some m → ∃ pmm : Pmm, pmm.Fits ∧ (pmm.pmmAllocRange n).2.1 ≠ 0

/-- **A well-formed heap**: a list of blocks, no larger than the pages there can be. -/
structure WellFormed (s : Heap) (bs : List Block) : Prop extends Shape s bs where
  backed : s.currentSize ≤ 2199023255552

theorem allocRange_pages {pmm : Pmm} (hf : pmm.Fits) {n : Nat} (h : (pmm.pmmAllocRange n).2.1 ≠ 0) :
    u32 n ≠ 0 ∧ u32 n ≤ 2 ^ 29 := by
  rcases Pmm.exec_alloc hf (.allocRange n) (fun _ _ => ⟨nofun, nofun⟩) with ⟨i, hn, ht, -⟩ | ⟨h0, -⟩
  · have hbound : i + u32 n ≤ pmm.totalPages := ht.bound
    unfold Pmm.Fits at hf
    exact ⟨hn.ne', by omega⟩
  · exact absurd h0 h

/-- **Growing keeps a heap well-formed**, whatever the size asked for: a sum that wraps asks for more pages than there
are. -/
theorem WellFormed.expand (henv : Fresh env) (hpages : Paged env)
    (h : WellFormed s bs) (bytes : Nat) : (heapExpand s bytes (env s (pagesNeeded bytes))).2 = false ∨
      (heapExpand s bytes (env s (pagesNeeded bytes))).2 = true ∧
        ∃ b, WellFormed (heapExpand s bytes (env s (pagesNeeded bytes))).1 (bs ++ [b]) := by
  have hpage : pageSize = 4096 := rfl
  have hhdr : headerSize = 40 := rfl
  have hmax : heapMaxSize = 2 ^ 29 := rfl
  have hlt := pagesNeeded_bytes bytes
  have he := u64_of_lt hlt
  have hbacked := h.backed
  by_cases hlim : u64 (s.currentSize + pagesNeeded bytes * pageSize) > heapMaxSize
  · left
    unfold heapExpand
    simp only [he, if_pos hlim]
  cases hb : env s (pagesNeeded bytes) with
  | none =>
    left
    unfold heapExpand
    simp only [he, if_neg hlim]
  | some m =>
    right
    obtain ⟨pmm, hfits, hnull⟩ := hpages _ _ _ hb
    obtain ⟨hn0, hn⟩ := allocRange_pages hfits hnull
    unfold u32 at hn0 hn
    rw [hpage] at hlt hlim
    have hlim' : s.currentSize + pagesNeeded bytes * pageSize ≤ heapMaxSize := by
      unfold u64 at hlim
      rw [hpage]
      omega
    obtain ⟨hok, hsize, hshape, -⟩ := heapExpand_append h.toShape he (by rw [hpage]; omega) hlim' (henv _ _ _ hb)
    exact ⟨hok, _, hshape, by omega⟩

theorem Shape.size_le (h : Shape s bs) {b : Block} (hb : b ∈ bs) : b.size ≤ 2 ^ 62 := by
  have hbounds := h.tiles.mem.2 b hb
  have hsize := h.size
  have hsmall := h.small
  omega

theorem findFit_huge (h : Shape s bs) (hsize : 2 ^ 62 < size) : findFit s size = .ok 0 := by
  rcases findFit_spec h size with ⟨h0, -⟩ | ⟨pre, b, post, rfl, -, -, hsz, -⟩
  · exact h0
  · have := h.size_le (b := b) (by simp)
    omega

/-- **No block is found for a size beyond any heap's**: `malloc` gives up. -/
theorem findOrExpand_huge (henv : Fresh env) (hpages : Paged env)
    (hsize : 2 ^ 62 < size) : ∀ (left : Nat) {s : Heap} {bs : List Block}, WellFormed s bs →
    ∃ msg, findOrExpand env size left s = .panic msg
  | 0, s, bs, h => by
    unfold findOrExpand
    rw [findFit_huge h.toShape hsize]
    exact ⟨_, rfl⟩
  | left + 1, s, bs, h => by
    obtain ⟨hfails, hgrows⟩ := findOrExpand_grow (findFit_huge h.toShape hsize) left
    rcases h.expand henv hpages size with hno | ⟨hyes, b, h'⟩
    · exact hfails hno
    · rw [hgrows hyes]
      exact findOrExpand_huge henv hpages hsize left h'

/-! ## Which sizes are served -/

theorem malloc_served (henv : Fresh env) (h : Shape s bs) {n : Nat} (h0 : n ≠ 0)
    (hsize : alignUp n + 8192 < 13835058055282163712) :
    (CanServe env s bs (alignUp n) → ∃ s', malloc env s n = .ok (s', place s bs (alignUp n) + headerSize)) ∧
      (¬ CanServe env s bs (alignUp n) → ∃ msg, malloc env s n = .panic msg) := by
  rcases malloc_cases henv h h0 hsize with ⟨hno, hp⟩ | ⟨hyes, s', pre, b, sz, rest, post, hm, -, hplace, -⟩
  · exact ⟨fun hc => absurd hc hno, fun _ => hp⟩
  · exact ⟨fun _ => ⟨s', by rw [hm, hplace]⟩, fun hc => absurd hyes hc⟩

/-! ## The sizes that wrap -/

theorem alignUp_ge {n : Nat} (h : n + 7 < 2 ^ 64) : n ≤ alignUp n ∧ alignUp n ≤ n + 7 := by
  rw [alignUp_eq h]
  omega

theorem alignUp_wraps {n : Nat} (h : 2 ^ 64 ≤ n + 7) (hlt : n < 2 ^ 64) : alignUp n = 0 := by
  have hu : u64 (n + 7) < 7 := by
    unfold u64
    omega
  unfold alignUp
  rw [clearLow_eq 3 _ (by decide) (by omega)]
  omega

theorem alignUp_add (n : Nat) : alignUp n + 7 < 2 ^ 64 := by
  have hu := u64_lt (n + 7)
  unfold alignUp
  rw [clearLow_eq 3 _ (by decide) hu]
  omega

def Payload (s : Heap) (p n : Nat) : Prop :=
  ∃ bs b, Shape s bs ∧ b ∈ inUse bs ∧ p = b.addr + headerSize ∧ n ≤ b.size

/-- The `n` bytes at the pointer lie inside the payload of a block in use. -/
def Inside (s : Heap) (p n : Nat) : Prop :=
  ∃ bs b, Shape s bs ∧ b ∈ inUse bs ∧ b.addr + headerSize ≤ p ∧ p + n ≤ b.addr + headerSize + b.size

def MallocRight (env : Heap → Nat → Option Mem) (s : Heap) (n : Nat) : Prop :=
  ∀ s' p, malloc env s n = .ok (s', p) → p ≠ 0 → Payload s' p n

/-- What `calloc` returns has room for the product, and is cleared. -/
def CallocRight (env : Heap → Nat → Option Mem) (s : Heap) (m k : Nat) : Prop :=
  ∀ s' p, calloc env s m k = .ok (s', p) → p ≠ 0 → Payload s' p (m * k) ∧ ∀ i, i < m * k → s'.mem (p + i) = 0#8

/-- What `malloc_aligned` returns has its bytes inside the block. -/
def AlignedRight (env : Heap → Nat → Option Mem) (s : Heap) (n a : Nat) : Prop :=
  ∀ s' p, mallocAligned env s n a = .ok (s', p) → p ≠ 0 → Inside s' p n

theorem Inside.le {s : Heap} {p n : Nat} (h : Inside s p n) : n ≤ 2 ^ 62 := by
  obtain ⟨bs, b, hs, hb, hlo, hhi⟩ := h
  have := hs.size_le (mem_inUse.1 hb).1
  omega

theorem Payload.inside {s : Heap} {p n : Nat} (h : Payload s p n) : Inside s p n := by
  obtain ⟨bs, b, hs, hb, rfl, hn⟩ := h
  exact ⟨bs, b, hs, hb, le_rfl, by omega⟩

section Rights

variable {t : Heap} {a n p : Nat}

/-- **Sizes that `align_up` does not wrap are met**: for those beyond any heap, `malloc` does not return. -/
theorem mallocRight_of_lt (henv : Fresh env) (hpages : Paged env) (h : WellFormed s bs)
    (hn : n + 7 < 2 ^ 64) : MallocRight env s n := fun s' p hok hp => by
  by_cases hbig : n ≤ 2 ^ 63
  · rcases malloc_spec henv h.toShape hbig with ⟨msg, hm⟩ | ⟨-, hm⟩ | ⟨-, t, cs, b, hm, hcs, hb, htag, hsz, -, -⟩ <;>
      rw [hm] at hok <;> cases hok
    · exact absurd rfl hp
    · exact ⟨cs, b, hcs, mem_inUse.2 ⟨hb, htag⟩, rfl, hsz⟩
  · have hal := (alignUp_ge hn).1
    obtain ⟨msg, hm⟩ := malloc_panics (n := n) (by omega) (findOrExpand_huge henv hpages (by omega) 10 h)
    rw [hm] at hok
    cases hok

theorem malloc_wraps (henv : Fresh env) (h : WellFormed s bs) (hn : 2 ^ 64 ≤ n + 7) (hlt : n < 2 ^ 64) :
    (CanServe env s bs 0 → ∃ s', malloc env s n = .ok (s', place s bs 0 + headerSize)) ∧
      (¬ CanServe env s bs 0 → ∃ msg, malloc env s n = .panic msg) := by
  have h0 := alignUp_wraps hn hlt
  have hserved := malloc_served henv h.toShape (n := n) (by omega) (by omega)
  rwa [h0] at hserved

theorem malloc_right_iff (henv : Fresh env) (hpages : Paged env) (h : WellFormed s bs) (hlt : n < 2 ^ 64) :
    MallocRight env s n ↔ n + 7 < 2 ^ 64 ∨ ¬ CanServe env s bs 0 := by
  constructor
  · intro hright
    by_cases hn : n + 7 < 2 ^ 64
    · exact .inl hn
    · refine .inr (fun hserve => ?_)
      obtain ⟨s', hm⟩ := (malloc_wraps henv h (by omega) hlt).1 hserve
      have := (hright s' _ hm (succ_ne_zero _)).inside.le
      omega
  · rintro hcond s' p hok hp
    by_cases hn : n + 7 < 2 ^ 64
    · exact mallocRight_of_lt henv hpages h hn s' p hok hp
    · obtain ⟨msg, hm⟩ := (malloc_wraps henv h (by omega) hlt).2 (hcond.resolve_left hn)
      rw [hm] at hok
      cases hok

/-- **`realloc` of a block in use**, whatever the size: for those beyond any heap, it does not return. -/
theorem WellFormed.realloc_cases {b : Block} (henv : Fresh env) (hpages : Paged env) (h : WellFormed s bs) (hb : b ∈ bs)
    (ht : b.tag = false) (h0 : n ≠ 0) : (∃ msg, realloc env s (b.addr + headerSize) n = .panic msg) ∨
      ∃ s' bs' b', realloc env s (b.addr + headerSize) n = .ok (s', b'.addr + headerSize) ∧
        Moved s s' bs b (alignUp n) bs' b' := by
  by_cases hbig : alignUp n ≤ 2 ^ 62
  · exact (Heap.realloc_cases henv h.toShape hb ht h0 (by omega)).imp_left And.right
  · have hsz := h.toShape.size_le hb
    have hge := (alignUp_ge (alignUp_add n)).1
    obtain ⟨msg, hm⟩ := malloc_panics (n := alignUp n) (by omega) (findOrExpand_huge henv hpages (by omega) 10 h)
    exact .inl ⟨msg, by rw [realloc_eq h.toShape hb h0, if_neg (by omega), hm, panic_bind]⟩

/-! ## calloc -/

theorem calloc_of_malloc {m k : Nat} (hlt : m * k < 2 ^ 64) (h0 : m * k ≠ 0) (hp : p ≠ 0)
    (h : malloc env s (m * k) = .ok (t, p)) :
    calloc env s m k = .ok ({ t with mem := fill t.mem p (m * k) 0#8 }, p) := by
  rw [calloc_eq, if_pos ⟨hlt, h0⟩]
  simp only [h, ok_bind, if_neg hp, pure_eq]

theorem calloc_ok {m k : Nat} {s' : Heap} (h : calloc env s m k = .ok (s', p)) (hp : p ≠ 0) :
    m * k < 2 ^ 64 ∧ ∃ t, malloc env s (m * k) = .ok (t, p) ∧ s' = { t with mem := fill t.mem p (m * k) 0#8 } := by
  rw [calloc_eq] at h
  split at h
  · rename_i hc
    obtain ⟨⟨t, q⟩, hm, h⟩ := bind_ok h
    simp only at h
    split at h
    · cases h
      exact absurd rfl hp
    · cases h
      exact ⟨hc.1, t, hm, rfl⟩
  · cases h
    exact absurd rfl hp

theorem Payload.cleared (h : Payload t p n) :
    Payload { t with mem := fill t.mem p n 0#8 } p n ∧ ∀ i, i < n → fill t.mem p n 0#8 (p + i) = 0#8 := by
  obtain ⟨bs, b, hs, hb, rfl, hn⟩ := h
  have hmem := (mem_inUse.1 hb).1
  refine ⟨⟨bs, b, hs.scribble (fun c hc x hx hx' => fill_apart t.mem ?_), hb, rfl, hn⟩, fun i hi => ?_⟩
  · have := hs.spares hmem hc hx hx'
    omega
  · exact if_pos (by omega)

theorem calloc_right_iff (henv : Fresh env) (hpages : Paged env) (h : WellFormed s bs) (m k : Nat) :
    CallocRight env s m k ↔ m * k + 7 < 2 ^ 64 ∨ 2 ^ 64 ≤ m * k ∨ ¬ CanServe env s bs 0 := by
  constructor
  · intro hright
    by_cases hn : m * k + 7 < 2 ^ 64
    · exact .inl hn
    refine .inr ?_
    by_cases hlt : m * k < 2 ^ 64
    · refine .inr (fun hserve => ?_)
      obtain ⟨s', hm⟩ := (malloc_wraps henv h (by omega) hlt).1 hserve
      have := (hright _ _ (calloc_of_malloc hlt (by omega) (succ_ne_zero _) hm) (succ_ne_zero _)).1.inside.le
      omega
    · exact .inl (by omega)
  · intro hcond s' p hok hp
    obtain ⟨hlt, t, hm, rfl⟩ := calloc_ok hok hp
    refine ((malloc_right_iff henv hpages h hlt).2 ?_ t p hm hp).cleared
    exact hcond.imp_right (fun hrest => hrest.resolve_left (not_le.2 hlt))

/-! ## malloc_aligned -/

def effective (a : Nat) : Nat := if a < 8 then 8 else a

section
variable (ha : a.isPowerOfTwo) (hlt : a < 18446744073709551616)
include ha hlt

theorem effective_pow : ∃ k, k ≤ 63 ∧ effective a = 2 ^ k ∧ 8 ≤ effective a := by
  obtain ⟨k, rfl⟩ := ha
  unfold effective
  by_cases h8 : 2 ^ k < 8
  · rw [if_pos h8]
    exact ⟨3, by decide, by decide, by decide⟩
  · rw [if_neg h8]
    exact ⟨k, Nat.le_of_lt_succ ((Nat.pow_lt_pow_iff_right (by decide)).1 hlt), rfl, by omega⟩

theorem mallocAligned_eq (n : Nat) :
    mallocAligned env s n a = (do
      let (s, p) ← malloc env s (u64 (n + effective a + 7))
      if p = 0 then return (s, 0)
      else return ({ s with mem := store s.mem (sub64 (alignAddr (effective a) (u64 (p + 8))) 8) 8 p },
        alignAddr (effective a) (u64 (p + 8)))) := by
  obtain ⟨k, -, hk, h8⟩ := effective_pow ha hlt
  have hmask : effective a &&& (effective a - 1) = 0 := by rw [hk, and_two_pow_sub_one_eq_mod, mod_self]
  have hsum : n + effective a - 1 + 8 = n + effective a + 7 := by omega
  change (if effective a &&& (effective a - 1) ≠ 0 then _ else _) = _
  rw [if_neg (fun hc => hc hmask)]
  rw [← hsum]
  rfl

/-- **Rounding up inside a block**: the address moves by less than the alignment, to a multiple of it. -/
theorem alignAddr_bounds {x : Nat} (hx : x + effective a ≤ 2 ^ 64) :
    x ≤ alignAddr (effective a) x ∧ alignAddr (effective a) x < x + effective a ∧
      effective a ∣ alignAddr (effective a) x := by
  obtain ⟨k, hk63, hk, h8⟩ := effective_pow ha hlt
  have hmask : 18446744073709551615 - (effective a - 1) = 2 ^ 64 - 2 ^ k := by omega
  have hround : alignAddr (effective a) x = (x + effective a - 1) / effective a * effective a := by
    unfold alignAddr
    rw [u64_of_lt (by omega), hmask, hk]
    exact clearLow_eq k _ (by omega) (by omega)
  rw [hround]
  have hdiv := div_add_mod (x + effective a - 1) (effective a)
  have hmod := mod_lt (x + effective a - 1) (show effective a > 0 by omega)
  rw [mul_comm] at hdiv
  exact ⟨by omega, by omega, dvd_mul_left _ _⟩

theorem mallocAligned_ok {s' : Heap} (h : mallocAligned env s n a = .ok (s', p)) (hp : p ≠ 0) :
    ∃ t q, malloc env s (u64 (n + effective a + 7)) = .ok (t, q) ∧ q ≠ 0 ∧ p = alignAddr (effective a) (u64 (q + 8)) ∧
      s' = { t with mem := store t.mem (sub64 p 8) 8 q } := by
  rw [mallocAligned_eq ha hlt] at h
  obtain ⟨⟨t, q⟩, hm, h⟩ := bind_ok h
  simp only at h
  split at h
  · cases h
    exact absurd rfl hp
  · rename_i hq
    obtain ⟨hs', hp'⟩ := Prod.mk.inj (Res.ok.inj h)
    exact ⟨t, q, hm, hq, hp'.symm, by rw [← hs', ← hp']⟩

theorem mallocAligned_of_malloc {q : Nat} (h : malloc env s (u64 (n + effective a + 7)) = .ok (t, q)) (hq : q ≠ 0) :
    mallocAligned env s n a = .ok ({ t with mem := store t.mem (sub64 (alignAddr (effective a) (u64 (q + 8))) 8) 8 q },
      alignAddr (effective a) (u64 (q + 8))) := by
  rw [mallocAligned_eq ha hlt]
  simp only [h, ok_bind, if_neg hq, pure_eq]

/-- **A sum that does not wrap leaves room**: for the rounding, the word before the address and the bytes after it. -/
theorem Shape.aligned {b : Block} (hs : Shape t bs) (hb : b ∈ bs)
    (hn : n + effective a + 7 ≤ b.size) (hp : p = alignAddr (effective a) (u64 (b.addr + headerSize + 8))) :
    Shape { t with mem := store t.mem (sub64 p 8) 8 (b.addr + headerSize) } bs ∧ b.addr + headerSize + 8 ≤ p ∧
      p + n ≤ b.addr + headerSize + b.size ∧ effective a ∣ p := by
  have hbounds := hs.tiles.mem.2 b hb
  have hfits := hs.fits
  obtain ⟨-, -, -, h8⟩ := effective_pow ha hlt
  rw [u64_of_lt (show b.addr + headerSize + 8 < 2 ^ 64 by omega)] at hp
  obtain ⟨hlo, hhi, hdvd⟩ := alignAddr_bounds ha hlt (x := b.addr + headerSize + 8) (by omega)
  rw [← hp] at hlo hhi hdvd
  rw [sub64_of_le (by omega) (by omega)]
  refine ⟨hs.scribble (fun c hc x hx hx' => store_apart t.mem ?_), hlo, by omega, hdvd⟩
  have := hs.spares hb hc hx hx'
  omega

end

theorem aligned_right_iff (henv : Fresh env) (hpages : Paged env) (h : WellFormed s bs)
    (hn : n < 2 ^ 64) (ha : a.isPowerOfTwo) (hlt : a < 2 ^ 64) : AlignedRight env s n a ↔
      n + effective a + 14 < 2 ^ 64 ∨ n + effective a + 7 = 2 ^ 64 ∨
        ¬ CanServe env s bs (alignUp (u64 (n + effective a + 7))) ∨
        alignAddr (effective a) (u64 (place s bs (alignUp (u64 (n + effective a + 7))) + headerSize + 8)) = 0 := by
  obtain ⟨k, hk63, hk, h8⟩ := effective_pow ha hlt
  have hpow : effective a ≤ 2 ^ 63 := by
    rw [hk]
    exact Nat.pow_le_pow_right (by decide) hk63
  generalize hsize : u64 (n + effective a + 7) = size
  by_cases hfine : n + effective a + 14 < 2 ^ 64
  · refine iff_of_true (fun s' p hok hp => ?_) (.inl hfine)
    obtain ⟨t, q, hm, hq, rfl, rfl⟩ := mallocAligned_ok ha hlt hok hp
    rw [u64_of_lt (by omega)] at hm
    obtain ⟨cs, b, hs, hb, rfl, hsz⟩ := mallocRight_of_lt henv hpages h (by omega) t q hm hq
    obtain ⟨hs', hlo, hhi, -⟩ := hs.aligned ha hlt (mem_inUse.1 hb).1 hsz rfl
    exact ⟨cs, b, hs', hb, by omega, hhi⟩
  -- the sum wraps, or its rounding does
  have hal : alignUp size ≤ 9223372036854775824 := by
    by_cases hw : 2 ^ 64 ≤ n + effective a + 7
    · have hle : size ≤ 9223372036854775814 := by
        rw [← hsize]
        unfold u64
        omega
      have := (alignUp_ge (n := size) (by omega)).2
      omega
    · rw [← hsize, u64_of_lt (by omega), alignUp_wraps (by omega) (by omega)]
      decide
  have hzero : size = 0 ↔ n + effective a + 7 = 2 ^ 64 := by
    rw [← hsize]
    unfold u64
    omega
  have hserves := fun h0 : size ≠ 0 => malloc_served henv h.toShape h0 (by omega)
  constructor
  · intro hright
    refine .inr (or_iff_not_imp_left.2 (fun h0 => or_iff_not_imp_left.2 (fun hserve => ?_)))
    obtain ⟨s', hm⟩ := (hserves (fun hz => h0 (hzero.1 hz))).1 (not_not.1 hserve)
    by_contra hp
    have := (hright _ _ (mallocAligned_of_malloc ha hlt (by rwa [hsize]) (succ_ne_zero _)) hp).le
    omega
  · intro hcond s' p hok hp
    obtain ⟨t, q, hm, hq, rfl, rfl⟩ := mallocAligned_ok ha hlt hok hp
    rw [hsize] at hm
    have h0 : size ≠ 0 := fun h0 => by
      rw [h0] at hm
      cases hm
      exact hq rfl
    by_cases hserve : CanServe env s bs (alignUp size)
    · obtain ⟨t', hm'⟩ := (hserves h0).1 hserve
      rw [hm'] at hm
      cases hm
      rcases hcond with hc | hc | hc | hc
      · exact absurd hc hfine
      · exact absurd (hzero.2 hc) h0
      · exact absurd hserve hc
      · exact absurd hc hp
    · obtain ⟨msg, hm'⟩ := (hserves h0).2 hserve
      rw [hm'] at hm
      cases hm

end Rights

/-- **When the three calls return what was asked for**: always, but for sizes whose rounding or sum leaves the 64 bits
while a block for what is left of them can be served. -/
theorem sizes_right_iff {env : Heap → Nat → Option Mem} (henv : Fresh env) (hpages : Paged env) {s : Heap}
    {bs : List Block} (h : WellFormed s bs) : (∀ n, 1 ≤ n → n < 18446744073709551616 →
      (MallocRight env s n ↔ n + 7 < 18446744073709551616 ∨ ¬ CanServe env s bs 0)) ∧
    (∀ m k, m < 18446744073709551616 → k < 18446744073709551616 → (CallocRight env s m k ↔
        m * k + 7 < 18446744073709551616 ∨ 18446744073709551616 ≤ m * k ∨ ¬ CanServe env s bs 0)) ∧
    ∀ n a, n < 18446744073709551616 → a.isPowerOfTwo → a < 18446744073709551616 → (AlignedRight env s n a ↔
        n + effective a + 14 < 18446744073709551616 ∨ n + effective a + 7 = 18446744073709551616 ∨
          ¬ CanServe env s bs (alignUp (u64 (n + effective a + 7))) ∨
          alignAddr (effective a) (u64 (place s bs (alignUp (u64 (n + effective a + 7))) + headerSize + 8)) = 0) :=
  ⟨fun _ _ hlt => malloc_right_iff henv hpages h hlt, fun m k _ _ => calloc_right_iff henv hpages h m k,
    fun _ _ hn ha hlt => aligned_right_iff henv hpages h hn ha hlt⟩

theorem linkerHeap_wellFormed : ∃ s, mallocInit (fun _ => 0#8) 0x400000 0x800000 = some s ∧
    WellFormed s [⟨0x400000, 0x800000 - headerSize, true⟩] := by
  obtain ⟨s, hs, hshape⟩ := @mallocInit_shape (fun _ => 0#8) 0x400000 0x800000 (by decide) (by decide) (by decide)
    (by decide) (by decide)
  refine ⟨s, hs, hshape, ?_⟩
  cases hs
  decide

theorem linkerHeap_right : ∃ s, mallocInit (fun _ => 0#8) 0x400000 0x800000 = some s ∧
    MallocRight (fun _ _ => none) s 100 ∧ CallocRight (fun _ _ => none) s 3 5 ∧
      AlignedRight (fun _ _ => none) s 100 64 := by
  obtain ⟨s, hs, hwf⟩ := linkerHeap_wellFormed
  obtain ⟨hmalloc, hcalloc, haligned⟩ := @sizes_right_iff (fun _ _ => none) (fun _ _ _ h => (by cases h))
    (fun _ _ _ h => (by cases h)) s _ hwf
  exact ⟨s, hs, (hmalloc 100 (by decide) (by decide)).2 (.inl (by decide)),
    (hcalloc 3 5 (by decide) (by decide)).2 (.inl (by decide)),
    (haligned 100 64 (by decide) ⟨6, rfl⟩ (by decide)).2 (.inl (by decide))⟩

/-- **A request for 2^64 - 1 bytes is answered with an empty block.** -/
theorem allOnes_served : ∃ s s' p, mallocInit (fun _ => 0#8) 0x400000 0x800000 = some s ∧
    malloc (fun _ _ => none) s 18446744073709551615 = .ok (s', p) ∧ p ≠ 0 ∧ ¬ Payload s' p 18446744073709551615 := by
  obtain ⟨s, hs, hwf⟩ := linkerHeap_wellFormed
  obtain ⟨s', hm⟩ := (@malloc_wraps (fun _ _ => none) s _ 18446744073709551615 (fun _ _ _ h => (by cases h)) hwf
    (by decide) (by decide)).1 (.inl (by decide))
  refine ⟨s, s', _, hs, hm, succ_ne_zero _, fun hp => ?_⟩
  have := hp.inside.le
  omega

end Heap
end OS64
