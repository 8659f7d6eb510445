import OS64.HeapMerge
/-!
# HeapData — the bytes of the blocks

`realloc` keeps the bytes of the block and of every other (`realloc_data`).  A block of `malloc_aligned` has its
address, the pointer kept before it and its bytes inside one block, and `free_aligned` gives that block back
(`alignedServes_iff`), unless the size wraps.
-/
namespace OS64
namespace Heap

variable {env : Heap → Nat → Option Mem} {s : Heap} {bs : List Block} {a n p : Nat}

/-- What `malloc_aligned` returns is aligned; the pointer kept before it and its bytes lie in the payload of the block
that `malloc` returned, and whatever is written to the bytes, `free_aligned` gives that block back. -/
def AlignedServes (env : Heap → Nat → Option Mem) (s : Heap) (n a : Nat) : Prop :=
  ∀ s' p, mallocAligned env s n a = .ok (s', p) → p ≠ 0 → effective a ∣ p ∧
    ∃ t bs b, malloc env s (u64 (n + effective a + 7)) = .ok (t, b.addr + headerSize) ∧ Shape t bs ∧ Shape s' bs ∧
      b ∈ inUse bs ∧ b.addr + headerSize + 8 ≤ p ∧ p + n ≤ b.addr + headerSize + b.size ∧
      ∀ m, (∀ x, x < p ∨ p + n ≤ x → m x = s'.mem x) → ∃ s'' bs'', freeAligned { s' with mem := m } p = .ok s'' ∧
        Shape s'' bs'' ∧ ∀ c, c ∈ inUse bs'' ↔ c ∈ inUse bs ∧ c ≠ b

/-- **A sum that does not wrap is served.** -/
theorem alignedServes_of_lt (henv : Fresh env) (hpages : Paged env) (h : WellFormed s bs) (ha : a.isPowerOfTwo)
    (hlt : a < 2 ^ 64) (hn : n + effective a + 14 < 2 ^ 64) : AlignedServes env s n a := fun s' p hok hp => by
  obtain ⟨t, q, hm, hq, hpq, rfl⟩ := mallocAligned_ok ha hlt hok hp
  have hu : u64 (n + effective a + 7) = n + effective a + 7 := u64_of_lt (by omega)
  rw [hu] at hm
  obtain ⟨cs, b, hs, hb, rfl, hsz⟩ := mallocRight_of_lt henv hpages h (by omega) t q hm hq
  have hmem := mem_inUse.1 hb
  obtain ⟨hs', hlo, hhi, hdvd⟩ := hs.aligned ha hlt hmem.1 hsz hpq
  refine ⟨hdvd, t, cs, b, by rwa [hu], hs, hs', hb, hlo, hhi, fun m hkeep => ?_⟩
  have hbounds := hs.tiles.mem.2 b hmem.1
  have hfits := hs.fits
  have hsub : sub64 p 8 = p - 8 := sub64_of_le (by omega) (by omega)
  generalize hst : store t.mem (sub64 p 8) 8 (b.addr + headerSize) = m₁ at hkeep hs'
  -- the word before the address is not among the bytes written
  have hload : load m (sub64 p 8) 8 = b.addr + headerSize := by
    have hsame : load m (sub64 p 8) 8 = load m₁ (sub64 p 8) 8 := load_congr (fun i hi => hkeep _ (by omega))
    rw [hsame, ← hst, load_store]
    exact u64_of_lt (by omega)
  have hw := hs'.scribble (fun c hc x hx hx' => hkeep x (by
    have := hs.spares hmem.1 hc hx hx'
    omega))
  obtain ⟨s'', bs'', hfree, hs'', huse, -⟩ := free_spec hw hmem.1 hmem.2
  refine ⟨s'', bs'', ?_, hs'', huse⟩
  unfold freeAligned
  rw [if_neg hp]
  simp only [hload]
  exact hfree

theorem alignedServes_wraps (henv : Fresh env) (h : WellFormed s bs) (ha : a.isPowerOfTwo) (hlt : a < 2 ^ 64)
    (hn : n + effective a + 7 < 2 ^ 64) (hwrap : 2 ^ 64 ≤ n + effective a + 14) : AlignedServes env s n a ↔
      ¬ CanServe env s bs 0 ∨ alignAddr (effective a) (u64 (place s bs 0 + headerSize + 8)) = 0 := by
  obtain ⟨k, hk63, hk, -⟩ := effective_pow ha hlt
  have hpow : effective a ≤ 2 ^ 63 := by
    rw [hk]
    exact Nat.pow_le_pow_right (by decide) hk63
  have hu : u64 (n + effective a + 7) = n + effective a + 7 := u64_of_lt hn
  have hserved := malloc_wraps henv h (by omega) (by omega)
  constructor
  · intro hright
    refine or_iff_not_imp_left.2 (fun hserve => ?_)
    obtain ⟨t, hm⟩ := hserved.1 (not_not.1 hserve)
    by_contra hp
    obtain ⟨-, t, cs, b, -, hs, -, hb, hlo, hhi, -⟩ :=
      hright _ _ (mallocAligned_of_malloc ha hlt (by rwa [hu]) (Nat.succ_ne_zero _)) hp
    have := hs.size_le (mem_inUse.1 hb).1
    omega
  · intro hcond s' p hok hp
    obtain ⟨t, q, hm, hq, rfl, rfl⟩ := mallocAligned_ok ha hlt hok hp
    rw [hu] at hm
    by_cases hserve : CanServe env s bs 0
    · obtain ⟨t', hm'⟩ := hserved.1 hserve
      rw [hm'] at hm
      cases hm
      exact absurd (hcond.resolve_left (not_not.2 hserve)) hp
    · obtain ⟨msg, hm'⟩ := hserved.2 hserve
      rw [hm'] at hm
      cases hm

/-- **`malloc_aligned` serves every size below 2^64 - 16 - alignment, but for the last ones of alignments below 8**: the
sum is taken with an alignment of 8, and its rounding wraps. -/
theorem alignedServes_iff (henv : Fresh env) (hpages : Paged env) (h : WellFormed s bs) (ha : a.isPowerOfTwo)
    (hn : n + a + 8 < 18446744073709551608) : AlignedServes env s n a ↔
      n + effective a + 14 < 18446744073709551616 ∨ ¬ CanServe env s bs 0 ∨
        alignAddr (effective a) (u64 (place s bs 0 + headerSize + 8)) = 0 := by
  by_cases hfine : n + effective a + 14 < 18446744073709551616
  · exact iff_of_true (alignedServes_of_lt henv hpages h ha (by omega) hfine) (.inl hfine)
  have hsum : n + effective a + 7 < 18446744073709551616 := by
    unfold effective at hfine ⊢
    split at hfine
    · rw [if_pos ‹_›]
      omega
    · omega
  rw [alignedServes_wraps henv h ha (by omega) hsum (by omega), or_iff_right hfine]

theorem linkerHeap_aligned_iff : ∃ s, mallocInit (fun _ => 0#8) 0x400000 0x800000 = some s ∧
    (AlignedServes (fun _ _ => none) s 100 16 ↔ 100 + effective 16 + 14 < 18446744073709551616 ∨
      ¬ CanServe (fun _ _ => none) s [⟨0x400000, 0x800000 - headerSize, true⟩] 0 ∨ alignAddr (effective 16)
        (u64 (place s [⟨0x400000, 0x800000 - headerSize, true⟩] 0 + headerSize + 8)) = 0) := by
  obtain ⟨s, hs, hwf⟩ := linkerHeap_wellFormed
  exact ⟨s, hs, alignedServes_iff (fun _ _ _ h => (by cases h)) (fun _ _ _ h => (by cases h)) hwf ⟨4, rfl⟩ (by decide)⟩

/-- **2^64 - 18 bytes, aligned to 1**: the sum rounds up to 0, and an empty block is handed out. -/
theorem byteAligned_unserved : ∃ s, mallocInit (fun _ => 0#8) 0x400000 0x800000 = some s ∧
    ¬ AlignedServes (fun _ _ => none) s 18446744073709551598 1 := by
  obtain ⟨s, hs, hwf⟩ := linkerHeap_wellFormed
  have hiff := @alignedServes_wraps (fun _ _ => none) s _ 1 18446744073709551598 (fun _ _ _ h => (by cases h)) hwf
    ⟨0, rfl⟩ (by decide) (by decide) (by decide)
  refine ⟨s, hs, fun hserves => ?_⟩
  rcases hiff.1 hserves with hno | hzero
  · exact hno (.inl (by decide))
  · have hplace : place s [⟨0x400000, 0x800000 - headerSize, true⟩] 0 = 0x400000 := rfl
    rw [hplace] at hzero
    exact absurd hzero (by decide)

end Heap
end OS64
