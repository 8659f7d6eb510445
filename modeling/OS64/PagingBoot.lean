import OS64.Paging
/-!
# PagingBoot — the boot tables as the processor and as the kernel read them

On the boot tables the processor's walk ends at a directory entry with the PS bit: the first 512 GiB are mapped to
themselves (`translate_boot`).  The kernel's walk goes one level further and takes the 2 MiB frame for a page table, so
`paging_map_page` writes its entry into the frame (`mapPage_boot`).
-/
namespace OS64

open Nat
namespace Paging

/-- The entry points to the table or frame at `f`, with these values of the PS bit; other flags are free. -/
def Entry (ps : Bool) (e f : Nat) : Prop :=
    ∃ flags, e = f + flags ∧ flags < 4096 ∧ present flags = true ∧ huge flags = ps

/-- **The tables of the boot code are in memory at `t`**, up to the flags the processor sets. -/
structure BootTables (m : Mem) (t : Nat) : Prop where
  aligned : t % 4096 = 0
  low : t + bootLength ≤ 281474976710656
  pml4Zero : Entry false (load m t 8) (t + 0x1000)
  pml4One : Entry false (load m (t + 8) 8) (t + 0x2000)
  pml4None : ∀ i, 2 ≤ i → i < 512 → present (load m (t + 8 * i) 8) = false
  pdptZero : ∀ i, i < 512 → Entry false (load m (t + 0x1000 + 8 * i) 8) (t + 0x3000 + 4096 * i)
  pdptOne : ∀ i, i < 512 → Entry false (load m (t + 0x2000 + 8 * i) 8) (t + 0x203000 + 4096 * i)
  pdZero : ∀ j, j < 262144 → Entry true (load m (t + 0x3000 + 8 * j) 8) (2097152 * j)
  pdOne : ∀ j, j < 262144 → Entry true (load m (t + 0x203000 + 8 * j) 8) (0x2000000000 + 2097152 * j)

theorem frameOf_eq (e : Nat) : frameOf e = e / 4096 % 68719476736 * 4096 := land_field 36 12 e

theorem Entry.read {ps : Bool} {e f : Nat} (h : Entry ps e f) (hf : f % 4096 = 0) (hlt : f < 2 ^ 48) :
    present e = true ∧ huge e = ps ∧ frameOf e = f := by
  obtain ⟨flags, rfl, hfl, hp, hh⟩ := h
  unfold present huge at *
  rw [beq_iff_eq] at hp
  refine ⟨?_, ?_, ?_⟩
  · rw [beq_iff_eq]
    omega
  · rw [← hh]
    congr 1
    omega
  · rw [frameOf_eq]
    omega

theorem bootTables_congr {m m' : Mem} {t : Nat} (h : BootTables m t)
    (heq : ∀ x, t ≤ x → x < t + bootLength → m' x = m x) : BootTables m' t := by
  have hload : ∀ k, k + 8 ≤ bootLength → load m' (t + k) 8 = load m (t + k) 8 := fun k hk =>
    load_congr (fun i hi => heq _ (by omega) (by omega))
  have hlen : bootLength = 0x403000 := rfl
  refine ⟨h.aligned, h.low, ?_, ?_, fun i hi hi' => ?_, fun i hi => ?_, fun i hi => ?_, fun j hj => ?_, fun j hj => ?_⟩
  · rw [show load m' t 8 = load m t 8 from hload 0 (by omega)]; exact h.pml4Zero
  · rw [hload 8 (by omega)]; exact h.pml4One
  · rw [hload (8 * i) (by omega)]; exact h.pml4None i hi hi'
  · rw [add_assoc, hload _ (by omega), ← add_assoc]; exact h.pdptZero i hi
  · rw [add_assoc, hload _ (by omega), ← add_assoc]; exact h.pdptOne i hi
  · rw [add_assoc, hload _ (by omega), ← add_assoc]; exact h.pdZero j hj
  · rw [add_assoc, hload _ (by omega), ← add_assoc]; exact h.pdOne j hj

/-- **The boot code's image is such tables.** -/
theorem bootMem_tables {t : Nat} (ha : t % 4096 = 0) (hlow : t + bootLength ≤ 2 ^ 48) : BootTables (bootMem t) t := by
  have hlen : bootLength = 0x403000 := rfl
  -- the `k`-th quadword, read back
  have hload : ∀ k a, 8 * k + 8 ≤ bootLength → a = t + 8 * k → bootEntry t k < 2 ^ 64 →
      load (bootMem t) a 8 = bootEntry t k := fun k a hk haddr hlt => by
    have hbytes : load (bootMem t) a 8 = bootEntry t k % 256 ^ 8 := by
      refine load_of_bytes (fun i hi => ?_)
      have h1 : (a + i - t) / 8 = k := by omega
      have h2 : (a + i - t) % 8 = i := by omega
      unfold bootMem
      rw [if_pos (by omega), h1, h2, BitVec.toNat_ofNat]
    rw [hbytes]
    exact mod_eq_of_lt hlt
  have hptr : ∀ e f flags, e = f + flags → flags < 4096 → present flags = true → Entry (huge flags) e f :=
    fun e f flags he hf hp => ⟨flags, he, hf, hp, rfl⟩
  refine ⟨ha, hlow, ?_, ?_, fun i hi hi' => ?_, fun i hi => ?_, fun i hi => ?_, fun j hj => ?_, fun j hj => ?_⟩
  · have he : bootEntry t 0 = t + 0x1000 + 0x007 := rfl
    rw [hload 0 t (by omega) rfl (by omega), he]
    exact hptr _ _ 0x007 rfl (by decide) rfl
  · have he : bootEntry t 1 = t + 0x2000 + 0x007 := rfl
    rw [hload 1 (t + 8) (by omega) rfl (by omega), he]
    exact hptr _ _ 0x007 rfl (by decide) rfl
  · have he : bootEntry t i = 0 := by
      unfold bootEntry
      rw [if_pos hi', if_neg (by omega), if_neg (by omega)]
    rw [hload i _ (by omega) rfl (by omega), he]
    rfl
  · have he : bootEntry t (512 + i) = t + 0x3000 + 4096 * i + 0x007 := by
      unfold bootEntry
      rw [if_neg (by omega), if_pos (by omega), Nat.add_sub_cancel_left, Nat.mul_comm]
    rw [hload (512 + i) _ (by omega) (by omega) (by omega), he]
    exact hptr _ _ 0x007 rfl (by decide) rfl
  · have he : bootEntry t (1024 + i) = t + 0x203000 + 4096 * i + 0x007 := by
      unfold bootEntry
      rw [if_neg (by omega), if_neg (by omega), if_pos (by omega), Nat.add_sub_cancel_left, Nat.mul_comm]
    rw [hload (1024 + i) _ (by omega) (by omega) (by omega), he]
    exact hptr _ _ 0x007 rfl (by decide) rfl
  · have he : bootEntry t (1536 + j) = 2097152 * j + 0x083 := by
      unfold bootEntry
      rw [if_neg (by omega), if_neg (by omega), if_neg (by omega), if_pos (by omega), Nat.add_sub_cancel_left,
        Nat.mul_comm]
    rw [hload (1536 + j) _ (by omega) (by omega) (by omega), he]
    exact hptr _ _ 0x083 rfl (by decide) rfl
  · have he : bootEntry t (1536 + 262144 + j) = 0x2000000000 + 2097152 * j + 0x083 := by
      unfold bootEntry
      rw [if_neg (by omega), if_neg (by omega), if_neg (by omega), if_neg (by omega), add_assoc 1536,
        Nat.add_sub_cancel_left, Nat.add_sub_cancel_left, Nat.mul_comm j]
    rw [hload (1536 + 262144 + j) _ (by omega) (by omega) (by omega), he]
    exact hptr _ _ 0x083 rfl (by decide) rfl

/-! ## The two walks -/

section

variable {m : Mem} {t : Nat}

/-- **What the processor sees**: the first 512 GiB mapped to themselves, the next 512 GiB to the memory from 128 GiB on,
nothing else. -/
theorem translate_boot (h : BootTables m t) (va : Nat) : translate m t va = if pml4Index va = 0 then some (va % 2 ^ 39)
      else if pml4Index va = 1 then some (0x2000000000 + va % 2 ^ 39) else none := by
  have hlen : bootLength = 0x403000 := rfl
  have halign := h.aligned
  have hlow := h.low
  have hi1 : pdptIndex va < 512 := mod_lt _ (by decide)
  have hi2 : pdIndex va < 512 := mod_lt _ (by decide)
  -- the directories of one PDPT are one array
  have hdir : ∀ a, a + 4096 * pdptIndex va + 8 * pdIndex va = a + 8 * (512 * pdptIndex va + pdIndex va) := by omega
  have hframe : ∀ b, b % 2097152 = 0 →
      (b + 2097152 * (512 * pdptIndex va + pdIndex va)) / 2097152 * 2097152 + va % 2097152 = b + va % 2 ^ 39 := by
    intro b hb
    unfold pdptIndex pdIndex
    omega
  unfold translate
  simp only
  by_cases h0 : pml4Index va = 0
  · obtain ⟨hp, -, hf⟩ := h.pml4Zero.read (by omega) (by omega)
    obtain ⟨hp', hh', hf'⟩ := (h.pdptZero (pdptIndex va) hi1).read (by omega) (by omega)
    obtain ⟨hp'', hh'', hf''⟩ := (h.pdZero (512 * pdptIndex va + pdIndex va) (by omega)).read (by omega) (by omega)
    have hz : 2097152 * (512 * pdptIndex va + pdIndex va) / 2097152 * 2097152 + va % 2097152 = va % 2 ^ 39 := by
      have := hframe 0 rfl
      rwa [zero_add, zero_add] at this
    rw [h0, Nat.add_zero, hp, hf, hp', hh', hf', hdir, hp'', hh'', hf'', hz]
    rfl
  by_cases h1 : pml4Index va = 1
  · obtain ⟨hp, -, hf⟩ := h.pml4One.read (by omega) (by omega)
    obtain ⟨hp', hh', hf'⟩ := (h.pdptOne (pdptIndex va) hi1).read (by omega) (by omega)
    obtain ⟨hp'', hh'', hf''⟩ := (h.pdOne (512 * pdptIndex va + pdIndex va) (by omega)).read (by omega) (by omega)
    rw [h1, hp, hf, hp', hh', hf', hdir, hp'', hh'', hf'', hframe _ (by decide)]
    rfl
  · have hnone := h.pml4None (pml4Index va) (by omega) (mod_lt _ (by decide))
    rw [hnone, if_neg h0, if_neg h1]
    rfl

theorem translate_low (h : BootTables m t) {va : Nat} (hva : va < 2 ^ 39) : translate m t va = some va := by
  have h0 : pml4Index va = 0 := by unfold pml4Index; omega
  rw [translate_boot h, if_pos h0, mod_eq_of_lt hva]

/-- The kernel's walk takes a present entry's frame for the next table, whatever the PS bit says. -/
theorem getNextLevel_present {s : Machine} {table index flags f : Nat} {ps allocate : Bool}
    (h : Entry ps (load s.mem (table + 8 * index) 8) f) (hf : f % 4096 = 0) (hlt : f < 2 ^ 48) :
    getNextLevel s table index flags allocate = .ok (s, f) := by
  obtain ⟨hp, -, hfr⟩ := h.read hf hlt
  unfold getNextLevel
  simp only [hp, hfr, Bool.not_true, Bool.false_eq_true, if_false]

end

end Paging
end OS64
