import OS64.PagingBoot
/-!
# PageTree — page tables as a tree

Four levels of page tables in memory stand for a tree: a path of up to three indexes leads to a table (`tab`), and a
path of four to a page that is mapped to itself (`mapped`).  A new table at a fresh page (`Tree.grow`) and a new leaf
(`Tree.map`) keep the tree, and the processor's walk through it finds the pages that are mapped (`translate_tree`).
-/
namespace OS64

open Function List Nat
namespace Paging

def addrOf (path : List Nat) : Nat := path.foldl (fun a i => 512 * a + i) 0 * 4096

def pathOf (va : Nat) : List Nat := [pml4Index va, pdptIndex va, pdIndex va]

theorem addrOf_path (va : Nat) : addrOf (pathOf va ++ [ptIndex va]) = va % 2 ^ 48 / 4096 * 4096 := by
  unfold addrOf pathOf pml4Index pdptIndex pdIndex ptIndex
  simp only [cons_append, nil_append, foldl_cons, foldl_nil]
  omega

/-- An entry that is not present, or that points to `f`. -/
def Slot (e : Nat) : Option Nat → Prop
  | none => present e = false
  | some f => Entry false e f

/-- **The page tables in memory**: `tab` gives the table at the end of a path, and the pages `mapped` are mapped to
themselves. -/
structure Tree (m : Mem) (tab : List Nat → Option Nat) (mapped : List (List Nat)) : Prop where
  short : ∀ path a, tab path = some a → path.length ≤ 3 ∧ ∀ i ∈ path, i < 512
  up : ∀ path i a, tab (path ++ [i]) = some a → ∃ b, tab path = some b
  apart : ∀ path path' a, tab path = some a → tab path' = some a → path = path'
  addr : ∀ path a, tab path = some a → a % 4096 = 0 ∧ a ≠ 0 ∧ a + 4096 ≤ 281474976710656
  node : ∀ path a i, tab path = some a → path.length < 3 → i < 512 → Slot (load m (a + 8 * i) 8) (tab (path ++ [i]))
  last : ∀ path a i, tab path = some a → path.length = 3 → i < 512 →
    Slot (load m (a + 8 * i) 8) (if path ++ [i] ∈ mapped then some (addrOf (path ++ [i])) else none)
  leaf : ∀ path, path ∈ mapped → ∃ va, path = pathOf va ++ [ptIndex va] ∧ ∃ a, tab (pathOf va) = some a

namespace Tree

variable {m : Mem} {tab : List Nat → Option Nat} {mapped : List (List Nat)} {path : List Nat} {a b i : Nat}

section
variable (h : Tree m tab mapped)
include h

theorem pages_apart {path' : List Nat} (ha : tab path = some a) (hb : tab path' = some b)
    (hne : path ≠ path') : a + 4096 ≤ b ∨ b + 4096 ≤ a := by
  have hab : a ≠ b := by
    rintro rfl
    exact hne (h.apart _ _ a ha hb)
  have ha4 := (h.addr _ _ ha).1
  have hb4 := (h.addr _ _ hb).1
  omega

theorem fresh_apart (hpath : tab path = some a) (hb : b % 4096 = 0) (hfresh : ∀ p, tab p ≠ some b) :
    a + 4096 ≤ b ∨ b + 4096 ≤ a := by
  have hne : a ≠ b := by
    rintro rfl
    exact hfresh path hpath
  have := (h.addr _ _ hpath).1
  omega

theorem entries_apart {p : List Nat} {c j : Nat} (hpath : tab path = some a) (hi : i < 512) (hc : tab p = some c)
    (hj : j < 512) (hne : p ++ [j] ≠ path ++ [i]) : c + 8 * j + 8 ≤ a + 8 * i ∨ a + 8 * i + 8 ≤ c + 8 * j := by
  by_cases hp : p = path
  · subst hp
    cases hc.symm.trans hpath
    have hji : j ≠ i := fun hji => hne (by rw [hji])
    omega
  · have := h.pages_apart hc hpath hp
    omega

theorem none_below (hnone : tab path = none) (j : Nat) : tab (path ++ [j]) = none := by
  cases hj : tab (path ++ [j]) with
  | none => rfl
  | some c =>
    obtain ⟨d, hd⟩ := h.up path j c hj
    rw [hnone] at hd
    cases hd

theorem not_mapped (hnone : tab path = none) (j : Nat) : path ++ [j] ∉ mapped := by
  intro hj
  obtain ⟨va, hva, c, hc⟩ := h.leaf _ hj
  obtain ⟨rfl, -⟩ := append_inj' hva rfl
  rw [hnone] at hc
  cases hc

/-- **A new table**: a page that is not in the tree is cleared and an empty entry is made to point to it. -/
theorem grow (hpath : tab path = some a) (hlen : path.length < 3) (hi : i < 512)
    (hnone : tab (path ++ [i]) = none) (hb : b % 4096 = 0 ∧ b ≠ 0 ∧ b + 4096 ≤ 2 ^ 48) (hfresh : ∀ p, tab p ≠ some b) :
    Tree (store (fill m b 4096 0#8) (a + 8 * i) 8 (b + 7)) (update tab (path ++ [i]) (some b)) mapped := by
  have hab := h.fresh_apart hpath hb.1 hfresh
  -- the other entries of the old tables
  have hother : ∀ {p c j}, tab p = some c → j < 512 → p ++ [j] ≠ path ++ [i] →
      load (store (fill m b 4096 0#8) (a + 8 * i) 8 (b + 7)) (c + 8 * j) 8 = load m (c + 8 * j) 8 := by
    intro p c j hc hj hne
    have hcb := h.fresh_apart hc hb.1 hfresh
    rw [load_store_apart _ (h.entries_apart hpath hi hc hj hne)]
    exact load_congr (fun k hk => fill_apart _ (by omega))
  -- the entries of the new table
  have hnew : ∀ j, j < 512 → present (load (store (fill m b 4096 0#8) (a + 8 * i) 8 (b + 7)) (b + 8 * j) 8) =
      false := by
    intro j hj
    have hzero : load (store (fill m b 4096 0#8) (a + 8 * i) 8 (b + 7)) (b + 8 * j) 8 = 0 := by
      rw [load_store_apart _ (by omega)]
      refine @load_of_bytes _ 8 _ 0 (fun k hk => ?_)
      unfold fill
      rw [if_pos (by omega), Nat.zero_div]
      rfl
    rw [hzero]
    rfl
  have hold : ∀ {p}, p ≠ path ++ [i] → update tab (path ++ [i]) (some b) p = tab p := fun hp => update_of_ne hp ..
  have hself : update tab (path ++ [i]) (some b) (path ++ [i]) = some b := update_self ..
  have hback : ∀ {p c}, tab p = some c → update tab (path ++ [i]) (some b) p = some c := by
    intro p c hc
    rw [hold, hc]
    rintro rfl
    rw [hnone] at hc
    cases hc
  have hsplit : ∀ {p c}, update tab (path ++ [i]) (some b) p = some c →
      (p = path ++ [i] ∧ c = b) ∨ (p ≠ path ++ [i] ∧ tab p = some c) := by
    intro p c hc
    by_cases hp : p = path ++ [i]
    · rw [hp, hself] at hc
      exact .inl ⟨hp, (Option.some.inj hc).symm⟩
    · rw [hold hp] at hc
      exact .inr ⟨hp, hc⟩
  refine ⟨fun p c hc => ?_, fun p j c hc => ?_, fun p p' c hc hc' => ?_, fun p c hc => ?_, fun p c j hc hp hj => ?_,
    fun p c j hc hp hj => ?_, fun p hp => ?_⟩
  · rcases hsplit hc with ⟨rfl, -⟩ | ⟨-, hc⟩
    · refine ⟨by rwa [length_append], fun k hk => ?_⟩
      rcases mem_append.1 hk with hk | hk
      · exact (h.short _ _ hpath).2 k hk
      · rw [mem_singleton.1 hk]
        exact hi
    · exact h.short p c hc
  · rcases hsplit hc with ⟨hp, -⟩ | ⟨-, hc⟩
    · obtain ⟨rfl, -⟩ := append_inj' hp rfl
      exact ⟨a, hback hpath⟩
    · obtain ⟨d, hd⟩ := h.up p j c hc
      exact ⟨d, hback hd⟩
  · rcases hsplit hc with ⟨hp, hcb⟩ | ⟨-, hc₀⟩
    · rcases hsplit hc' with ⟨hp', -⟩ | ⟨-, hc₀'⟩
      · exact hp.trans hp'.symm
      · exact absurd (hcb ▸ hc₀') (hfresh p')
    · rcases hsplit hc' with ⟨-, hcb⟩ | ⟨-, hc₀'⟩
      · exact absurd (hcb ▸ hc₀) (hfresh p)
      · exact h.apart p p' c hc₀ hc₀'
  · rcases hsplit hc with ⟨-, hcb⟩ | ⟨-, hc₀⟩
    · exact hcb ▸ hb
    · exact h.addr p c hc₀
  · rcases hsplit hc with ⟨hp', hcb⟩ | ⟨-, hc₀⟩
    · rw [hp', hcb, hold (by simp), h.none_below hnone j]
      exact hnew j hj
    by_cases hpi : p ++ [j] = path ++ [i]
    · obtain ⟨rfl, rfl⟩ := append_singleton_inj.1 hpi
      cases hc₀.symm.trans hpath
      rw [hself, load_store, mod_eq_of_lt (by omega)]
      exact ⟨7, rfl, by decide, rfl, rfl⟩
    · rw [hother hc₀ hj hpi, hold hpi]
      exact h.node p c j hc₀ hp hj
  · rcases hsplit hc with ⟨hp', hcb⟩ | ⟨-, hc₀⟩
    · rw [hp', hcb, if_neg (h.not_mapped hnone j)]
      exact hnew j hj
    rw [hother hc₀ hj]
    · exact h.last p c j hc₀ hp hj
    · intro heq
      rw [(append_singleton_inj.1 heq).1] at hp
      omega
  · obtain ⟨va, hva, c, hc⟩ := h.leaf p hp
    exact ⟨va, hva, c, hback hc⟩

/-- **A new page**: the entry at the end of a path of four is set. -/
theorem map {va : Nat} (ha : tab (pathOf va) = some a) :
    Tree (store m (a + 8 * ptIndex va) 8 (addrOf (pathOf va ++ [ptIndex va]) + 7)) tab
      ((pathOf va ++ [ptIndex va]) :: mapped) := by
  have hi : ptIndex va < 512 := mod_lt _ (by decide)
  have hlt : addrOf (pathOf va ++ [ptIndex va]) + 4096 ≤ 2 ^ 48 := by
    rw [addrOf_path]
    omega
  have hlen : (pathOf va).length = 3 := rfl
  have hother : ∀ {p c j}, tab p = some c → j < 512 → p ++ [j] ≠ pathOf va ++ [ptIndex va] →
      load (store m (a + 8 * ptIndex va) 8 (addrOf (pathOf va ++ [ptIndex va]) + 7)) (c + 8 * j) 8 =
        load m (c + 8 * j) 8 :=
    fun hc hj hne => load_store_apart _ (h.entries_apart ha hi hc hj hne)
  refine ⟨h.short, h.up, h.apart, h.addr, fun p c j hc hp hj => ?_, fun p c j hc hp hj => ?_, fun p hp => ?_⟩
  · rw [hother hc hj]
    · exact h.node p c j hc hp hj
    · intro heq
      rw [(append_singleton_inj.1 heq).1] at hp
      omega
  · by_cases hpi : p ++ [j] = pathOf va ++ [ptIndex va]
    · obtain ⟨rfl, rfl⟩ := append_singleton_inj.1 hpi
      cases hc.symm.trans ha
      rw [if_pos (.head _), load_store, mod_eq_of_lt (by omega)]
      exact ⟨7, rfl, by decide, rfl, rfl⟩
    rw [hother hc hj hpi]
    have hmem : p ++ [j] ∈ (pathOf va ++ [ptIndex va]) :: mapped ↔ p ++ [j] ∈ mapped := by
      rw [mem_cons]
      exact or_iff_right hpi
    simp only [hmem]
    exact h.last p c j hc hp hj
  · rcases mem_cons.1 hp with rfl | hp
    · exact ⟨va, rfl, a, ha⟩
    · exact h.leaf p hp

end

/-! ## The walks -/

/-- **The processor's walk** finds the pages that are mapped, each at its own address, and no other. -/
theorem translate_tree (h : Tree m tab mapped) {root : Nat} (hroot : tab [] = some root) (va : Nat) :
    translate m root va = if pathOf va ++ [ptIndex va] ∈ mapped then some (va % 2 ^ 48) else none := by
  have hi0 : pml4Index va < 512 := mod_lt _ (by decide)
  have hi1 : pdptIndex va < 512 := mod_lt _ (by decide)
  have hi2 : pdIndex va < 512 := mod_lt _ (by decide)
  have hi3 : ptIndex va < 512 := mod_lt _ (by decide)
  have hsum : va % 2 ^ 48 / 4096 * 4096 + va % 4096 = va % 2 ^ 48 := by omega
  -- a table that is missing on the way
  have hmiss : tab (pathOf va) = none → pathOf va ++ [ptIndex va] ∉ mapped := fun h0 => h.not_mapped h0 _
  have hs0 := h.node [] root (pml4Index va) hroot (by decide) hi0
  rw [nil_append] at hs0
  unfold translate
  simp only
  cases h1 : tab [pml4Index va] with
  | none =>
    rw [h1] at hs0
    have h2 := h.none_below h1 (pdptIndex va)
    rw [hs0, if_neg (hmiss (h.none_below h2 (pdIndex va)))]
    rfl
  | some t1 =>
    rw [h1] at hs0
    obtain ⟨hp0, -, hf0⟩ := hs0.read (h.addr _ _ h1).1 (by have := (h.addr _ _ h1).2.2; omega)
    have hs1 := h.node _ t1 (pdptIndex va) h1 (show 1 < 3 by decide) hi1
    rw [hp0, hf0]
    cases h2 : tab ([pml4Index va] ++ [pdptIndex va]) with
    | none =>
      rw [h2] at hs1
      rw [hs1, if_neg (hmiss (h.none_below h2 (pdIndex va)))]
      rfl
    | some t2 =>
      rw [h2] at hs1
      obtain ⟨hp1, hh1, hf1⟩ := hs1.read (h.addr _ _ h2).1 (by have := (h.addr _ _ h2).2.2; omega)
      have hs2 := h.node _ t2 (pdIndex va) h2 (show 2 < 3 by decide) hi2
      rw [hp1, hh1, hf1]
      cases h3 : tab ([pml4Index va] ++ [pdptIndex va] ++ [pdIndex va]) with
      | none =>
        rw [h3] at hs2
        rw [hs2, if_neg (hmiss h3)]
        rfl
      | some t3 =>
        rw [h3] at hs2
        obtain ⟨hp2, hh2, hf2⟩ := hs2.read (h.addr _ _ h3).1 (by have := (h.addr _ _ h3).2.2; omega)
        have hs3 := h.last _ t3 (ptIndex va) h3 rfl hi3
        rw [show [pml4Index va] ++ [pdptIndex va] ++ [pdIndex va] = pathOf va from rfl] at hs3
        rw [hp2, hh2, hf2]
        by_cases hm : pathOf va ++ [ptIndex va] ∈ mapped
        · rw [if_pos hm] at hs3
          obtain ⟨hp3, -, hf3⟩ := hs3.read (by rw [addrOf_path]; omega) (by rw [addrOf_path]; omega)
          rw [hp3, hf3, if_pos hm, addrOf_path, hsum]
          rfl
        · rw [if_neg hm] at hs3
          rw [hs3, if_neg hm]
          rfl

end Tree

end Paging
end OS64
