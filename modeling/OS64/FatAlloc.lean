import OS64.FatLaw
import Mathlib.Data.Finset.Card
import Mathlib.Order.Interval.Finset.Nat
/-!
# FatAlloc — taking and giving back clusters

`fat32_alloc_clusters` builds a chain of free clusters and gives back what it took when it runs out of them
(`allocClusters_right`).  `fat32_free_cluster_chain` ends on every FAT, since an entry it comes back to is free by then,
and frees a chain exactly (`freeClusterChain_right`).
-/
namespace OS64

open List Nat
namespace Fat32

variable {v w : Fat32} {c x turns count : Nat} {l : List Nat} {s : AllocState}

def freeSet (v : Fat32) : Finset Nat := (Finset.Ico 2 v.fatEntries).filter (fun x => v.fatCache x = free)

theorem mem_freeSet : x ∈ v.freeSet ↔ v.geom.Index x ∧ v.fatCache x = free := by
  unfold freeSet
  rw [Finset.mem_filter, Finset.mem_Ico]
  rfl

theorem card_freeSet_le (v : Fat32) : v.freeSet.card ≤ v.fatEntries := by
  have h := Finset.card_filter_le (Finset.Ico 2 v.fatEntries) (fun x => v.fatCache x = free)
  rw [card_Ico] at h
  exact h.trans (sub_le _ _)

/-! ## Giving back -/

theorem freeSet_release (hc : v.geom.Index c) : (v.release c).freeSet = insert c v.freeSet := by
  ext x
  rw [Finset.mem_insert, mem_freeSet, mem_freeSet, geom_release]
  by_cases hx : x = c
  · rw [hx, fatCache_release_self]
    exact iff_of_true ⟨hc, rfl⟩ (.inl rfl)
  · rw [fatCache_release_ne v hx, or_iff_right hx]

theorem freeClusterChainFrom_ends : ∀ {turns : Nat} {v : Fat32} (c : Nat), v.fatEntries < turns + v.freeSet.card →
    ∃ w, freeClusterChainFrom turns v c = .ok w
  | 0, v, c, h => absurd (card_freeSet_le v) (by omega)
  | turns + 1, v, c, h => by
    by_cases hc : v.geom.Index c
    · rw [freeClusterChainFrom_step hc]
      by_cases hfree : v.fatCache c = free
      · refine ⟨v.release c, freeClusterChainFrom_stop _ (fun hi => ?_) turns⟩
        rw [hfree] at hi
        exact absurd hi.1 (by decide)
      · refine freeClusterChainFrom_ends _ ?_
        rw [freeSet_release hc, Finset.card_insert_of_notMem (fun hm => hfree (mem_freeSet.1 hm).2)]
        exact (show v.fatEntries < turns + (v.freeSet.card + 1) by omega)
    · exact ⟨v, freeClusterChainFrom_stop v hc _⟩

theorem Released.card (h : Released v w l) (hidx : ∀ x ∈ l, v.geom.Index x) (hused : ∀ x ∈ l, v.fatCache x ≠ free)
    (hnd : l.Nodup) : w.freeSet.card = v.freeSet.card + l.length := by
  have hset : w.freeSet = v.freeSet ∪ l.toFinset := by
    ext x
    rw [Finset.mem_union, mem_freeSet, mem_freeSet, mem_toFinset, h.geom, h.cache]
    by_cases hx : x ∈ l
    · rw [if_pos hx]
      exact iff_of_true ⟨hidx x hx, rfl⟩ (.inr hx)
    · rw [if_neg hx, or_iff_left hx]
  rw [hset, Finset.card_union_of_disjoint, toFinset_card_of_nodup hnd]
  exact Finset.disjoint_left.2 (fun x hx hl => hused x (mem_toFinset.1 hl) (mem_freeSet.1 hx).2)

/-- **`fat32_free_cluster_chain`** ends whatever the FAT holds and wherever it starts; of a chain it frees exactly the
clusters, and a right count of free clusters stays right. -/
theorem freeClusterChain_right (v : Fat32) (hmost : v.fatEntries ≤ 0x0FFFFFF6) (c : Nat) :
    ∃ w, v.freeClusterChain c = .ok w ∧ ∀ l, l ≠ [] → v.Chain c l →
      (∀ x, w.fatCache x = if x ∈ l then free else v.fatCache x) ∧
      (v.freeCount = v.freeSet.card → w.freeCount = w.freeSet.card) := by
  obtain ⟨w, hw⟩ := @freeClusterChainFrom_ends v.turns v c (by unfold Fat32.turns; omega)
  refine ⟨w, hw, fun l hl hch => ?_⟩
  have hsized : v.geom.Sized := by
    obtain ⟨x, l, rfl⟩ := exists_cons_of_ne_nil hl
    have hx := hch.index x (.head _)
    exact ⟨le_of_lt (hx.1.trans_lt hx.2), hmost.trans (by decide)⟩
  obtain ⟨w', hw', hrel⟩ := freeClusterChain_eq hsized hch hl
  obtain rfl : w = w' := Res.ok.inj (hw.symm.trans hw')
  refine ⟨hrel.cache, fun hcount => ?_⟩
  have hle := card_freeSet_le w
  have hentries : w.fatEntries = v.fatEntries := congrArg Geom.fatEntries hrel.geom
  have hcard := hrel.card hch.index hch.used hch.nodup
  rw [hrel.count (by omega), hcount, ← hcard]
  exact u32_of_lt (by omega)

def twoVol : Fat32 :=
  { smallVol with fatCache := fun c => if c = 3 then 4 else if c = 2 ∨ c = 4 then 0x0FFFFFFF else 0 }

theorem twoVol_chain : twoVol.Chain 3 [3, 4] where
  trail := ⟨eoc, rfl, by decide, rfl, by decide, by decide, by decide⟩
  index := by decide
  used := by decide
  start := by decide

theorem twoVol_freeClusterChain : ∃ w, twoVol.freeClusterChain 3 = .ok w ∧
    ∀ x, w.fatCache x = if x ∈ [3, 4] then free else twoVol.fatCache x := by
  obtain ⟨w, hw, hright⟩ := freeClusterChain_right twoVol (by decide) 3
  exact ⟨w, hw, (hright [3, 4] (by decide) twoVol_chain).1⟩

/-! ## Taking -/

structure Taken (v : Fat32) (s : AllocState) (l : List Nat) : Prop where
  geom : s.vol.geom = v.geom
  chain : s.vol.Chain s.first l
  wasFree : ∀ x ∈ l, v.geom.Index x ∧ v.fatCache x = free
  prev : s.prev = l.getLastD 0
  mark : l ≠ [] → s.vol.fatCache s.prev = eoc
  rest : ∀ x, x ∉ l → s.vol.fatCache x = v.fatCache x
  count : s.vol.freeCount = sub32 v.freeCount l.length

theorem Taken.init (v : Fat32) (hfree : v.freeCount < 2 ^ 32) : Taken v { vol := v, first := 0, prev := 0 } [] where
  geom := rfl
  chain := ⟨⟨0, rfl, offChain_zero⟩, fun x hx => (by cases hx), fun x hx => (by cases hx), fun _ => rfl⟩
  wasFree x hx := (by cases hx)
  prev := rfl
  mark h := absurd rfl h
  rest _ _ := rfl
  count := (sub32_of_le (by omega) (zero_le _)).symm

theorem Taken.apart (h : Taken v s l) (hfree : s.vol.fatCache c = free) : c ∉ l :=
  fun hc => h.chain.used c hc hfree

/-- **One turn**: no cluster of the FAT is free, or a free one is taken and linked. -/
theorem Taken.turn (hs : v.geom.Sized) (h : Taken v s l) : (allocTurn s = (s, none) ∧ v.freeSet.card ≤ l.length) ∨
    ∃ s' c, allocTurn s = (s', some c) ∧ Taken v s' (l ++ [c]) := by
  have hsv : s.vol.geom.Sized := by
    rwa [h.geom]
  unfold allocTurn
  rcases allocCluster_cases hsv with ⟨ha, hnone⟩ | ⟨c, ha, hc, hfree⟩
  · rw [ha]
    refine .inl ⟨rfl, ?_⟩
    have hsub : v.freeSet ⊆ l.toFinset := fun x hx => by
      obtain ⟨hi, hx⟩ := mem_freeSet.1 hx
      by_contra hl
      rw [mem_toFinset] at hl
      exact hnone x (by rwa [h.geom]) ((h.rest x hl).trans hx)
    exact (Finset.card_le_card hsub).trans (toFinset_card_le l)
  · have hcl := h.apart hfree
    have hwas : ∀ x ∈ l ++ [c], v.geom.Index x ∧ v.fatCache x = free := fun x hx => by
      rcases mem_append.1 hx with hx | hx
      · exact h.wasFree x hx
      · rw [mem_singleton.1 hx, ← h.rest c hcl, ← h.geom]
        exact ⟨hc, hfree⟩
    have hcount : (s.vol.take c).freeCount = sub32 v.freeCount (l ++ [c]).length := by
      change sub32 s.vol.freeCount 1 = _
      rw [h.count, length_append, length_singleton]
      unfold sub32 u32
      split <;> split <;> split <;> omega
    obtain ⟨c, rfl⟩ : ∃ y, c = y + 1 := ⟨c - 1, by have := hc.1; omega⟩
    rw [ha]
    refine .inr ⟨_, c + 1, rfl, ?_⟩
    have hprev := h.prev
    rcases eq_nil_or_concat l with rfl | ⟨l', y, rfl⟩
    · rw [if_pos (show s.prev = 0 from hprev), if_pos (h.chain.start rfl)]
      refine ⟨h.geom, .single hsv hc (fatCache_take_self ..), hwas, rfl, fun _ => fatCache_take_self .., fun x hx => ?_,
        hcount⟩
      rw [fatCache_take_ne _ (fun hxc => hx (mem_singleton.2 hxc))]
      exact h.rest x not_mem_nil
    rw [concat_eq_append] at *
    rw [getLastD_concat] at hprev
    have hy := (h.chain.index y (by simp)).1
    have hcy : c + 1 ≠ y := fun hc => hcl (hc ▸ by simp)
    rw [if_neg (by omega), if_neg (h.chain.start_ne (by simp)), hprev]
    refine ⟨h.geom, h.chain.extend hsv hc hfree, hwas, getLastD_concat.symm, fun _ => ?_, fun x hx => ?_, hcount⟩
    · rw [fatCache_setNext_ne _ hcy, fatCache_take_self]
    · rw [fatCache_setNext_ne _ (fun hxy => hx (by simp [hxy])), fatCache_take_ne _ (fun hxc => hx (by simp [hxc]))]
      exact h.rest x (fun hxl => hx (mem_append_left _ hxl))

/-- **`fat32_alloc_clusters`** links as many free clusters as asked for, or, when there are fewer, leaves the FAT and
the count of free clusters as they were. -/
theorem allocClusters_right (v : Fat32) (hleast : 3 ≤ v.fatEntries) (hmost : v.fatEntries ≤ 0x0FFFFFF6)
    (hfree : v.freeCount < 4294967296) (count : Nat) (h1 : 1 ≤ count) (hcount : count < 4294967296) :
    (∃ w first l, v.allocClusters count = .ok (w, first, count) ∧ w.Chain first l ∧ l.length = count ∧ l.Nodup ∧
      (∀ x ∈ l, (2 ≤ x ∧ x < v.fatEntries) ∧ v.fatCache x = free) ∧ w.fatCache (l.getLastD 0) = eoc ∧
      w.freeCount = sub32 v.freeCount count ∧ ∀ x, x ∉ l → w.fatCache x = v.fatCache x) ∨
    (v.freeSet.card < count ∧ ∃ w first, v.allocClusters count = .ok (w, first, 0) ∧ w.fatCache = v.fatCache ∧
      w.freeCount = v.freeCount) := by
  have hs : v.geom.Sized := ⟨le_of_succ_le hleast, hmost.trans (by decide)⟩
  unfold allocClusters
  generalize hr : forLoop _ count 0 _ = r
  have hloop : LoopPost (fun s => ∃ l, l.length = count ∧ Taken v s l)
      (fun s _ => v.freeSet.card < count ∧ ∃ l, Taken v s l) r := by
    rw [← hr]
    refine forLoop_rule (fun i s => ∃ l, l.length = i ∧ Taken v s l) count 0 _ ⟨[], rfl, .init v hfree⟩
      (fun _ h => by rwa [zero_add] at h) (fun i s _ hi hl => ?_)
    obtain ⟨l, rfl, ht⟩ := hl
    rcases ht.turn hs with ⟨ha, hfull⟩ | ⟨s', c, ha, ht'⟩
    · rw [ha]
      exact ⟨by omega, l, ht⟩
    · rw [ha]
      exact ⟨l ++ [c], by simp, ht'⟩
  obtain ⟨s, _ | _⟩ := r
  · obtain ⟨l, hlen, ht⟩ := hloop.1 rfl
    have hl : l ≠ [] := fun h => by rw [h, length_nil] at hlen; omega
    refine .inl ⟨s.vol, s.first, l, rfl, ht.chain, hlen, ht.chain.nodup, ht.wasFree, ?_, by rw [ht.count, hlen],
      ht.rest⟩
    rw [← ht.prev]
    exact ht.mark hl
  obtain ⟨hfew, l, ht⟩ := hloop.2 () rfl
  refine .inr ⟨hfew, ?_⟩
  by_cases hl : l = []
  · subst hl
    refine ⟨s.vol, s.first, if_pos (ht.chain.start rfl), funext fun x => ht.rest x not_mem_nil, ?_⟩
    rw [ht.count]
    exact sub32_of_le hfree (zero_le _)
  obtain ⟨w, hw, hrel⟩ := freeClusterChain_eq (by rwa [ht.geom]) ht.chain hl
  refine ⟨w, s.first, ?_, funext fun x => ?_, ?_⟩
  · simp only [if_neg (ht.chain.start_ne hl), hw]
    rfl
  · rw [hrel.cache]
    split
    · exact (ht.wasFree x ‹_›).2.symm
    · exact ht.rest x ‹_›
  · rw [hrel.count (by rw [ht.count]; exact sub32_lt ..), ht.count]
    unfold sub32 u32
    split <;> omega

theorem smallVol_allocClusters : ∃ w first l, smallVol.allocClusters 2 = .ok (w, first, 2) ∧ w.Chain first l ∧
    l.length = 2 ∧ w.freeCount = 63 := by
  rcases allocClusters_right smallVol (by decide) (by decide) (by decide) 2 (by decide) (by decide) with
    ⟨w, first, l, h, hch, hlen, -, -, -, hcount, -⟩ | ⟨hfew, -⟩
  · exact ⟨w, first, l, h, hch, hlen, hcount⟩
  · have htwo : ({4, 5} : Finset Nat) ⊆ smallVol.freeSet := by decide
    exact absurd (Finset.card_le_card htwo) (not_le.2 hfew)

end Fat32
end OS64
