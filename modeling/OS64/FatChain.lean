import OS64.FatVolume
import Mathlib.Data.List.Perm.Subperm
/-!
# FatChain — cluster chains of a volume, and the allocator

`v.Chain c l`: the chain that starts at `c` is the list `l` of clusters in use; an empty file has the start 0.  A chain
is finite by this definition, so it has no cycle.
-/
namespace OS64

open List Nat

namespace Fat32

structure Chain (v : Fat32) (c : Nat) (l : List Nat) : Prop where
  trail : ∃ e, Trail v.nextCluster offChain c l e
  index : ∀ x ∈ l, v.geom.Index x
  used : ∀ x ∈ l, v.fatCache x ≠ free
  start : l = [] → c = 0

section
variable {v w : Fat32} {c x : Nat} {l : List Nat}

theorem offChain_eoc : offChain eoc = true := by decide

theorem offChain_zero : offChain 0 = true := by decide

theorem offChain_of_index (hs : v.geom.Sized) (hc : v.geom.Index c) : offChain c = false := by
  have hmost := hs.most
  obtain ⟨h2, hlt⟩ := hc
  have hne : c ≠ 0 := by omega
  have hlt' : ¬ eoc ≤ c := by
    unfold bad at hmost
    unfold eoc
    omega
  unfold offChain
  simp [hne, hlt']

theorem nextCluster_congr (hg : w.geom = v.geom) (hx : w.fatCache x = v.fatCache x) :
    w.nextCluster x = v.nextCluster x := by
  have hentries : w.fatEntries = v.fatEntries := congrArg Geom.fatEntries hg
  unfold nextCluster
  rw [hentries, hx]

theorem nextCluster_link (hs : v.geom.Sized) (hc : v.geom.Index c) (hx : v.geom.Index x) (h : v.fatCache c = x) :
    v.nextCluster c = x := by
  have hmost := hs.most
  obtain ⟨h2, hlt⟩ := hx
  have hc' : ¬ (c < 2 ∨ v.fatEntries ≤ c) := fun h => by
    have h1 := hc.1
    have h3 : c < v.fatEntries := hc.2
    omega
  unfold bad at hmost
  unfold nextCluster eoc free bad
  rw [h, if_neg hc', if_neg (by omega), if_neg (by omega)]

theorem nextCluster_end (hc : v.fatCache c = eoc) : v.nextCluster c = eoc := by
  unfold nextCluster
  rw [hc]
  split
  · rfl
  · exact if_pos le_rfl

theorem Chain.nodup (h : v.Chain c l) : l.Nodup := h.trail.choose_spec.nodup

theorem Chain.unique {l' : List Nat} (h : v.Chain c l) (h' : v.Chain c l') : l = l' :=
  h.trail.choose_spec.unique h'.trail.choose_spec

theorem length_le_of_index (hnd : l.Nodup) (hidx : ∀ x ∈ l, v.geom.Index x) : l.length ≤ v.fatEntries := by
  have hsub : l ⊆ List.range v.fatEntries := fun x hx => mem_range.2 (hidx x hx).2
  have hle := (hnd.subperm hsub).length_le
  rwa [length_range] at hle

theorem Chain.length_le (h : v.Chain c l) : l.length ≤ v.fatEntries := length_le_of_index h.nodup h.index

theorem Chain.turns (h : v.Chain c l) : l.length ≤ v.turns := le_add_right_of_le h.length_le

theorem Chain.congr (hg : w.geom = v.geom) (hl : ∀ x ∈ l, w.fatCache x = v.fatCache x) (h : v.Chain c l) :
    w.Chain c l where
  trail := by
    obtain ⟨e, he⟩ := h.trail
    exact ⟨e, he.congr (fun x hx => nextCluster_congr hg (hl x hx))⟩
  index x hx := by rw [hg]; exact h.index x hx
  used x hx := by rw [hl x hx]; exact h.used x hx
  start := h.start

theorem Chain.single (hs : v.geom.Sized) (hc : v.geom.Index c) (h : v.fatCache c = eoc) : v.Chain c [c] where
  trail := by
    refine ⟨eoc, rfl, offChain_of_index hs hc, ?_⟩
    rw [nextCluster_end h]
    exact ⟨rfl, offChain_eoc⟩
  index x hx := by rwa [mem_singleton.1 hx]
  used x hx := by
    rw [mem_singleton.1 hx, h]
    decide
  start := by simp

/-- **Linking a new last cluster behind a chain.** -/
theorem Chain.append (hs : v.geom.Sized) {z new : Nat} (h : v.Chain c (l ++ [z])) (hg : w.geom = v.geom)
    (hnew : w.Chain new [new]) (hz : w.fatCache z = new) (hl : ∀ x ∈ l, w.fatCache x = v.fatCache x) :
    w.Chain c (l ++ [z] ++ [new]) where
  trail := by
    obtain ⟨e, he⟩ := h.trail
    obtain ⟨e', he'⟩ := hnew.trail
    have hzi : w.geom.Index z := by
      rw [hg]
      exact h.index z (by simp)
    have hsw : w.geom.Sized := by rwa [hg]
    refine ⟨e', Trail.join (nextCluster_link hsw hzi (hnew.index new (by simp)) hz) he' ?_ he⟩
    exact fun x hx _ => nextCluster_congr hg (hl x hx)
  index x hx := by
    rcases mem_append.1 hx with hx | hx
    · rw [hg]; exact h.index x hx
    · exact hnew.index x hx
  used x hx := by
    rcases mem_append.1 hx with hx | hx
    · rcases mem_append.1 hx with hx | hx
      · rw [hl x hx]; exact h.used x (mem_append_left _ hx)
      · rw [mem_singleton.1 hx]
        have := (hnew.index new (by simp)).1
        unfold free
        omega
    · exact hnew.used x hx
  start := by simp

theorem searchAt_index (hs : v.geom.Sized) {i : Nat} (hi : i < v.fatEntries - 2) : v.geom.Index (v.searchAt i) := by
  have hmost := hs.entries_le
  rw [geom_fatEntries] at hmost
  have hstart : 2 ≤ v.searchStart ∧ v.searchStart < v.fatEntries := by
    unfold searchStart
    split <;> omega
  have hsum : u32 (v.searchStart + i) = v.searchStart + i := u32_of_lt (by omega)
  unfold searchAt
  simp only [hsum]
  split
  · have hsub : sub32 (v.searchStart + i) v.fatEntries = v.searchStart + i - v.fatEntries :=
      sub32_of_le (by omega) (by omega)
    rw [u32_of_lt (by omega)]
    exact ⟨by omega, by show _ < v.fatEntries; omega⟩
  · exact ⟨by omega, by show _ < v.fatEntries; omega⟩

/-- **The search goes through the whole FAT.** -/
theorem searchAt_surj (hs : v.geom.Sized) (hx : v.geom.Index x) : ∃ i, i < v.fatEntries - 2 ∧ v.searchAt i = x := by
  have hmost := hs.entries_le
  rw [geom_fatEntries] at hmost
  have hlo : 2 ≤ x := hx.1
  have hhi : x < v.fatEntries := hx.2
  have hstart : 2 ≤ v.searchStart ∧ v.searchStart < v.fatEntries := by
    unfold searchStart
    split <;> omega
  unfold searchAt
  by_cases hle : v.searchStart ≤ x
  · refine ⟨x - v.searchStart, by omega, ?_⟩
    rw [add_sub_of_le hle, u32_of_lt (by omega)]
    exact if_neg (not_le.2 hhi)
  refine ⟨x + v.fatEntries - 2 - v.searchStart, by omega, ?_⟩
  rw [show v.searchStart + (x + v.fatEntries - 2 - v.searchStart) = x - 2 + v.fatEntries by omega, u32_of_lt (by omega)]
  simp only [if_pos (le_add_left v.fatEntries (x - 2))]
  rw [sub32_of_le (by omega) (by omega), u32_of_lt (by omega)]
  omega

/-- **The allocator** takes a free cluster of the FAT, or does nothing when there is none. -/
theorem allocCluster_cases (hs : v.geom.Sized) : (v.allocCluster = (v, 0) ∧ ∀ x, v.geom.Index x → v.fatCache x ≠ free) ∨
    ∃ c, v.allocCluster = (v.take c, c) ∧ v.geom.Index c ∧ v.fatCache c = free := by
  have hcount : sub32 v.fatEntries 2 = v.fatEntries - 2 := by
    have hmost := hs.entries_le
    rw [geom_fatEntries] at hmost
    exact sub32_of_le (by omega) hs.least
  unfold allocCluster
  rw [hcount]
  generalize hn : v.fatEntries - 2 = n
  have hloop := forLoop_rule (f := fun i (w : Fat32) =>
      if v.fatCache (v.searchAt i) = free then (v.take (v.searchAt i), Flow.ret (v.searchAt i)) else (w, Flow.next))
    (fun i w => w = v ∧ ∀ j, j < i → v.fatCache (v.searchAt j) ≠ free)
    (E := fun w => w = v ∧ ∀ j, j < n → v.fatCache (v.searchAt j) ≠ free)
    (Q := fun w c => w = v.take c ∧ v.geom.Index c ∧ v.fatCache c = free)
    n 0 v ⟨rfl, fun j hj => absurd hj (not_lt_zero j)⟩ (fun _ h => by rwa [zero_add] at h) (fun i w _ hi hw => by
      by_cases hfree : v.fatCache (v.searchAt i) = free
      · rw [if_pos hfree]
        exact ⟨rfl, searchAt_index hs (by omega), hfree⟩
      · rw [if_neg hfree]
        exact ⟨hw.1, fun j hj => (Nat.lt_succ_iff_lt_or_eq.1 hj).elim (hw.2 j) (fun heq => heq ▸ hfree)⟩)
  revert hloop
  rcases forLoop _ n 0 v with ⟨w, _ | c⟩
  · intro hloop
    obtain ⟨rfl, hnone⟩ := hloop.1 rfl
    refine .inl ⟨rfl, fun x hx => ?_⟩
    obtain ⟨i, hi, rfl⟩ := searchAt_surj hs hx
    exact hnone i (by omega)
  · intro hloop
    obtain ⟨rfl, hc, hfree⟩ := hloop.2 c rfl
    exact .inr ⟨c, rfl, hc, hfree⟩

theorem fatCache_take_self (v : Fat32) (c : Nat) : (v.take c).fatCache c = eoc := Function.update_self ..

theorem fatCache_take_ne (v : Fat32) (h : x ≠ c) : (v.take c).fatCache x = v.fatCache x :=
  Function.update_of_ne h ..

theorem fatCache_setNext_self (v : Fat32) (c n : Nat) : (v.setNext c n).fatCache c = n := Function.update_self ..

theorem fatCache_setNext_ne (v : Fat32) {n : Nat} (h : x ≠ c) : (v.setNext c n).fatCache x = v.fatCache x :=
  Function.update_of_ne h ..

/-! ## Releasing a chain -/

@[simp] theorem geom_release (v : Fat32) (c : Nat) : (v.release c).geom = v.geom := rfl

theorem fatCache_release_self (v : Fat32) (c : Nat) : (v.release c).fatCache c = free := by
  unfold release
  simp

theorem fatCache_release_ne (v : Fat32) {c x : Nat} (h : x ≠ c) : (v.release c).fatCache x = v.fatCache x := by
  unfold release
  simp [h]

structure Released (v w : Fat32) (l : List Nat) : Prop where
  geom : w.geom = v.geom
  dev : w.dev = v.dev
  cache : ∀ x, w.fatCache x = if x ∈ l then free else v.fatCache x
  count : v.freeCount < 4294967296 → w.freeCount = u32 (v.freeCount + l.length)

theorem released_nil (v : Fat32) : Released v v [] := ⟨rfl, rfl, fun x => by simp, fun h => (u32_of_lt h).symm⟩

theorem nextCluster_raw (hs : v.geom.Sized) (hc : v.geom.Index c) (hused : v.fatCache c ≠ free) :
    v.nextCluster c = v.fatCache c ∨
      v.nextCluster c = eoc ∧ ¬ v.geom.Index (if v.fatCache c < eoc then v.fatCache c else 0) := by
  have hidx : ¬ (c < 2 ∨ v.fatEntries ≤ c) := fun h => by
    have h1 := hc.1
    have h2 : c < v.fatEntries := hc.2
    omega
  unfold nextCluster
  rw [if_neg hidx]
  by_cases hend : eoc ≤ v.fatCache c
  · rw [if_pos hend, if_neg (not_lt.2 hend)]
    exact .inr ⟨rfl, fun h => absurd h.1 (by decide)⟩
  rw [if_neg hend]
  by_cases hbad : v.fatCache c = bad
  · rw [hbad]
    exact .inr ⟨rfl, fun h => absurd h.2 (not_lt.2 hs.most)⟩
  · rw [if_neg (by rintro (h | h); exacts [hused h, hbad h])]
    exact .inl rfl

theorem freeClusterChainFrom_stop (v : Fat32) {c : Nat} (h : ¬ v.geom.Index c) : ∀ turns,
    freeClusterChainFrom turns v c = .ok v
  | 0 => if_neg h
  | _ + 1 => if_neg h

theorem freeClusterChainFrom_step {c turns : Nat} (h : v.geom.Index c) : freeClusterChainFrom (turns + 1) v c =
    freeClusterChainFrom turns (v.release c) (if v.fatCache c < eoc then v.fatCache c else 0) := if_pos h

theorem Released.cons {w' : Fat32} (hw : w = v.release c) (h : Released w w' l) : Released v w' (c :: l) := by
  subst hw
  refine ⟨h.geom, h.dev, fun x => ?_, fun _ => ?_⟩
  · rw [h.cache x]
    by_cases hx : x = c
    · subst hx
      rw [fatCache_release_self, if_pos mem_cons_self, ite_self]
    · rw [fatCache_release_ne v hx]
      simp only [mem_cons, hx, false_or]
  · have hone : (v.release c).freeCount = u32 (v.freeCount + 1) := rfl
    rw [h.count (u32_lt _), hone, length_cons]
    unfold u32
    omega

theorem freeClusterChainFrom_trail {e : Nat} : ∀ {l : List Nat} {v : Fat32} {c turns : Nat}, v.geom.Sized →
    Trail v.nextCluster offChain c l e → (∀ x ∈ l, v.geom.Index x) → (∀ x ∈ l, v.fatCache x ≠ free) → l ≠ [] →
    l.length ≤ turns → ∃ w, freeClusterChainFrom turns v c = .ok w ∧ Released v w l
  | [], _, _, _, _, _, _, _, hne, _ => absurd rfl hne
  | _ :: _, _, _, 0, _, _, _, _, _, hlen => absurd hlen (not_succ_le_zero _)
  | [x], v, c, turns + 1, hs, h, hidx, hused, _, _ => by
    obtain ⟨rfl, -, hend, hstop⟩ := h
    have hx := hidx x (.head _)
    have hu := hused x (.head _)
    have hraw : ¬ v.geom.Index (if v.fatCache x < eoc then v.fatCache x else 0) := by
      rcases nextCluster_raw hs hx hu with hr | ⟨-, hr⟩
      · rw [← hr, hend]
        intro hc
        have := offChain_of_index hs hc
        split at this
        · rw [hstop] at this
          cases this
        · exact absurd this (by decide)
      · exact hr
    refine ⟨v.release x, ?_, Released.cons rfl (released_nil _)⟩
    rw [freeClusterChainFrom_step hx]
    exact freeClusterChainFrom_stop (v.release x) hraw turns
  | x :: y :: l, v, c, turns + 1, hs, h, hidx, hused, _, hlen => by
    have hnd := h.nodup
    obtain ⟨rfl, -, hrest⟩ := h
    have hx := hidx x (.head _)
    have hy := hidx y (.tail _ (.head _))
    have hyx : y = v.nextCluster x := hrest.1
    have hoff := offChain_of_index hs hy
    have hraw : v.fatCache x = y := by
      rcases nextCluster_raw hs hx (hused x (.head _)) with hr | ⟨hr, -⟩
      · rw [← hr, hyx]
      · rw [hyx, hr] at hoff
        exact absurd hoff (by decide)
    have hlt : v.fatCache x < eoc := by
      have := hs.most
      have := hy.2
      unfold bad at *
      unfold eoc
      omega
    have hne : ∀ z ∈ y :: l, z ≠ x := fun z hz hc => (nodup_cons.1 hnd).1 (hc ▸ hz)
    have htrail : Trail (v.release x).nextCluster offChain y (y :: l) e := by
      rw [hyx] at hrest ⊢
      exact hrest.congr (fun z hz => nextCluster_congr (geom_release v x) (fatCache_release_ne v (hne z (hyx ▸ hz))))
    obtain ⟨w, hw, hrel⟩ := @freeClusterChainFrom_trail e (y :: l) (v.release x) y turns hs htrail
      (forall_mem_cons.1 hidx).2
      (fun z hz => by rw [fatCache_release_ne v (hne z hz)]; exact hused z (.tail _ hz))
      (cons_ne_nil _ _) (le_of_succ_le_succ hlen)
    refine ⟨w, ?_, Released.cons rfl hrel⟩
    rwa [freeClusterChainFrom_step hx, if_pos hlt, hraw]

/-- **Releasing a chain** makes exactly its clusters free. -/
theorem freeClusterChain_eq (hs : v.geom.Sized) (h : v.Chain c l) (hl : l ≠ []) :
    ∃ w, v.freeClusterChain c = .ok w ∧ Released v w l := by
  obtain ⟨e, he⟩ := h.trail
  exact freeClusterChainFrom_trail hs he h.index h.used hl h.turns

end

/-- What `fat32_format` and `fat32_mount` make of a device of 100 sectors, with one file: cluster 3, `size` bytes. -/
def smallVol : Fat32 :=
  { dev := { ready := true, sectorSize := 512, totalSectors := 100, data := blank }, fatSize32 := 1, freeCount := 65,
    nextFree := 4, bytesPerSector := 512, sectorsPerCluster := 1, bytesPerCluster := 512, totalClusters := 66,
    fatStart := 32, dataStart := 34, rootCluster := 2, fsinfoSector := 1,
    fatCache := fun c => if c = 2 ∨ c = 3 then 0x0FFFFFFF else 0, fatEntries := 128, dirty := true }

def smallFile (size : Nat) : Inode :=
  { mode := ftRegFile, size := size, firstCluster := 3, dirCluster := 2, dirEntry := 2, parentCluster := 2,
    entryOffset := 64 }

def smallRoot : Inode :=
  { mode := ftDir, size := 0, firstCluster := 2, dirCluster := 0, dirEntry := 0, parentCluster := 2, entryOffset := 0 }

theorem smallVol_sound : smallVol.geom.Sound := by
  constructor <;> simp [geom, smallVol, bad]

theorem smallVol_chain : smallVol.Chain 3 [3] where
  trail := ⟨eoc, rfl, by decide, by decide, by decide⟩
  index := by decide
  used := by decide
  start := by simp

end Fat32

end OS64
