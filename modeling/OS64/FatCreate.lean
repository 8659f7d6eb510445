import OS64.FatNewSlots
import OS64.FatWrite
/-!
# FatCreate — what `fat32_create` and `fat32_mkdir` do to a directory

A call that returns 0 found no entry of the name, took the first free slot of the directory or, when there is none, the
first of a new cluster, and wrote the new entry's slots from there on (`create_cases`).  Whether the slots behind the
first are free it does not ask.
-/
namespace OS64

open List Nat

namespace Fat32

section
variable {t : Rtc} {v w : Fat32} {dir dir' inode : Inode} {name : Name} {mode cluster s index : Nat} {old : Mem}
  {l : List Nat}

/-- What `createAt` leaves: `first` is the first cluster of a new directory. -/
structure CreatedAt (t : Rtc) (v w : Fat32) (dir : Inode) (name : Name) (mode : Nat) (old : Mem)
    (cluster s first : Nat) : Prop where
  room : s + lfnEntries name < v.slotCount
  geom : w.geom = v.geom
  plain : mode ≠ ftDir → w.fatCache = v.fatCache
  alloc : mode = ftDir → v.allocCluster.2 = first
  taken : mode = ftDir → v.geom.Index first ∧ v.fatCache first = free ∧ w.fatCache = (v.take first).fatCache
  content : ∀ d x, v.geom.Index d → x < v.bytesPerCluster → w.content d x =
    if d = cluster ∧ v.geom.OnDevice cluster then placed t old name mode s first x
    else if mode = ftDir ∧ d = first ∧ v.geom.OnDevice first then newDir t first dir.firstCluster x
    else v.content d x

def newInode (dir : Inode) (name : Name) (mode cluster s index first : Nat) : Inode :=
  { mode := mode, size := 0, firstCluster := if mode = ftDir then first else 0, dirCluster := cluster,
    dirEntry := index, parentCluster := dir.firstCluster, entryOffset := 32 * (s + lfnEntries name) }

theorem entCluster_placed (t : Rtc) (old : Mem) {first : Nat} (hf : first < 2 ^ 32) :
    entCluster (placed t old name mode s first) (32 * (s + lfnEntries name)) = if mode = ftDir then first else 0 := by
  exact (placed_main (fun _ => hf) rfl).2.2.1

theorem Geom.Sound.index_lt {g : Geom} (hs : g.Sound) {c : Nat} (hc : g.Index c) : c < 2 ^ 32 := by
  have := hs.sized.entries_le
  have := hc.2
  omega

section
variable (hs : v.geom.Sound) (hc : v.geom.Index cluster)
include hs hc

theorem createAt_file (hm : mode ≠ ftDir) (h : createAt t v dir name mode old cluster s index = (w, some inode)) :
    CreatedAt t v w dir name mode old cluster s 0 ∧ inode = newInode dir name mode cluster s index 0 := by
  have hbuf : placed t old name mode s 0 = newSlots t old name mode s := if_neg hm
  unfold createAt at h
  by_cases hroom : v.slotCount < s + (1 + lfnEntries name)
  · rw [if_pos hroom] at h
    cases h
  rw [if_neg hroom, if_neg hm] at h
  obtain ⟨rfl, rfl⟩ := h
  refine ⟨⟨by omega, geom_writeCluster .., fun _ => fatCache_writeCluster .., fun h => absurd h hm,
    fun h => absurd h hm, ?_⟩, ?_⟩
  · intro d x hd hx
    rw [content_writeCluster hs hc hd hx, hbuf, if_neg (c := mode = ftDir ∧ _) (fun h => hm h.1)]
  · unfold newInode
    rw [← entCluster_placed t old (by decide : 0 < 2 ^ 32), hbuf]

theorem createAt_dir (hm : mode = ftDir) (h : createAt t v dir name mode old cluster s index = (w, some inode)) :
    ∃ first, CreatedAt t v w dir name mode old cluster s first ∧
      inode = newInode dir name mode cluster s index first := by
  unfold createAt at h
  by_cases hroom : v.slotCount < s + (1 + lfnEntries name)
  · rw [if_pos hroom] at h
    cases h
  rw [if_neg hroom, if_pos hm] at h
  rcases allocCluster_cases hs.sized with ⟨ha, -⟩ | ⟨z, ha, hz, hfree⟩
  · rw [ha] at h
    cases h
  obtain ⟨first, rfl⟩ : ∃ y, z = y + 1 := ⟨z - 1, by have := hz.1; omega⟩
  rw [ha] at h
  obtain ⟨rfl, rfl⟩ := h
  have hbuf : placed t old name mode s (first + 1) =
      setCluster (newSlots t old name mode s) (32 * (s + lfnEntries name)) (first + 1) := if_pos hm
  have hg : (v.take (first + 1)).geom = v.geom := geom_take ..
  refine ⟨first + 1, ⟨by omega, by simp, fun h => absurd hm h, fun _ => by rw [ha], fun _ => ⟨hz, hfree, by simp⟩, ?_⟩,
    ?_⟩
  · intro d x hd hx
    generalize hu : (v.take (first + 1)).writeCluster (first + 1) (newDir t (first + 1) dir.firstCluster) = u
    have hug : u.geom = v.geom := by rw [← hu]; simp
    have hin : u.content d x =
        if d = first + 1 ∧ v.geom.OnDevice (first + 1) then newDir t (first + 1) dir.firstCluster x
        else v.content d x := by
      rw [← hu, content_writeCluster (by exact hs) (by exact hz) (by exact hd) (by exact hx), hg, content_take]
    rw [content_writeCluster (by rwa [hug]) (by rwa [hug]) (by rwa [hug])
      (by rwa [hug]), hug, hin, hbuf]
    simp only [hm, true_and]
  · unfold newInode
    rw [← entCluster_placed t old (hs.index_lt hz), hbuf]

/-- **`fat32_create` once the slot is known.** -/
theorem createAt_cases (h : createAt t v dir name mode old cluster s index = (w, some inode)) :
    ∃ first, CreatedAt t v w dir name mode old cluster s first ∧
      inode = newInode dir name mode cluster s index first := by
  by_cases hm : mode = ftDir
  · exact createAt_dir hs hc hm h
  · exact ⟨0, createAt_file hs hc hm h⟩

end

theorem lastCluster_eq {z e : Nat} : ∀ {l : List Nat} {c turns : Nat}, Trail v.nextCluster offChain c (l ++ [z]) e →
    l.length ≤ turns → v.lastCluster turns c = .ok z
  | [], c, turns, h, _ => by
    obtain ⟨rfl, -, hend, hstop⟩ := h
    have hoff : offChain (v.nextCluster z) = true := by
      rwa [hend]
    cases turns <;> (unfold lastCluster; rw [if_pos hoff])
  | x :: l, c, 0, _, ht => absurd ht (not_succ_le_zero _)
  | x :: l, c, turns + 1, h, ht => by
    obtain ⟨rfl, -, hrest⟩ := h
    have hoff : offChain (v.nextCluster x) = false := by
      cases l with
      | nil => exact hrest.2.1
      | cons y l => exact hrest.2.1
    unfold lastCluster
    rw [hoff]
    exact lastCluster_eq hrest (le_of_succ_le_succ ht)

structure Linked (v w : Fat32) (dir : Inode) (l : List Nat) (z : Nat) : Prop where
  alloc : v.allocCluster.2 = z
  geom : w.geom = v.geom
  dev : w.dev = v.dev
  index : v.geom.Index z
  wasFree : v.fatCache z = free
  chain : w.Chain dir.firstCluster (l ++ [z])
  mark : w.fatCache z = eoc
  cache : ∀ x, x ∉ l → x ≠ z → w.fatCache x = v.fatCache x

/-- **Allocating a cluster and making it the last of a directory.** -/
theorem linkLast_cases (h : DirOk v dir l) : v.allocCluster = (v, 0) ∨
    ∃ z w, v.allocCluster = (v.take z, z) ∧ z ≠ 0 ∧ (v.take z).linkLast dir z = .ok (w, dir) ∧ Linked v w dir l z := by
  rcases allocCluster_cases h.sound.sized with ⟨ha, -⟩ | ⟨z, ha, hz, hfree⟩
  · exact .inl ha
  obtain ⟨l', y, rfl⟩ : ∃ l' y, l = l' ++ [y] := by
    rcases eq_nil_or_concat l with rfl | ⟨l', y, rfl⟩
    · exact absurd rfl h.nonempty
    · exact ⟨l', y, by simp⟩
  have hyz : z ≠ y := fun hc => h.chain.used y (by simp) (hc ▸ hfree)
  have hz0 : z ≠ 0 := by
    have := hz.1
    omega
  obtain ⟨e, he⟩ := (h.chain.take hfree).trail
  have hlast : (v.take z).lastCluster (v.take z).turns dir.firstCluster = .ok y := by
    refine lastCluster_eq he ?_
    have hlen := (h.chain.take hfree).length_le
    rw [length_append] at hlen
    unfold turns
    omega
  refine .inr ⟨z, (v.take z).setNext y z, ha, hz0, ?_, ?_⟩
  · unfold linkLast
    rw [if_neg (h.chain.start_ne h.nonempty), hlast]
    rfl
  · refine ⟨by rw [ha], by simp, rfl, hz, hfree, h.chain.extend h.sound.sized hz hfree, ?_, fun x hx hxz => ?_⟩
    · rw [fatCache_setNext_ne _ hyz, fatCache_take_self]
    · have hxy : x ≠ y := fun hc => hx (hc ▸ by simp)
      rw [fatCache_setNext_ne _ hxy, fatCache_take_ne _ hxz]

/-- Where a new entry goes: volume `u` is `v`, or `v` with an empty cluster linked to the directory; slot `n` of its
chain `l'` is the first of the entry's slots, `old` the content of that slot's cluster. -/
inductive Place (v : Fat32) (dir : Inode) (l : List Nat) : Fat32 → List Nat → Nat → Mem → Prop
  | inside (n : Nat) (hn : n < l.length * v.slotCount) (hfree : Unused (v.slot l n))
      (hfirst : ∀ j, j < n → ¬ Unused (v.slot l j)) : Place v dir l v l n (v.content (l.getD (n / v.slotCount) 0))
  | behind (z : Nat) (w : Fat32) (hfull : ∀ n, n < l.length * v.slotCount → ¬ Unused (v.slot l n))
      (hl : Linked v w dir l z) : Place v dir l (w.writeCluster z blank) (l ++ [z]) (l.length * v.slotCount)
        (((w.writeCluster z blank).readCluster z).getD blank)

/-- **A call of `fat32_create` that returns 0.** -/
theorem create_cases (h : DirOk v dir l) (hc : create t v dir name mode = .ok (w, dir', some inode)) :
    dir' = dir ∧ v.lookup dir name = .ok none ∧ ∃ u l' n old, Place v dir l u l' n old ∧
        createAt t u dir name mode old (l'.getD (n / v.slotCount) 0) (n % v.slotCount) n = (w, some inode) := by
  unfold create at hc
  rcases lookup_cases h name with ⟨hl, -⟩ | ⟨n, hl, -⟩
  · obtain ⟨r, hr, hout⟩ := searchDir_cases h true
    rw [hl] at hc
    simp only [Res.bind, hr] at hc
    rcases hout with ⟨n, hn, hfree, hfirst, rfl⟩ | ⟨hfull, buf, e, rfl⟩
    · simp only [Res.ok.injEq, Prod.mk.injEq] at hc
      obtain ⟨rfl, rfl, hino⟩ := hc
      exact ⟨rfl, hl, v, l, n, _, .inside n hn hfree hfirst, Prod.ext rfl hino⟩
    rcases linkLast_cases h with ha | ⟨z, u, ha, hz0, hlink, hlinked⟩
    · rw [ha] at hc
      simp only [Res.ok.injEq, Prod.mk.injEq] at hc
      exact absurd hc.2.2 (by simp)
    obtain ⟨z, rfl⟩ : ∃ y, z = y + 1 := ⟨z - 1, by omega⟩
    rw [ha] at hc
    simp only [hlink, Res.ok.injEq, Prod.mk.injEq] at hc
    obtain ⟨rfl, rfl, hino⟩ := hc
    refine ⟨rfl, hl, _, _, _, _, .behind (z + 1) u hfull hlinked, Prod.ext ?_ ?_⟩
    · have hpos := slotCount_pos h.sound
      rw [Nat.mul_div_cancel _ hpos, Nat.mul_mod_left, getD_append_right _ _ _ _ le_rfl, Nat.sub_self]
      rfl
    · have hpos := slotCount_pos h.sound
      rwa [Nat.mul_div_cancel _ hpos, Nat.mul_mod_left, getD_append_right _ _ _ _ le_rfl, Nat.sub_self]
  · rw [hl] at hc
    simp only [Res.bind, Res.ok.injEq, Prod.mk.injEq] at hc
    exact absurd hc.2.2 (by simp)

variable {u : Fat32} {l' : List Nat} {n m o first : Nat}

structure Base (v u : Fat32) (dir : Inode) (l l' : List Nat) (n : Nat) (old : Mem) : Prop where
  geom : u.geom = v.geom
  chain : u.Chain dir.firstCluster l'
  isPrefix : l <+: l'
  lt : n < l'.length * v.slotCount
  onDevice : ∀ x ∈ l', x ≠ l'.getD (n / v.slotCount) 0 → v.geom.OnDevice x
  kept : ∀ m o, m < l.length * v.slotCount → o < 32 → u.slot l' m o = v.slot l m o
  zero : ∀ m o, l.length * v.slotCount ≤ m → m < l'.length * v.slotCount → o < 32 →
    v.geom.OnDevice (l'.getD (n / v.slotCount) 0) → u.slot l' m o = 0#8
  old_eq : v.geom.OnDevice (l'.getD (n / v.slotCount) 0) → ∀ x, x < v.bytesPerCluster →
    old x = u.content (l'.getD (n / v.slotCount) 0) x

theorem Place.base_behind {z : Nat} (h : DirOk v dir l) (hl : Linked v w dir l z) :
    Base v (w.writeCluster z blank) dir l (l ++ [z]) (l.length * v.slotCount)
      (((w.writeCluster z blank).readCluster z).getD blank) := by
  have hpos := slotCount_pos h.sound
  have hbytes := slotCount_bytes h.sound
  have hsw : w.geom.Sound := by rw [hl.geom]; exact h.sound
  have hzi : w.geom.Index z := by rw [hl.geom]; exact hl.index
  have htgt : (l ++ [z]).getD (l.length * v.slotCount / v.slotCount) 0 = z := by
    rw [Nat.mul_div_cancel _ hpos, getD_append_right _ _ _ _ le_rfl, Nat.sub_self]
    rfl
  have hzl : z ∉ l := fun hz => h.chain.used z hz hl.wasFree
  have hwc : w.content = v.content := by
    unfold content
    rw [hl.geom, hl.dev]
  have hcontent : ∀ d x, v.geom.Index d → x < v.bytesPerCluster → (w.writeCluster z blank).content d x =
      if d = z ∧ v.geom.OnDevice z then 0#8 else v.content d x := fun d x hd hx => by
    rw [content_writeCluster hsw hzi (by rwa [hl.geom]) (by rwa [hl.geom]), hl.geom, hwc]
    rfl
  have hmod : ∀ m, 32 * (m % v.slotCount) + 31 < v.bytesPerCluster := fun m => by
    have := mod_lt m hpos
    omega
  have hsc : (w.writeCluster z blank).slotCount = v.slotCount := slotCount_geom (by simp [hl.geom])
  refine ⟨by simp [hl.geom], hl.chain.congr (by simp) (fun x _ => by simp), prefix_append .., ?_, ?_, ?_, ?_, ?_⟩
  · rw [length_append, length_singleton, succ_mul]
    omega
  · intro x hx hne
    rw [htgt] at hne
    rcases mem_append.1 hx with hx | hx
    · exact h.onDevice x hx
    · exact absurd (mem_singleton.1 hx) hne
  · intro m o hm ho
    have hk := div_lt_of_lt hm
    have hmem := getD_mem hk
    have hne : l.getD (m / v.slotCount) 0 ≠ z := fun hc => hzl (hc ▸ hmem)
    unfold slot
    rw [hsc, getD_append _ _ _ _ hk, hcontent _ _ (h.chain.index _ hmem) (by have := hmod m; omega),
      if_neg (fun hc => hne hc.1)]
  · intro m o hle hm ho hon
    rw [htgt] at hon
    have hk : m / v.slotCount = l.length := by
      rw [length_append, length_singleton] at hm
      have h1 := (div_lt_iff_lt_mul hpos).2 hm
      have h2 := (le_div_iff_mul_le hpos).2 hle
      omega
    unfold slot
    rw [hsc, hk, getD_append_right _ _ _ _ le_rfl, Nat.sub_self]
    exact (hcontent z _ hl.index (by have := hmod m; omega)).trans (if_pos ⟨rfl, hon⟩)
  · intro hon x _
    rw [htgt] at hon ⊢
    have hg : (w.writeCluster z blank).geom = v.geom := by simp [hl.geom]
    rw [readCluster_on (by rw [hg]; exact h.sound) (by rw [hg]; exact hl.index) (by rwa [hg])]
    rfl

theorem Place.base (h : DirOk v dir l) (hp : Place v dir l u l' n old) : Base v u dir l l' n old := by
  cases hp with
  | inside n hn hfree hfirst =>
    exact ⟨rfl, h.chain, prefix_rfl, hn, fun x hx _ => h.onDevice x hx, fun _ _ _ _ => rfl,
      fun m o hle hm _ _ => absurd hm (not_lt.2 hle), fun _ _ _ => rfl⟩
  | behind z w hfull hl => exact Place.base_behind h hl

/-- **The directory after a call that returned 0**, its place on the device. -/
theorem CreatedAt.slots (hs : v.geom.Sound) (hb : Base v u dir l l' n old)
    (hon : v.geom.OnDevice (l'.getD (n / v.slotCount) 0))
    (hc : CreatedAt t u w dir name mode old (l'.getD (n / v.slotCount) 0) (n % v.slotCount) first)
    (hm : m < l'.length * v.slotCount) (ho : o < 32) : w.slot l' m o = if n ≤ m ∧ m ≤ n + lfnEntries name
      then placed t old name mode (n % v.slotCount) first (32 * (n % v.slotCount + (m - n)) + o)
      else u.slot l' m o := by
  have hsu : u.geom.Sound := by rwa [hb.geom]
  have hsc := slotCount_geom hb.geom
  have hpos := slotCount_pos hs
  have hk := div_lt_of_lt hb.lt
  have hfirst : mode = ftDir → first ∉ l' := fun hd hmem => hb.chain.used first hmem (hc.taken hd).2.1
  have hcell : w.slot l' m o = if m / v.slotCount = n / v.slotCount
      then placed t old name mode (n % v.slotCount) first (32 * (m % v.slotCount) + o) else u.slot l' m o := by
    have := slot_of_content (placed t old name mode (n % v.slotCount) first) hsu hc.geom hb.chain.nodup
      (n := n) (by rw [hsc]; exact hb.lt) ?_ ?_ (by rwa [hsc]) ho
    · rwa [hsc] at this
    · intro x hx
      rw [hsc]
      rw [hc.content _ _ (hb.chain.index _ (getD_mem hk)) hx, if_pos ⟨rfl, by rwa [hb.geom]⟩]
    · intro d hd hne x hx
      rw [hsc] at hne
      have hnot : ¬ (mode = ftDir ∧ d = first ∧ u.geom.OnDevice first) := by
        rintro ⟨hdir, rfl, -⟩
        exact hfirst hdir hd
      rw [hc.content d x (hb.chain.index d hd) hx, if_neg (fun h => hne h.1), if_neg hnot]
  have hroom := hc.room
  have hn := div_add_mod' n v.slotCount
  have hmd := div_add_mod' m v.slotCount
  rw [hcell]
  by_cases hin : n ≤ m ∧ m ≤ n + lfnEntries name
  · obtain ⟨hdiv, hmod⟩ := div_mod_run (by rwa [hsc] at hroom) hin.1 hin.2
    rw [if_pos hin, if_pos hdiv, hmod]
  rw [if_neg hin]
  by_cases hdiv : m / v.slotCount = n / v.slotCount
  · rw [hdiv] at hmd
    have hx : 32 * (m % v.slotCount) + o < v.bytesPerCluster := by
      have := mod_lt m hpos
      have := slotCount_bytes hs
      omega
    rw [if_pos hdiv, placed_apart (by omega), hb.old_eq hon _ hx]
    unfold slot
    rw [hsc, hdiv]
  · rw [if_neg hdiv]

theorem CreatedAt.chain {c s : Nat} (hch : u.Chain dir.firstCluster l')
    (hc : CreatedAt t u w dir name mode old c s first) : w.Chain dir.firstCluster l' := by
  by_cases hm : mode = ftDir
  · obtain ⟨-, hfree, hcache⟩ := hc.taken hm
    exact (hch.take hfree).congr (by rw [hc.geom, geom_take]) (fun x _ => by rw [hcache])
  · exact hch.congr hc.geom (fun x _ => by rw [hc.plain hm])

theorem CreatedAt.slots_off (hs : v.geom.Sound) (hb : Base v u dir l l' n old)
    (hoff : ¬ v.geom.OnDevice (l'.getD (n / v.slotCount) 0))
    (hc : CreatedAt t u w dir name mode old (l'.getD (n / v.slotCount) 0) (n % v.slotCount) first)
    (hm : m < l.length * v.slotCount) (ho : o < 32) : w.slot l' m o = v.slot l m o := by
  have hpos := slotCount_pos hs
  have hsc := slotCount_geom (hc.geom.trans hb.geom)
  have hk : m / v.slotCount < l'.length := ((div_lt_iff_lt_mul hpos).2 hm).trans_le hb.isPrefix.length_le
  have hx : 32 * (m % v.slotCount) + o < u.bytesPerCluster := by
    have := mod_lt m hpos
    have := slotCount_bytes hs
    have hub := bytes_congr hb.geom
    omega
  have hnot : ¬ (mode = ftDir ∧ l'.getD (m / v.slotCount) 0 = first ∧ u.geom.OnDevice first) := by
    rintro ⟨hdir, hd, -⟩
    exact hb.chain.used _ (getD_mem hk) (hd ▸ (hc.taken hdir).2.1)
  rw [← hb.kept m o hm ho]
  unfold slot
  rw [hsc, slotCount_geom hb.geom, hc.content _ _ (hb.chain.index _ (getD_mem hk)) hx,
    if_neg (fun h => hoff (hb.geom ▸ h.2)), if_neg hnot]

end

end Fat32

end OS64
