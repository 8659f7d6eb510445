import OS64.FatNaming
import OS64.FatNames
/-!
# FatPersist — a new file on the disk

`fat32_create` stores an entry without a first cluster, and `fat32_write` gives the first cluster to the inode in memory
only: the entry gets the size and the times.  So the file that a later lookup finds has a size and no data
(`not_persisted`).
-/
namespace OS64

open List Nat

namespace Fat32

structure Layout (v : Fat32) : Prop where
  fat : v.fatStart + v.fatSize32 ≤ v.dataStart
  info : v.fsinfoSector < v.dataStart

theorem Layout.congr {v w : Fat32} (h : Layout v) (hg : w.geom = v.geom) : Layout w := by
  have h1 : w.fatStart = v.fatStart := congrArg Geom.fatStart hg
  have h2 : w.fatSize32 = v.fatSize32 := congrArg Geom.fatSize32 hg
  have h3 : w.dataStart = v.dataStart := congrArg Geom.dataStart hg
  have h4 : w.fsinfoSector = v.fsinfoSector := congrArg Geom.fsinfoSector hg
  exact ⟨by rw [h1, h2, h3]; exact h.fat, by rw [h3, h4]; exact h.info⟩

/-- The lookup of the name gives a file of `size` bytes, and they are those of the buffer. -/
def Persisted (v : Fat32) (dir : Inode) (name : Name) (buf : Mem) (size : Nat) : Prop :=
  ∃ i, v.lookup dir name = .ok (some i) ∧ i.size = size ∧
    ∃ m, v.read i 0 blank size = .ok (m, some size) ∧ ∀ o, o < size → m o = buf o

section
variable {t t' : Rtc} {v w w' u : Fat32} {dir dir' inode inode' : Inode} {l l' : List Nat} {name : Name}
  {mode n size : Nat} {old buf : Mem}

theorem data_write_before (dev : BlockDev) {lba count a x : Nat} (src : Mem) (h512 : dev.sectorSize = 512)
    (h : lba + count ≤ a) (hx : 512 * a ≤ x) : (dev.write lba count src).data x = dev.data x := by
  unfold BlockDev.write
  split
  · refine blit_apart _ _ (.inr ?_)
    rw [h512]
    omega
  · rfl

theorem sync_clean (h : v.dirty = false) : v.sync = v := if_pos h

theorem sync_dirty (h : v.dirty ≠ false) : v.sync =
    { v with
      dev := (v.dev.write v.fatStart v.fatSize32 v.fatBytes).write v.fsinfoSector 1 v.fsinfoBytes
      dirty := false } := by
  unfold sync
  rw [if_neg h]
  exact if_neg h

theorem sectorSize_write (dev : BlockDev) (lba count : Nat) (src : Mem) :
    (dev.write lba count src).sectorSize = dev.sectorSize := by
  unfold BlockDev.write
  split <;> rfl

theorem geom_write (v : Fat32) (lba count : Nat) (src : Mem) (dirty : Bool) :
    { v with dev := v.dev.write lba count src, dirty := dirty }.geom = v.geom := by
  unfold BlockDev.write geom
  split <;> rfl

@[simp] theorem geom_sync (v : Fat32) : v.sync.geom = v.geom := by
  by_cases h : v.dirty = false
  · rw [sync_clean h]
  · rw [sync_dirty h]
    exact (geom_write { v with dev := v.dev.write v.fatStart v.fatSize32 v.fatBytes } _ _ _ _).trans
      (geom_write v _ _ _ _)

@[simp] theorem fatCache_sync (v : Fat32) : v.sync.fatCache = v.fatCache := by
  by_cases h : v.dirty = false
  · rw [sync_clean h]
  · rw [sync_dirty h]

/-- **`fat32_sync` does not touch the clusters.** -/
theorem content_sync (hs : v.geom.Sound) (hlay : Layout v) (d x : Nat) : v.sync.content d x = v.content d x := by
  have h512 : v.dev.sectorSize = 512 := hs.sector512
  have hx : 512 * v.dataStart ≤ 512 * v.geom.sector d + x := by
    have : v.dataStart ≤ v.geom.sector d := le_add_right _ _
    omega
  unfold content
  rw [geom_sync]
  by_cases h : v.dirty = false
  · rw [sync_clean h]
  · rw [sync_dirty h]
    rw [data_write_before _ _ ((sectorSize_write ..).trans h512) hlay.info hx, data_write_before _ _ h512 hlay.fat hx]

theorem read_unallocated (v : Fat32) {i : Inode} (hpos : 0 < i.size) (h0 : i.firstCluster = 0) (buf : Mem)
    (size : Nat) : v.read i 0 buf size = .ok (buf, none) := by
  have hskip : skipClusters v (u32 (0 / v.bytesPerCluster)) i.firstCluster = 0 := by
    rw [Nat.zero_div, h0]
    rfl
  unfold read
  rw [if_neg (by omega)]
  simp only [hskip]
  exact if_pos offChain_zero

theorem content_growEntry_apart (hs : v.geom.Sound) (hdir : v.geom.Index inode.dirCluster) {d x : Nat}
    (hd : v.geom.Index d) (hx : x < v.bytesPerCluster) (hap : d ≠ inode.dirCluster ∨ x < inode.entryOffset + 22 ∨
      (inode.entryOffset + 26 ≤ x ∧ x < inode.entryOffset + 28) ∨ inode.entryOffset + 32 ≤ x) :
    (growEntry t v inode).content d x = v.content d x := by
  by_cases hdc : d = inode.dirCluster
  · unfold growEntry
    rw [content_writeCluster hs hdir hd hx]
    by_cases hon : v.geom.OnDevice inode.dirCluster
    · rw [if_pos ⟨hdc, hon⟩, readCluster_on hs hdir hon, setWritten_apart (by omega), store_apart _ (by omega), hdc]
      rfl
    · rw [if_neg (fun h => hon h.2)]
  · exact content_growEntry hs hdir hd hdc hx

/-- What a file's first data and a sync leave of the volume: the clusters in use have their content, but for the entry's
size and time, and their links. -/
structure Stored (v w : Fat32) (inode : Inode) : Prop where
  geom : w.geom = v.geom
  cache : ∀ x, v.fatCache x ≠ free → w.fatCache x = v.fatCache x
  content : ∀ d x, v.geom.Index d → v.fatCache d ≠ free → x < v.bytesPerCluster → d ≠ inode.dirCluster ∨
    x < inode.entryOffset + 22 ∨ (inode.entryOffset + 26 ≤ x ∧ x < inode.entryOffset + 28) ∨
    inode.entryOffset + 32 ≤ x → w.content d x = v.content d x

theorem write_stored (hs : v.geom.Sound) (hlay : Layout v) (h0 : inode.firstCluster = 0)
    (hdir : v.geom.Index inode.dirCluster) (hpos : 0 < size) (hsize : size < 2 ^ 32) (hle : size ≤ v.bytesPerCluster)
    (hw : v.write t inode 0 buf size = .ok (w, inode', some n)) : Stored v w.sync inode := by
  have hch : v.Chain inode.firstCluster [] :=
    ⟨⟨0, h0, by decide⟩, fun x hx => absurd hx not_mem_nil, fun x hx => absurd hx not_mem_nil, fun _ => h0⟩
  obtain ⟨s, e, hcol, -, hino, hvol⟩ := write_cases hs hch (Nat.zero_le _) hpos hsize hw
  have hdiv : (0 + size - 1) / v.bytesPerCluster = 0 := Nat.div_eq_of_lt (by omega)
  rw [hdiv, Nat.zero_div] at hcol
  -- one cluster is needed, and the file has none
  obtain ⟨z, hf⟩ : ∃ z, First v inode [] 0 s z := by
    rcases hcol with ⟨h, -⟩ | ⟨-, h⟩ | ⟨h, -⟩
    · exact absurd h (by simp)
    · exact h
    · exact absurd h (by simp)
  have hg := hf.grown.geom
  have hcl : s.clusters = [z] := by rw [hf.clusters, drop_nil, nil_append]
  have hput := writeData_put buf size s.clusters s.vol (0 % v.bytesPerCluster) 0 (by rwa [hg])
    (by rw [hcl]; exact nodup_singleton z)
    (fun x hx => by rw [hg]; rw [hcl, mem_singleton] at hx; rw [hx]; exact hf.grown.index)
    (by exact (by rw [hg]; exact hs : s.vol.geom.Sound).bytes_pos) (Nat.zero_le _)
  rw [hcl] at hput hvol
  generalize writeData buf size [z] s.vol (0 % v.bytesPerCluster) 0 = r at hput hvol
  have hgr : r.1.geom = v.geom := hput.geom.trans hg
  have hsr : r.1.geom.Sound := by rwa [hgr]
  have hbr := bytes_congr hgr
  have hbs := bytes_congr hg
  have hplace : inode'.dirCluster = inode.dirCluster ∧ inode'.entryOffset = inode.entryOffset := by
    rw [hino, hf.grown.inode]
    exact ⟨rfl, rfl⟩
  have hgw : w.geom = v.geom := by rcases hvol with rfl | rfl <;> simp [hgr]
  have hcw : w.fatCache = s.vol.fatCache := by rcases hvol with rfl | rfl <;> simp [hput.cache]
  have hz : ∀ x, v.fatCache x ≠ free → x ≠ z := fun x hx hc => hx (hc ▸ hf.wasFree)
  refine ⟨by rw [geom_sync, hgw], fun x hx => ?_, fun d x hd hused hx hap => ?_⟩
  · rw [fatCache_sync, hcw, hf.cache x not_mem_nil (hz x hx)]
  have hlw := hlay.congr hgw
  have hold : r.1.content d x = v.content d x := by
    rw [hput.filled.rest d x (fun h => hz d hused (mem_singleton.1 h)) (by rwa [hg]) (by rwa [hbs])]
    unfold content
    rw [hf.grown.dev, hg]
  rw [content_sync (by rwa [hgw]) hlw, ← hold]
  rcases hvol with rfl | rfl
  · rfl
  · refine content_growEntry_apart hsr (by rwa [hgr, hplace.1]) (by rwa [hgr])
      (by rwa [hbr]) ?_
    rwa [hplace.1, hplace.2]

theorem Stored.slot (hst : Stored v w inode) {c m o : Nat} (hs : v.geom.Sound) (hch : v.Chain c l)
    (hn : n < l.length * v.slotCount) (hcl : inode.dirCluster = l.getD (n / v.slotCount) 0)
    (hoff : inode.entryOffset = 32 * (n % v.slotCount)) (hm : m < l.length * v.slotCount) (ho : o < 32)
    (hap : m ≠ n ∨ o < 22 ∨ (26 ≤ o ∧ o < 28)) : w.slot l m o = v.slot l m o := by
  have hpos := slotCount_pos hs
  have hbytes := slotCount_bytes hs
  have hmk := div_lt_of_lt hm
  have hnk := div_lt_of_lt hn
  have hmm := mod_lt m hpos
  have hmd := div_add_mod' m v.slotCount
  have hnd := div_add_mod' n v.slotCount
  unfold Fat32.slot
  rw [slotCount_geom hst.geom]
  refine hst.content _ _ (hch.index _ (getD_mem hmk)) (hch.used _ (getD_mem hmk)) (by omega) ?_
  by_cases hd : l.getD (m / v.slotCount) 0 = inode.dirCluster
  · right
    rw [hcl, getD_eq_getElem _ _ hmk, getD_eq_getElem _ _ hnk, hch.nodup.getElem_inj_iff] at hd
    rw [hd] at hmd
    omega
  · exact .inl hd

theorem Stored.chain (hst : Stored v w inode) {c : Nat} (hch : v.Chain c l) : w.Chain c l :=
  hch.congr hst.geom (fun x hx => hst.cache x (hch.used x hx))

theorem nameToEntry_first {base ext : Name} (h : ShortForm base ext) (hascii : ∀ b ∈ base, b.toNat < 128) :
    (nameToEntry (joinName base ext)).getD 0 0#8 ≠ 0#8 ∧ (nameToEntry (joinName base ext)).getD 0 0#8 ≠ deleted := by
  rw [nameToEntry_join h]
  obtain ⟨b, bs, rfl⟩ : ∃ b bs, base = b :: bs := by
    cases base with
    | nil => exact absurd h.baseLength.1 (by simp)
    | cons b bs => exact ⟨b, bs, rfl⟩
  have hb := hascii b (.head _)
  refine ⟨upper_ne_zero (h.basePlain b (.head _)).2.2.1, fun hc => ?_⟩
  have hc : (upper b).toNat = 0xE5 := congrArg BitVec.toNat hc
  unfold upper at hc
  split at hc
  · rename_i hl
    have h1 := hl.1
    rw [BitVec.le_def] at h1
    simp only [BitVec.toNat_sub, BitVec.toNat_ofNat] at h1 hc
    omega
  · omega

theorem entCluster_stored {c : Nat} (dir : Inode) (hs : v.geom.Sound) (hst : Stored w w' inode) (hg : w.geom = v.geom)
    (hch : w.Chain c l') (hn : n < l'.length * v.slotCount)
    (hcl : inode.dirCluster = l'.getD (n / v.slotCount) 0) (hoff : inode.entryOffset = 32 * (n % v.slotCount))
    (hnew : ∀ o, o < 32 → w.slot l' n o = placed t old name mode (n % v.slotCount) 0 (32 * (n % v.slotCount) + o))
    (hf : lfnEntries name = 0) (hmode : mode ≠ ftDir) : (w'.inodeOf dir l' n).firstCluster = 0 := by
  have hsc := slotCount_geom hg
  have hbyte : ∀ o, o < 22 ∨ (26 ≤ o ∧ o < 28) → w'.slot l' n o =
      placed t old name mode (n % v.slotCount) 0 (32 * (n % v.slotCount) + o) := fun o ho => by
    rw [← hnew o (by omega)]
    rw [← hsc] at hn hcl hoff
    exact hst.slot (by rwa [hg]) hch hn hcl hoff hn (by omega) (.inr ho)
  have hload : ∀ a, a = 20 ∨ a = 26 → load (w'.slot l' n) (0 + a) 2 =
      load (placed t old name mode (n % v.slotCount) 0) (32 * (n % v.slotCount) + a) 2 := fun a ha => by
    refine load_congr (fun i hi => ?_)
    rw [hbyte _ (by omega), zero_add, add_assoc]
  have hzero : entCluster (placed t old name mode (n % v.slotCount) 0) (32 * (n % v.slotCount)) = 0 := by
    have h := @entCluster_placed name mode (n % v.slotCount) t old 0 (by decide)
    rwa [hf, if_neg hmode] at h
  have hshift : (w'.inodeOf dir l' n).firstCluster = entCluster (w'.slot l' n) 0 := (entCluster_shift _ _).symm
  rw [hshift]
  refine Eq.trans ?_ hzero
  unfold entCluster
  rw [hload 20 (.inl rfl), hload 26 (.inr rfl)]

/-- **A new file's data is not found again**: the entry in the directory has no first cluster. -/
theorem not_persisted {base ext : Name} (h : DirOk v dir l) (hlay : Layout v) (hform : ShortForm base ext)
    (hascii : ∀ b ∈ base, b.toNat < 128) (hmode : mode ≠ ftDir)
    (hc : create t v dir (joinName base ext) mode = .ok (w, dir', some inode)) (hpos : 0 < size)
    (hsize : size < 4294967296) (hle : size ≤ v.bytesPerCluster)
    (hw : w.write t' inode 0 buf size = .ok (w', inode', some size)) :
    ¬ Persisted w'.sync dir (joinName base ext) buf size := by
  have hround := nameFromEntry_join hform
  obtain ⟨hz, hdel⟩ := nameToEntry_first hform hascii
  have hf := lfnEntries_of_round hround
  generalize joinName base ext = name at hc hround hf hz hdel ⊢
  obtain ⟨rfl, hlookup, u, l', n, old, hp, hat⟩ := create_cases h hc
  have hb := hp.base h
  have hk := div_lt_of_lt hb.lt
  have hsu : u.geom.Sound := by rw [hb.geom]; exact h.sound
  have hmem := getD_mem hk
  obtain ⟨hcr, rfl⟩ := createAt_file hsu (hb.chain.index _ hmem) hmode hat
  have hg : w.geom = v.geom := hcr.geom.trans hb.geom
  have hsc := slotCount_geom hg
  have hch := hcr.chain hb.chain
  have hlen : name.length ≤ 255 := by
    have := nameFromEntry_length name
    rw [hround] at this
    omega
  have hst : Stored w w'.sync (newInode dir' name mode (l'.getD (n / v.slotCount) 0) (n % v.slotCount) n 0) := by
    refine write_stored (by rw [hg]; exact h.sound) ?_ (if_neg hmode) ?_ hpos hsize ?_ hw
    · exact hlay.congr hg
    · exact (by rw [hg, ← hb.geom]; exact hb.chain.index _ hmem)
    · have : w.bytesPerCluster = v.bytesPerCluster := congrArg Geom.bytesPerCluster hg
      omega
  have hoff : 32 * (n % v.slotCount + lfnEntries name) = 32 * (n % v.slotCount) := by rw [hf, add_zero]
  have hgs : w'.sync.geom = v.geom := hst.geom.trans hg
  have hkept : ∀ m o, m < l'.length * v.slotCount → o < 32 → m ≠ n ∨ o < 22 → w'.sync.slot l' m o = w.slot l' m o := by
    intro m o hm ho hap
    refine hst.slot (by rw [hg]; exact h.sound) hch ?_ ?_ ?_ ?_ ho (hap.imp_right .inl)
    · rw [hsc]; exact hb.lt
    · rw [hsc]; rfl
    · rw [hsc]; exact hoff
    · rw [hsc]; exact hm
  have hhead : ∀ m, m < l'.length * v.slotCount → SameHead (w'.sync.slot l' m) (w.slot l' m) :=
    fun m hm o ho => hkept m o hm (by omega) (.inr (by omega))
  rintro ⟨i, hi, hsz, b, hread, -⟩
  by_cases hon : v.geom.OnDevice (l'.getD (n / v.slotCount) 0)
  · have hentry := newEntry_of h hlen hp hon hcr
    rw [hf] at hentry
    have hfound := ((hentry.foundAt_iff hz (hp.absent h hlookup hon)).2 ⟨hround, hdel⟩).of_head
      (fun j hj => (hhead j hj).symm)
    rw [← slotCount_geom hgs] at hfound
    rw [lookup_found (hp.dirOk h hon hgs (hst.chain hch)) hfound] at hi
    cases hi
    have hnew : ∀ o, o < 32 →
        w.slot l' n o = placed t old name mode (n % v.slotCount) 0 (32 * (n % v.slotCount) + o) := fun o ho => by
      rw [hcr.slots h.sound hb hon hb.lt ho, if_pos (by omega), Nat.sub_self, Nat.add_zero]
    have h0 := entCluster_stored dir' h.sound hst hg hch hb.lt rfl hoff hnew hf hmode
    have hnone := read_unallocated w'.sync (lt_of_lt_of_eq hpos hsz.symm) h0 blank size
    rw [hnone] at hread
    cases hread
  · have hold : ∀ m, m < l.length * v.slotCount → SameHead (w'.sync.slot l' m) (v.slot l m) := fun m hm o ho => by
      have hlt : m < l'.length * v.slotCount := hm.trans_le (mul_le_mul_right _ hb.isPrefix.length_le)
      rw [hhead m hlt o ho, hcr.slots_off h.sound hb hon hm (by omega)]
    rw [hp.lookup_off h hon hlookup hgs (hst.chain hch) hold] at hi
    cases hi

end

theorem smallVol_layout : Layout smallVol := ⟨by decide, by decide⟩

theorem two_bytes_not_persisted : ∃ w dir' inode w' inode',
    create noTime smallVol smallRoot (joinName [0x61#8] [0x62#8]) ftRegFile = .ok (w, dir', some inode) ∧
    w.write noTime inode 0 blank 2 = .ok (w', inode', some 2) ∧
    ¬ Persisted w'.sync smallRoot (joinName [0x61#8] [0x62#8]) blank 2 :=
  ⟨_, _, _, _, _, rfl, rfl, @not_persisted noTime noTime _ _ _ _ _ _ _ _ _ _ _ _ _ smallRoot_ok smallVol_layout
    ⟨by decide, by decide, fun b hb => by rw [mem_singleton.1 hb]; unfold Plain; decide,
      fun b hb => by rw [mem_singleton.1 hb]; unfold Plain; decide⟩
    (fun b hb => by rw [mem_singleton.1 hb]; decide) (by decide : ftRegFile ≠ ftDir) rfl (by decide)
    (by decide) (by decide) rfl⟩

/-- The file `a` is created, gets one byte, and is found again with a size of one and nothing to read. -/
theorem one_byte_lost : ∃ w dir' inode w' inode',
    create noTime smallVol smallRoot [0x61#8] ftRegFile = .ok (w, dir', some inode) ∧
    w.write noTime inode 0 blank 1 = .ok (w', inode', some 1) ∧
    ∃ i, w'.sync.lookup smallRoot [0x61#8] = .ok (some i) ∧ i.size = 1 ∧ w'.sync.read i 0 blank 1 = .ok (blank, none) ∧
      ¬ Persisted w'.sync smallRoot [0x61#8] blank 1 := by
  refine ⟨_, _, _, _, _, rfl, rfl, _, rfl, by decide, rfl, ?_⟩
  rintro ⟨i, hi, -, m, hread, -⟩
  cases hi
  cases hread

end Fat32

end OS64
