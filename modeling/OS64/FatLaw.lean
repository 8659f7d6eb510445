import OS64.FatWrite
/-!
# FatLaw — reading back what `fat32_write` has written

The law of files: the bytes written are read back, the others are as they were, the size is the larger of the old one
and the end of the write.  It holds when the write needs at most one new cluster, that cluster follows one that is
written too (or is the first of an empty file), and it lies on the device (`writeLaw_iff`).
-/
namespace OS64

open List Nat

namespace Fat32

/-- A regular file: its clusters are on the device, they hold its size, and its directory entry lies elsewhere. -/
structure FileOk (v : Fat32) (inode : Inode) (l : List Nat) : Prop where
  mode : inode.mode = ftRegFile
  chain : v.Chain inode.firstCluster l
  onDevice : ∀ x ∈ l, v.geom.OnDevice x
  covers : inode.size ≤ l.length * v.bytesPerCluster
  dirIndex : v.geom.Index inode.dirCluster
  dirUsed : v.fatCache inode.dirCluster ≠ free
  dirApart : inode.dirCluster ∉ l

def ReadsByte (v : Fat32) (inode : Inode) (p : Nat) (b : BitVec 8) : Prop :=
  ∃ m, v.read inode p blank 1 = .ok (m, some 1) ∧ m 0 = b

structure WriteLaw (v : Fat32) (inode : Inode) (offset : Nat) (buf : Mem) (size : Nat) (w : Fat32) (inode' : Inode) :
    Prop where
  data : ∃ m, w.read inode' offset blank size = .ok (m, some size) ∧ ∀ i, i < size → m i = buf i
  rest : ∀ p b, p < inode.size → p < offset ∨ offset + size ≤ p → ReadsByte v inode p b → ReadsByte w inode' p b
  size : inode'.size = max inode.size (offset + size)

/-- The chain of `n` clusters has the clusters to write, or lacks one that follows a cluster to write or starts the
file, and the cluster the allocator gives lies on the device. -/
def WriteFits (v : Fat32) (n offset size : Nat) : Prop :=
  (offset + size - 1) / v.bytesPerCluster < n ∨
  ((offset + size - 1) / v.bytesPerCluster = n ∧ (offset / v.bytesPerCluster < n ∨ n = 0) ∧
    v.geom.OnDevice v.allocCluster.2)

section
variable {v w : Fat32} {inode inode' : Inode} {l : List Nat} {offset size n : Nat} {buf : Mem} {t : Rtc}

variable {j k p : Nat} {s : Collect} {l' : List Nat}

theorem Chain.bytes_le (hs : v.geom.Sound) {c : Nat} (h : v.Chain c l) : l.length * v.bytesPerCluster ≤ 2 ^ 41 := by
  have hle : l.length * v.sectorsPerCluster ≤ v.fatEntries * v.sectorsPerCluster := mul_le_mul_right _ h.length_le
  have hsec : v.dataStart + v.fatEntries * v.sectorsPerCluster ≤ 2 ^ 32 := hs.sectors
  have hb : v.bytesPerCluster = 512 * v.sectorsPerCluster := hs.bytes
  rw [hb, mul_left_comm]
  omega

theorem FileOk.first_le (hf : FileOk v inode l) (hoff : offset ≤ inode.size) : offset / v.bytesPerCluster ≤ l.length :=
  Nat.div_le_of_le_mul (Nat.mul_comm _ _ ▸ hoff.trans hf.covers)

section
variable (hs : v.geom.Sound) (hch : v.Chain inode.firstCluster l) (hoff : offset ≤ l.length * v.bytesPerCluster)
  (hpos : 0 < size) (hsize : size < 4294967296) (hw : v.write t inode offset buf size = .ok (w, inode', some n))
include hs hch hoff hpos hsize hw

theorem write_loop : ∃ s c, writeSkip (offset / v.bytesPerCluster) v inode inode.firstCluster = .ok (v, inode, some c) ∧
      forLoop (fun _ s => collectTurn s)
        ((offset + size - 1) / v.bytesPerCluster - offset / v.bytesPerCluster + 1) 0 ⟨v, inode, [], c⟩ = (s, none) ∧
      n = (writeData buf size s.clusters s.vol (offset % v.bytesPerCluster) 0).2 ∧
      inode' = { s.inode with size := max s.inode.size (u64 (offset + n)) } ∧
      w = if s.inode.size < u64 (offset + n)
        then growEntry t (writeData buf size s.clusters s.vol (offset % v.bytesPerCluster) 0).1 inode'
        else (writeData buf size s.clusters s.vol (offset % v.bytesPerCluster) 0).1 := by
  have hb : v.bytesPerCluster = 512 * v.sectorsPerCluster := hs.bytes
  have hspc : 0 < v.sectorsPerCluster := hs.cluster
  have hbytes := hch.bytes_le hs
  have hlen := hch.length_le
  have hmost := hs.sized.entries_le
  rw [geom_fatEntries] at hmost
  have hk : offset / v.bytesPerCluster ≤ l.length := Nat.div_le_of_le_mul (Nat.mul_comm _ _ ▸ hoff)
  obtain ⟨hfirst, hend, hneed⟩ := Clusters.range_words offset (B := v.bytesPerCluster) (by omega) hpos hsize (by omega)
    (by omega)
  obtain ⟨e, he⟩ := hch.trail
  obtain ⟨c, hskip, -⟩ := writeSkip_trail inode he hk
  unfold write at hw
  simp only [if_neg (Nat.pos_iff_ne_zero.1 hpos), hfirst, hend, hskip, Res.bind, hneed, Res.ok.injEq] at hw
  generalize (offset + size - 1) / v.bytesPerCluster - offset / v.bytesPerCluster + 1 = j at hw ⊢
  unfold writeFrom at hw
  revert hw
  rcases hloop : forLoop (fun _ s => collectTurn s) j 0 ⟨v, inode, [], c⟩ with ⟨s, _ | ⟨⟩⟩
  · intro hw
    refine ⟨s, c, hskip, hloop, ?_⟩
    simp only at hw
    split at hw
    · rename_i hlt
      obtain ⟨rfl, rfl, rfl⟩ := hw
      refine ⟨rfl, ?_, (if_pos hlt).symm⟩
      rw [Nat.max_eq_right hlt.le]
    · rename_i hge
      obtain ⟨rfl, rfl, rfl⟩ := hw
      refine ⟨rfl, ?_, (if_neg hge).symm⟩
      rw [Nat.max_eq_left (by omega)]
  · intro hw
    simp only [Prod.mk.injEq] at hw
    exact absurd hw.2.2 (by simp)

theorem write_cases : ∃ s e, Collected v inode l (offset / v.bytesPerCluster) e
        ((offset + size - 1) / v.bytesPerCluster - offset / v.bytesPerCluster + 1) s ∧
      n = (writeData buf size s.clusters s.vol (offset % v.bytesPerCluster) 0).2 ∧
      inode' = { s.inode with size := max s.inode.size (u64 (offset + n)) } ∧
      (w = (writeData buf size s.clusters s.vol (offset % v.bytesPerCluster) 0).1 ∨
        w = growEntry t (writeData buf size s.clusters s.vol (offset % v.bytesPerCluster) 0).1 inode') := by
  have hk : offset / v.bytesPerCluster ≤ l.length := Nat.div_le_of_le_mul (Nat.mul_comm _ _ ▸ hoff)
  obtain ⟨s, c, hskip, hloop, hn, hino, hvol⟩ := write_loop hs hch hoff hpos hsize hw
  obtain ⟨e, he⟩ := hch.trail
  obtain ⟨c', hskip', htrail⟩ := writeSkip_trail inode he hk
  obtain rfl : c' = c := by
    rw [hskip'] at hskip
    simpa using hskip
  have hcol := collect_cases hs hch hk htrail ((offset + size - 1) / v.bytesPerCluster - offset / v.bytesPerCluster + 1)
  rw [hloop] at hcol
  refine ⟨s, e, hcol.1 rfl, hn, hino, ?_⟩
  rw [hvol]
  split
  · exact .inr rfl
  · exact .inl rfl

end

/-- The clusters to write are collected: they are `j` clusters of the file's chain `l'` from cluster `k` on. -/
structure Ready (v : Fat32) (inode : Inode) (l' : List Nat) (k j : Nat) (s : Collect) : Prop where
  geom : s.vol.geom = v.geom
  dev : s.vol.dev = v.dev
  inode : s.inode = { inode with firstCluster := s.inode.firstCluster }
  chain : s.vol.Chain s.inode.firstCluster l'
  clusters : s.clusters = (l'.drop k).take j
  length : k + j ≤ l'.length

theorem Walked.ready {e : Nat} (hch : v.Chain inode.firstCluster l) (h : Walked v inode l k e j s)
    (hj : k + j ≤ l.length) : Ready v inode l k j s := by
  obtain ⟨hvol, hino, hcl, -⟩ := h
  exact ⟨by rw [hvol], by rw [hvol], by rw [hino], by rwa [hvol, hino], hcl, hj⟩

theorem First.ready {z : Nat} (h : First v inode l k s z) (ha : Attached k l)
    (hj : k + j = l.length + 1) (hk : k ≤ l.length) : Ready v inode (l ++ [z]) k j s where
  geom := h.grown.geom
  dev := h.grown.dev
  inode := h.grown.inode
  chain := by
    have := h.grown.chain ha
    rwa [append_nil] at this
  clusters := by
    rw [h.clusters, ← drop_append_of_le_length hk, take_of_length_le]
    rw [length_drop, length_append, length_singleton]
    omega
  length := by
    rw [length_append, length_singleton]
    omega

theorem content_of_dev (hg : s.vol.geom = v.geom) (hd : s.vol.dev = v.dev) : s.vol.content = v.content := by
  funext d x
  unfold content
  rw [hg, hd]

/-- **The file after the data loop**: the buffer inside the window, the old bytes elsewhere. -/
theorem fileByte_ready (hs : v.geom.Sound)
    (hk : k = offset / v.bytesPerCluster) (hj : k + j = (offset + size - 1) / v.bytesPerCluster + 1) (hpos : 0 < size)
    (h : Ready v inode l' k j s) (hp : p < l'.length * v.bytesPerCluster)
    (hon : v.geom.OnDevice (l'.getD (p / v.bytesPerCluster) 0)) :
    (writeData buf size s.clusters s.vol (offset % v.bytesPerCluster) 0).1.fileByte l' p =
      if offset ≤ p ∧ p < offset + size then buf (p - offset) else v.fileByte l' p := by
  have hb : 0 < v.bytesPerCluster := hs.bytes_pos
  have hbpc := bytes_congr h.geom
  have hnd : s.clusters.Nodup := by
    rw [h.clusters]
    exact (h.chain.nodup.drop).take
  have hput := writeData_put buf size s.clusters s.vol (offset % v.bytesPerCluster) 0 (by rwa [h.geom]) hnd
    (fun x hx => h.chain.index x (mem_of_mem_drop (mem_of_mem_take (h.clusters ▸ hx))))
    (by rw [hbpc]; exact mod_lt _ hb) (zero_le _)
  generalize writeData buf size s.clusters s.vol (offset % v.bytesPerCluster) 0 = r at hput ⊢
  have hrb : r.1.bytesPerCluster = v.bytesPerCluster := (congrArg Geom.bytesPerCluster hput.geom).trans hbpc
  have hfilled := hput.filled
  rw [hbpc, h.geom, content_of_dev h.geom h.dev] at hfilled
  have hq := div_lt_of_lt hp
  have hidx := h.chain.index _ (getD_mem hq)
  rw [h.geom] at hidx
  have hbyte := hfilled.window hb hpos hk hj h.clusters h.length h.chain.nodup hq (mod_lt p hb) hon hidx
  rw [div_add_mod' p v.bytesPerCluster] at hbyte
  unfold fileByte
  rwa [hrb]

structure Done (v : Fat32) (inode : Inode) (offset : Nat) (buf : Mem) (size : Nat) (s : Collect) (w : Fat32)
    (inode' : Inode) : Prop where
  geom : w.geom = s.vol.geom
  cache : w.fatCache = s.vol.fatCache
  content : ∀ d x, v.geom.Index d → d ≠ inode.dirCluster → x < v.bytesPerCluster →
    w.content d x = (writeData buf size s.clusters s.vol (offset % v.bytesPerCluster) 0).1.content d x
  inode : inode' = { s.inode with size := max s.inode.size (offset + size) }

theorem Done.chain (hd : Done v inode offset buf size s w inode') (hch : s.vol.Chain s.inode.firstCluster l') :
    w.Chain inode'.firstCluster l' := by
  have hfirst : inode'.firstCluster = s.inode.firstCluster := by rw [hd.inode]
  rw [hfirst]
  exact hch.congr hd.geom (fun x _ => by rw [hd.cache])

theorem write_done (hs : v.geom.Sound) (hf : FileOk v inode l) (hoff : offset ≤ inode.size) (hpos : 0 < size)
    (hsize : size < 2 ^ 32) (hw : v.write t inode offset buf size = .ok (w, inode', some size)) :
    ∃ s e, Collected v inode l (offset / v.bytesPerCluster) e
        ((offset + size - 1) / v.bytesPerCluster - offset / v.bytesPerCluster + 1) s ∧
      (s.vol.geom = v.geom → s.inode = { inode with firstCluster := s.inode.firstCluster } →
        Done v inode offset buf size s w inode') := by
  have hle : offset ≤ l.length * v.bytesPerCluster := hoff.trans hf.covers
  have hbytes := hf.chain.bytes_le hs
  obtain ⟨s, e, hcol, -, hino, hor⟩ := write_cases hs hf.chain hle hpos hsize hw
  refine ⟨s, e, hcol, fun hsg hsi => ?_⟩
  have hu : u64 (offset + size) = offset + size := u64_of_lt (by omega)
  rw [hu] at hino
  obtain ⟨hg, hc⟩ := writeData_frame buf size s.clusters s.vol (offset % v.bytesPerCluster) 0
  generalize hr : writeData buf size s.clusters s.vol (offset % v.bytesPerCluster) 0 = r at hg hc hor
  rcases hor with rfl | rfl
  · exact ⟨hg, hc, fun _ _ _ _ _ => by rw [hr], hino⟩
  refine ⟨by simp [hg], by simp [hc], fun d x hd hne hx => ?_, hino⟩
  rw [hr]
  have hrg : r.1.geom = v.geom := hg.trans hsg
  have hdir : inode'.dirCluster = inode.dirCluster := by rw [hino, hsi]
  have hrb := bytes_congr hrg
  exact content_growEntry (by rwa [hrg]) (by rw [hrg, hdir]; exact hf.dirIndex) (by rwa [hrg])
    (by rwa [hdir]) (by rwa [hrb])

section
variable (hs : w.geom.Sound) (hch : w.Chain inode'.firstCluster l')
include hs hch

theorem not_data_of_short
    (hlt : offset < inode'.size) (hk : offset / w.bytesPerCluster < 2 ^ 32) (hsize : size < 2 ^ 32)
    (hsum : offset + size < 2 ^ 64) (hpos : 0 < size) (hshort : l'.length * w.bytesPerCluster < offset + size) :
    ¬ ∃ m, w.read inode' offset blank size = .ok (m, some size) ∧ ∀ i, i < size → m i = buf i := by
  rintro ⟨m, hr, -⟩
  by_cases hkl : l'.length ≤ offset / w.bytesPerCluster
  · rw [read_behind hch hlt hkl hk] at hr
    simp at hr
  rcases read_cases hs hch blank hlt (not_le.1 hkl) hsize hsum rfl with ⟨m', h, -⟩ | ⟨m', k, h, -⟩
  · rw [h] at hr
    simp only [Res.ok.injEq, Prod.mk.injEq, Option.some.injEq] at hr
    omega
  · rw [h] at hr
    simp at hr

theorem not_data_of_offDevice
    (hfit : offset + size ≤ inode'.size) (hk : k < l'.length) (hle : offset / w.bytesPerCluster ≤ k)
    (hlt : k * w.bytesPerCluster < offset + size) (hsize : size < 2 ^ 32)
    (hsum : offset + size < 2 ^ 64) (hpos : 0 < size) (hoff : ¬ w.geom.OnDevice (l'.getD k 0)) :
    ¬ ∃ m, w.read inode' offset blank size = .ok (m, some size) ∧ ∀ i, i < size → m i = buf i := by
  rintro ⟨m, hr, -⟩
  rcases read_cases hs hch blank (by omega) (by omega) hsize hsum rfl with ⟨m', -, -, -, hon⟩ | ⟨m', j, h, -⟩
  · exact hoff (hon k (by omega) hk hle (by omega))
  · rw [h] at hr
    simp at hr

theorem readsByte_iff
    (hon : ∀ x ∈ l', w.geom.OnDevice x) (hp : p < inode'.size) (hcov : p < l'.length * w.bytesPerCluster)
    {b : BitVec 8} : ReadsByte w inode' p b ↔ w.fileByte l' p = b := by
  have hbytes := hch.bytes_le hs
  have hq := div_lt_of_lt hcov
  have hone : min (min 1 (inode'.size - p)) (l'.length * w.bytesPerCluster - p) = 1 := by omega
  rcases read_cases hs hch blank hp hq (by decide : 1 < 2 ^ 32) (by omega) rfl with ⟨m, h, hm, -⟩ |
    ⟨m, k, -, hk, -, hoff⟩
  · rw [hone] at h hm
    have hm0 := hm 0 (by decide)
    constructor
    · rintro ⟨m', h', rfl⟩
      rw [h] at h'
      simp only [Res.ok.injEq, Prod.mk.injEq, and_true] at h'
      rw [← h', hm0]
      rfl
    · rintro rfl
      exact ⟨m, h, hm0⟩
  · exact absurd (hon _ (getD_mem hk)) hoff

end

/-- **The file after a write**, at every place of a chain that reaches its end: the buffer inside the window, the old
bytes elsewhere. -/
theorem Ready.fileByte (hs : v.geom.Sound) (hpos : 0 < size)
    (hj : offset / v.bytesPerCluster + j = (offset + size - 1) / v.bytesPerCluster + 1)
    (h : Ready v inode l' (offset / v.bytesPerCluster) j s) (hd : Done v inode offset buf size s w inode')
    (hdir : inode.dirCluster ∉ l') (hon : ∀ x ∈ l', v.geom.OnDevice x) (hp : p < l'.length * v.bytesPerCluster) :
    w.fileByte l' p = if offset ≤ p ∧ p < offset + size then buf (p - offset) else v.fileByte l' p := by
  have hb : 0 < v.bytesPerCluster := hs.bytes_pos
  have hq : l'.getD (p / v.bytesPerCluster) 0 ∈ l' := getD_div_mem hp
  rw [← fileByte_ready hs rfl hj hpos h hp (hon _ hq)]
  have hwb := bytes_congr (hd.geom.trans h.geom)
  have hsb : (writeData buf size s.clusters s.vol (offset % v.bytesPerCluster) 0).1.bytesPerCluster =
      v.bytesPerCluster := by
    obtain ⟨hg, -⟩ := writeData_frame buf size s.clusters s.vol (offset % v.bytesPerCluster) 0
    exact congrArg Geom.bytesPerCluster (hg.trans h.geom)
  unfold Fat32.fileByte
  rw [hwb, hsb]
  refine hd.content _ _ ?_ (fun hc => hdir (hc ▸ hq)) (mod_lt _ hb)
  rw [← h.geom]
  exact h.chain.index _ hq

/-- **The law holds when the chain reaches the end of the write and lies on the device.** -/
theorem Ready.law (hs : v.geom.Sound) (hf : FileOk v inode l)
    (hoff : offset ≤ inode.size) (hpos : 0 < size) (hsize : size < 2 ^ 32)
    (hj : offset / v.bytesPerCluster + j = (offset + size - 1) / v.bytesPerCluster + 1)
    (h : Ready v inode l' (offset / v.bytesPerCluster) j s) (hd : Done v inode offset buf size s w inode')
    (hpre : l <+: l') (hdir : inode.dirCluster ∉ l') (hon : ∀ x ∈ l', v.geom.OnDevice x) :
    WriteLaw v inode offset buf size w inode' := by
  have hb : 0 < v.bytesPerCluster := hs.bytes_pos
  have hwg : w.geom = v.geom := hd.geom.trans h.geom
  have hsw : w.geom.Sound := by rwa [hwg]
  have hwb := bytes_congr hwg
  have hchw := hd.chain h.chain
  have honw : ∀ x ∈ l', w.geom.OnDevice x := fun x hx => by rw [hwg]; exact hon x hx
  have hsz : inode'.size = max inode.size (offset + size) := by rw [hd.inode, h.inode]
  have hbytes := hchw.bytes_le hsw
  have hend : offset + size ≤ l'.length * v.bytesPerCluster := by
    have hlt : (offset + size - 1) / v.bytesPerCluster < l'.length := by
      have := h.length
      omega
    have := (div_lt_iff_lt_mul hb).1 hlt
    omega
  refine ⟨?_, ?_, hsz⟩
  · rcases read_cases hsw hchw blank (show offset < inode'.size by omega)
      (by rw [hwb]; exact (div_lt_iff_lt_mul hb).2 (by omega)) hsize (by rw [hwb] at hbytes; omega) rfl with
      ⟨m, hr, hm, -⟩ | ⟨m, k, -, hk, -, hno⟩
    · have hall : min (min size (inode'.size - offset)) (l'.length * w.bytesPerCluster - offset) = size := by
        rw [hwb]
        omega
      rw [hall] at hr hm
      refine ⟨m, hr, fun i hi => ?_⟩
      rw [hm i hi, h.fileByte hs hpos hj hd hdir hon (by omega), if_pos (by omega), Nat.add_sub_cancel_left]
    · exact absurd (honw _ (getD_mem hk)) hno
  · intro p b hp hout hread
    have hcov : p < l.length * v.bytesPerCluster := hp.trans_le hf.covers
    have hcov' : p < l'.length * v.bytesPerCluster := hcov.trans_le (mul_le_mul_right _ hpre.length_le)
    rw [readsByte_iff hs hf.chain hf.onDevice hp hcov] at hread
    rw [readsByte_iff hsw hchw honw (by omega) (by rwa [hwb]), h.fileByte hs hpos hj hd hdir hon hcov',
      if_neg (by omega), ← hread]
    unfold Fat32.fileByte
    have hql := div_lt_of_lt hcov
    obtain ⟨l'', rfl⟩ := hpre
    rw [getD_append _ _ _ _ hql]

theorem Grown.not_law {news : List Nat} {z b : Nat} (hs : v.geom.Sound) (hf : FileOk v inode l)
    (hoff : offset ≤ inode.size) (hpos : 0 < size) (hsize : size < 2 ^ 32)
    (hb : b + l.length = (offset + size - 1) / v.bytesPerCluster + 1)
    (h : Grown v inode l (offset / v.bytesPerCluster) b s news z) (hd : Done v inode offset buf size s w inode')
    (hbad : 1 < b ∨ ¬ Attached (offset / v.bytesPerCluster) l) : ¬ WriteLaw v inode offset buf size w inode' := by
  have hwg : w.geom = v.geom := hd.geom.trans h.geom
  have hsw : w.geom.Sound := by rwa [hwg]
  have hwb := bytes_congr hwg
  have hsz : inode'.size = max inode.size (offset + size) := by rw [hd.inode, h.inode]
  have hbytes := hf.chain.bytes_le hs
  have hcov := hf.covers
  have hmost := hs.sized.entries_le
  rw [geom_fatEntries] at hmost
  have hk : offset / v.bytesPerCluster < 2 ^ 32 := by
    have hlen := hf.chain.length_le
    have := hf.first_le hoff
    omega
  have hed := div_mul_le_self (offset + size - 1) v.bytesPerCluster
  intro hlaw
  have hshort : ∀ {l' : List Nat}, w.Chain inode'.firstCluster l' → l'.length < b + l.length → False := by
    intro l' hch hlen
    have hle : l'.length * v.bytesPerCluster ≤ (offset + size - 1) / v.bytesPerCluster * v.bytesPerCluster :=
      mul_le_mul_right _ (by omega)
    exact not_data_of_short hsw hch (by omega) (by rwa [hwb]) hsize (by omega) hpos (by rw [hwb]; omega)
      hlaw.data
  by_cases ha : Attached (offset / v.bytesPerCluster) l
  · have hlen := h.length
    refine hshort (hd.chain (h.chain ha)) ?_
    rw [length_append, length_append, length_singleton]
    rcases hbad with hbad | hbad
    · omega
    · exact absurd ha hbad
  · have hlen := h.length
    exact hshort (hd.chain (h.loose ha)) (by omega)

/-- **The law of files holds exactly for the writes that fit**: on a sound volume, for a file whose chain covers its
size and every write that reports all its bytes. -/
theorem writeLaw_iff (hs : v.geom.Sound) (hf : FileOk v inode l) (hoff : offset ≤ inode.size) (hpos : 0 < size)
    (hsize : size < 4294967296) (hw : v.write t inode offset buf size = .ok (w, inode', some size)) :
    WriteLaw v inode offset buf size w inode' ↔ WriteFits v l.length offset size := by
  have hk := hf.first_le hoff
  have hle : offset / v.bytesPerCluster ≤ (offset + size - 1) / v.bytesPerCluster := Nat.div_le_div_right (by omega)
  obtain ⟨s, e, hcol, hdone⟩ := write_done hs hf hoff hpos hsize hw
  rcases hcol with ⟨hin, hwalk⟩ | ⟨heq, z, hfirst⟩ | ⟨hbeyond, news, z, hgrown⟩
  · have hr := hwalk.ready hf.chain hin
    have hd := hdone hr.geom hr.inode
    exact iff_of_true (hr.law hs hf hoff hpos hsize (by omega) hd prefix_rfl hf.dirApart hf.onDevice) (.inl (by omega))
  · have hd := hdone hfirst.grown.geom hfirst.grown.inode
    have hz : v.allocCluster.2 = z := by rw [hfirst.alloc]
    by_cases ha : Attached (offset / v.bytesPerCluster) l
    · have hr := hfirst.ready ha heq hk
      by_cases hon : v.geom.OnDevice z
      · refine iff_of_true ?_ (.inr ⟨by omega, ha.imp_right (fun h => by rw [h]; rfl), by rwa [hz]⟩)
        refine hr.law hs hf hoff hpos hsize (by omega) hd (prefix_append l [z]) ?_ ?_
        · intro hmem
          rcases mem_append.1 hmem with hmem | hmem
          · exact hf.dirApart hmem
          · exact hf.dirUsed (mem_singleton.1 hmem ▸ hfirst.wasFree)
        intro x hx
        rcases mem_append.1 hx with hx | hx
        · exact hf.onDevice x hx
        · rwa [mem_singleton.1 hx]
      · refine iff_of_false (fun hlaw => ?_) ?_
        · have hwg : w.geom = v.geom := hd.geom.trans hr.geom
          have hwb := bytes_congr hwg
          have hch := hd.chain hr.chain
          have hed := div_mul_le_self (offset + size - 1) v.bytesPerCluster
          have hlast : (offset + size - 1) / v.bytesPerCluster = l.length := by omega
          rw [hlast] at hed
          have hbytes := hf.chain.bytes_le hs
          have hcov := hf.covers
          have hsz : inode'.size = max inode.size (offset + size) := hlaw.size
          refine not_data_of_offDevice (k := l.length) (by rwa [hwg]) hch (by omega) (by simp)
            (by rwa [hwb]) (by rw [hwb]; omega) hsize (by omega) hpos ?_ hlaw.data
          rwa [hwg, getD_append_right _ _ _ _ le_rfl, Nat.sub_self]
        · rintro (h | ⟨-, -, h⟩)
          · omega
          · exact hon (hz ▸ h)
    · refine iff_of_false (hfirst.grown.not_law hs hf hoff hpos hsize (by omega) hd (.inr ha)) ?_
      rintro (h | ⟨-, h, -⟩)
      · omega
      · exact ha (h.imp_right length_eq_zero_iff.1)
  · have hd := hdone hgrown.geom hgrown.inode
    refine iff_of_false (hgrown.not_law hs hf hoff hpos hsize (by omega) hd (.inl (by omega))) ?_
    rintro (h | ⟨h, -⟩) <;> omega

end

def noTime : Rtc := ⟨0, 0, 0, 0, 0, 0⟩

theorem smallFile_ok {size : Nat} (h : size ≤ 512) : FileOk smallVol (smallFile size) [3] where
  mode := rfl
  chain := smallVol_chain
  onDevice := by decide
  covers := by simpa [smallFile, smallVol] using h
  dirIndex := (by decide : smallVol.geom.Index 2)
  dirUsed := (by decide : smallVol.fatCache 2 ≠ free)
  dirApart := (by decide : 2 ∉ [3])

/-- A write that takes a second cluster. -/
theorem smallFile_law : ∃ w inode', smallVol.write noTime (smallFile 3) 1 (fun _ => 7#8) 600 =
    .ok (w, inode', some 600) ∧ WriteLaw smallVol (smallFile 3) 1 (fun _ => 7#8) 600 w inode' :=
  ⟨_, _, rfl, (writeLaw_iff (t := noTime) smallVol_sound (smallFile_ok (by decide)) (by decide) (by decide)
    (by decide) rfl).2 (.inr (by decide))⟩

/-- One byte appended to a file that fills its cluster: the write reports it, and the read fails. -/
theorem append_full_lost : ∃ w inode', smallVol.write noTime (smallFile 512) 512 blank 1 = .ok (w, inode', some 1) ∧
    ¬ WriteLaw smallVol (smallFile 512) 512 blank 1 w inode' := by
  refine ⟨_, _, rfl, fun h => ?_⟩
  obtain ⟨m, hr, -⟩ := h.data
  cases hr

end Fat32

end OS64
