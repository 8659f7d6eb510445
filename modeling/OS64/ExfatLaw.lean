import OS64.ExfatWrite
/-!
# ExfatLaw — reading back what `exfat_write` has written

The bytes written are read back and the others are as they were, unless the write starts just behind the clusters of a
non-empty file, or a new cluster lies behind the end of the device (`readBack_iff`).  Of such a cluster `exfat_read`
gives the bytes it has read before.
-/
namespace OS64

open List Nat

namespace Exfat

open Fat32 (Geom)

/-- A file: its clusters are on the device, they hold its size, and its directory entry lies elsewhere. -/
structure FileOk (v : Exfat) (inode : ExInode) (l : List Nat) : Prop where
  chain : v.Chain inode.firstCluster l
  onDevice : ∀ x ∈ l, v.geom.OnDevice x
  covers : inode.size ≤ l.length * v.bytesPerCluster
  dirIndex : v.geom.Index inode.dirCluster
  dirUsed : v.fatCache inode.dirCluster ≠ fatFree
  dirApart : inode.dirCluster ∉ l

/-- Byte `p` of the file reads as `b`, whatever the stack holds. -/
def ReadsByte (v : Exfat) (inode : ExInode) (p : Nat) (b : BitVec 8) : Prop :=
  ∀ stack, ∃ m, v.read stack inode p blank 1 = .ok (m, some 1) ∧ m 0 = b

structure WriteLaw (v : Exfat) (inode : ExInode) (offset : Nat) (buf : Mem) (size : Nat) (w : Exfat)
    (inode' : ExInode) : Prop where
  data : ∀ stack, ∃ m, w.read stack inode' offset blank size = .ok (m, some size) ∧ ∀ i, i < size → m i = buf i
  rest : ∀ p b, p < inode.size → p < offset ∨ offset + size ≤ p → ReadsByte v inode p b → ReadsByte w inode' p b

/-- Byte `x` of the `i`-th cluster of a write, once it is written. -/
def writtenByte (v : Exfat) (l : List Nat) (offset : Nat) (buf : Mem) (size i x : Nat) : BitVec 8 :=
  let place := (offset / v.bytesPerCluster + i) * v.bytesPerCluster + x
  if offset ≤ place ∧ place < offset + size then buf (place - offset)
  else v.content ((v.writeClusters l offset).getD i 0) x

/-- The file is empty or has the first cluster to write, and every byte is in the last cluster up to its own that lies
on the device. -/
def WriteFits (v : Exfat) (l : List Nat) (offset : Nat) (buf : Mem) (size : Nat) : Prop :=
  (offset / v.bytesPerCluster < l.length ∨ l = []) ∧
  ∀ p, offset ≤ p → p < offset + size →
    ∃ i, v.LastOn (v.writeClusters l offset) (p / v.bytesPerCluster - offset / v.bytesPerCluster) i ∧
      v.writtenByte l offset buf size i (p % v.bytesPerCluster) = buf (p - offset)

section
variable {v w : Exfat} {inode inode' : ExInode} {l l' : List Nat} {offset size k n : Nat} {buf : Mem} {s : Collect}

structure Done (v : Exfat) (inode : ExInode) (offset : Nat) (buf : Mem) (size : Nat) (s : Collect) (w : Exfat)
    (inode' : ExInode) : Prop where
  geom : w.geom = v.geom
  cache : ∀ x, 2 ≤ x → w.fatCache x = s.vol.fatCache x
  content : ∀ d x, v.geom.Index d → d ≠ inode.dirCluster → x < v.bytesPerCluster →
    w.content d x = (writeData buf size s.clusters s.vol (offset % v.bytesPerCluster) 0).1.content d x
  inode : inode' = { s.inode with size := max inode.size (offset + size) }

def needed (v : Exfat) (offset size : Nat) : Nat :=
  (offset + size - 1) / v.bytesPerCluster - offset / v.bytesPerCluster + 1

theorem FileOk.first_le (hf : FileOk v inode l) (hoff : offset ≤ inode.size) : offset / v.bytesPerCluster ≤ l.length :=
  Nat.div_le_of_le_mul (Nat.mul_comm _ _ ▸ hoff.trans hf.covers)

theorem Gathered.nodup (h : Gathered v inode l k n s l') (hk : k ≤ l.length) : s.clusters.Nodup := by
  by_cases ha : k < l.length ∨ l = []
  · rw [(h.attached ha).2]
    exact h.chain.nodup.drop.take
  · rw [← h.loose (by omega) (fun hc => ha (.inr hc))]
    exact h.chain.nodup

theorem Gathered.mem_clusters (h : Gathered v inode l k n s l') {x : Nat} (hx : x ∈ s.clusters) :
    x ∈ l ∨ x ∈ v.freeClusters := by
  rw [h.clusters] at hx
  exact (mem_append.1 (mem_of_mem_take hx)).imp_left mem_of_mem_drop

theorem FileOk.index_of (hf : FileOk v inode l) {x : Nat} (hx : x ∈ l ∨ x ∈ v.freeClusters) : v.geom.Index x :=
  hx.elim (hf.chain.index x) (fun h => (mem_freeClusters.1 h).1)

theorem FileOk.not_dir (hf : FileOk v inode l) {x : Nat} (hx : x ∈ l ∨ x ∈ v.freeClusters) : x ≠ inode.dirCluster := by
  rintro rfl
  rcases hx with hx | hx
  · exact hf.dirApart hx
  · exact hf.dirUsed (mem_freeClusters.1 hx).2

theorem Gathered.put (hs : Sound v.geom) (hf : FileOk v inode l) (h : Gathered v inode l k n s l') (hk : k ≤ l.length)
    (buf : Mem) (size : Nat) {off : Nat} (hoff : off < v.bytesPerCluster) :
    Put s.vol (writeData buf size s.clusters s.vol off 0).1 buf size s.clusters off 0 := by
  have hg := h.carried.geom
  have hb := bytes_congr hg
  exact writeData_put buf size s.clusters s.vol off 0 (by rwa [hg]) (h.nodup hk)
    (fun x hx => by rw [hg]; exact hf.index_of (h.mem_clusters hx)) (by rwa [hb]) (zero_le _)

theorem needed_eq (hpos : 0 < size) :
    offset / v.bytesPerCluster + v.needed offset size = (offset + size - 1) / v.bytesPerCluster + 1 := by
  have hle : offset / v.bytesPerCluster ≤ (offset + size - 1) / v.bytesPerCluster := Nat.div_le_div_right (by omega)
  unfold needed
  omega

section
variable (hs : Sound v.geom) (hf : FileOk v inode l) (hoff : offset ≤ inode.size) (hpos : 0 < size)
  (hsize : size < 4294967296)
include hs hf hoff hpos hsize

theorem write_loop (hw : v.write inode offset buf size = (w, inode', some n)) :
    n = size ∧ ∃ s l', Gathered v inode l (offset / v.bytesPerCluster) (v.needed offset size) s l' ∧ Kept v l s ∧
      inode' = { s.inode with size := max inode.size (offset + size) } ∧
      w = (if inode.size < offset + size
        then growEntry (writeData buf size s.clusters s.vol (offset % v.bytesPerCluster) 0).1 inode'
        else (writeData buf size s.clusters s.vol (offset % v.bytesPerCluster) 0).1).markDirty := by
  have hbytes := hf.chain.bytes_le hs
  have hcov := hf.covers
  have hlen := hf.chain.length_le
  have hmost : v.fatEntries ≤ 2 ^ 30 := hs.most
  have hb : v.bytesPerCluster = v.dev.sectorSize * v.sectorsPerCluster := hs.bytes
  have hb512 : 512 ≤ v.bytesPerCluster := by
    rw [hb]
    exact hs.sector512.trans (Nat.le_mul_of_pos_right _ hs.cluster)
  have hk := hf.first_le hoff
  obtain ⟨hfirst, hend, hneed⟩ := Clusters.range_words offset hb512 hpos hsize (by omega) (by omega)
  obtain ⟨e, he⟩ := hf.chain.trail
  have htrail := skipClusters_trail he hk
  unfold write at hw
  simp only [if_neg (Nat.pos_iff_ne_zero.1 hpos), hfirst, hend, hneed, ← needed.eq_1] at hw
  unfold writeFrom at hw
  revert hw
  rcases hloop : forLoop (fun _ s => collectTurn s) (v.needed offset size) 0
    ⟨v, inode, [], v.skipClusters (offset / v.bytesPerCluster) inode.firstCluster⟩ with ⟨s, _ | ⟨⟩⟩
  · intro hw
    obtain ⟨⟨l', hg⟩, hkept⟩ := collect_gathered hs hf.chain hk htrail hloop (Nat.succ_pos _)
    have hsg := hg.carried.geom
    have hsz : s.inode.size = inode.size := by rw [hg.carried.inode]
    have hsb := bytes_congr hsg
    -- the clusters collected hold the whole range
    have hcount : (writeData buf size s.clusters s.vol (offset % v.bytesPerCluster) 0).2 = size := by
      have hod := Nat.div_add_mod' offset v.bytesPerCluster
      have hed := Nat.div_add_mod' (offset + size - 1) v.bytesPerCluster
      have hem := Nat.mod_lt (offset + size - 1) (show 0 < v.bytesPerCluster by omega)
      have hmul : (offset / v.bytesPerCluster + v.needed offset size) * v.bytesPerCluster =
          ((offset + size - 1) / v.bytesPerCluster + 1) * v.bytesPerCluster := by rw [needed_eq hpos]
      rw [Nat.add_mul, Nat.add_mul] at hmul
      rw [writeData_count buf size s.clusters s.vol _ 0 (by rwa [hsg])
        (by rw [hsb]; exact Nat.mod_lt _ (by omega)) (Nat.zero_le _), hg.length, hsb]
      omega
    have hu : u64 (offset + size) = offset + size := u64_of_lt (by omega)
    simp only [hcount, hu, hsz] at hw
    split at hw
    · rename_i hlt
      obtain ⟨rfl, rfl, rfl⟩ := hw
      exact ⟨rfl, s, l', hg, hkept, by rw [Nat.max_eq_right (by omega)], by rw [if_pos hlt]⟩
    · rename_i hge
      obtain ⟨rfl, rfl, rfl⟩ := hw
      exact ⟨rfl, s, l', hg, hkept, by rw [Nat.max_eq_left (by omega), ← hsz], by rw [if_neg hge]⟩
  · intro hw
    simp only [Prod.mk.injEq] at hw
    exact absurd hw.2.2 (by simp)

theorem write_done (hw : v.write inode offset buf size = (w, inode', some size)) :
    ∃ s l', Gathered v inode l (offset / v.bytesPerCluster) (v.needed offset size) s l' ∧
      Done v inode offset buf size s w inode' := by
  obtain ⟨-, s, l', hg, -, hino, hvol⟩ := write_loop hs hf hoff hpos hsize hw
  refine ⟨s, l', hg, ?_⟩
  have hput := hg.put hs hf (hf.first_le hoff) buf size (mod_lt offset hs.bytes_pos)
  have hdir : inode'.dirCluster = inode.dirCluster := by rw [hino, hg.carried.inode]
  generalize hr : writeData buf size s.clusters s.vol (offset % v.bytesPerCluster) 0 = r at hvol hput
  have hrg : r.1.geom = v.geom := hput.geom.trans hg.carried.geom
  have hrb := bytes_congr hrg
  by_cases hlt : inode.size < offset + size
  · rw [if_pos hlt] at hvol
    subst hvol
    obtain ⟨hgg, hgc⟩ := growEntry_frame r.1 inode'
    refine ⟨hgg.trans hrg, fun x hx => ?_, fun d x hd hne hx => ?_, hino⟩
    · rw [fatCache_markDirty _ hx, hgc, hput.cache]
    · rw [hr, content_markDirty, content_growEntry (by rwa [hrg]) (by rw [hrg, hdir]; exact hf.dirIndex)
        (by rwa [hrg]) (by rwa [hdir]) (by rwa [hrb])]
  · rw [if_neg hlt] at hvol
    subst hvol
    refine ⟨hrg, fun x hx => ?_, fun d x _ _ _ => by rw [hr, content_markDirty], hino⟩
    rw [fatCache_markDirty _ hx, hput.cache]

end

structure Reached (v : Exfat) (inode : ExInode) (l : List Nat) (offset size : Nat) (s : Collect) (l' : List Nat) :
    Prop where
  pre : l <+: l'
  length : (offset + size - 1) / v.bytesPerCluster < l'.length
  place : ∀ i, i < v.needed offset size →
    l'.getD (offset / v.bytesPerCluster + i) 0 = (v.writeClusters l offset).getD i 0
  clusters : s.clusters = (l'.drop (offset / v.bytesPerCluster)).take (v.needed offset size)

theorem Gathered.reached (h : Gathered v inode l (offset / v.bytesPerCluster) (v.needed offset size) s l')
    (hpos : 0 < size) (ha : offset / v.bytesPerCluster < l.length ∨ l = []) : Reached v inode l offset size s l' := by
  obtain ⟨hpre, hcl⟩ := h.attached ha
  have hlen := h.length
  have hne := @needed_eq v offset size hpos
  have hn : 0 < v.needed offset size := succ_pos _
  rw [hcl, length_take, length_drop] at hlen
  refine ⟨hpre, by omega, fun i hi => ?_, hcl⟩
  have h1 : s.clusters.getD i 0 = l'.getD (offset / v.bytesPerCluster + i) 0 := by
    rw [hcl, getD_eq_getElem?_getD, List.getElem?_take_of_lt hi, List.getElem?_drop, ← getD_eq_getElem?_getD]
  have h2 : s.clusters.getD i 0 = (v.writeClusters l offset).getD i 0 := by
    rw [h.clusters, getD_eq_getElem?_getD, List.getElem?_take_of_lt hi]
    rfl
  rw [← h1, h2]

/-- **The clusters of the file after the write**: the buffer inside the window, the old bytes elsewhere. -/
theorem content_after (hs : Sound v.geom) (hf : FileOk v inode l) (hoff : offset ≤ inode.size) (hpos : 0 < size)
    (h : Gathered v inode l (offset / v.bytesPerCluster) (v.needed offset size) s l')
    (hr : Reached v inode l offset size s l') (hd : Done v inode offset buf size s w inode') {q x : Nat}
    (hq : q < l'.length) (hx : x < v.bytesPerCluster) (hon : v.geom.OnDevice (l'.getD q 0)) :
    w.content (l'.getD q 0) x = if offset ≤ q * v.bytesPerCluster + x ∧ q * v.bytesPerCluster + x < offset + size
      then buf (q * v.bytesPerCluster + x - offset) else v.content (l'.getD q 0) x := by
  have hb : 0 < v.bytesPerCluster := hs.bytes_pos
  have hmem := h.mem _ (getD_mem hq)
  have hidx := hf.index_of hmem
  have hput := h.put hs hf (hf.first_le hoff) buf size (mod_lt offset hb)
  have hsb := bytes_congr h.carried.geom
  have hsc : s.vol.content = v.content := by
    funext d y
    unfold content
    rw [h.carried.geom, h.carried.dev]
  rw [hd.content _ x hidx (hf.not_dir hmem) hx]
  have hfilled := hput.filled
  rw [hsb, h.carried.geom, hsc] at hfilled
  have hlen := h.length
  rw [hr.clusters, length_take, length_drop] at hlen
  have hn : 0 < v.needed offset size := succ_pos _
  exact hfilled.window hb hpos rfl (needed_eq hpos) hr.clusters (by omega) h.chain.nodup hq hx hon hidx

theorem readsByte_iff (hs : Sound v.geom) (hch : v.Chain inode.firstCluster l) {p : Nat} (hp : p < inode.size)
    (hcov : p < l.length * v.bytesPerCluster) (hon : v.geom.OnDevice (l.getD (p / v.bytesPerCluster) 0))
    {b : BitVec 8} :
    ReadsByte v inode p b ↔ v.content (l.getD (p / v.bytesPerCluster) 0) (p % v.bytesPerCluster) = b := by
  have hb : 0 < v.bytesPerCluster := hs.bytes_pos
  have hbytes := hch.bytes_le hs
  have hq := div_lt_of_lt hcov
  have hone : min (min 1 (inode.size - p)) (l.length * v.bytesPerCluster - p) = 1 := by omega
  have hdrop : (l.drop (p / v.bytesPerCluster)).take (p / v.bytesPerCluster - p / v.bytesPerCluster + 1) =
      [l.getD (p / v.bytesPerCluster) 0] := by
    have hlen : 0 < (l.drop (p / v.bytesPerCluster)).length := by
      rw [length_drop]
      omega
    rw [Nat.sub_self, take_succ_getD hlen, take_zero, nil_append, getD_eq_getElem?_getD,
      List.getElem?_drop, add_zero, ← getD_eq_getElem?_getD]
  have hread : ∀ stack, ∃ m, v.read stack inode p blank 1 = .ok (m, some 1) ∧
      m 0 = v.content (l.getD (p / v.bytesPerCluster) 0) (p % v.bytesPerCluster) := fun stack => by
    obtain ⟨m, hm, hbyte⟩ := read_eq hs hch stack blank hp hq (by decide : 1 < 2 ^ 32) (by omega)
    rw [hone] at hm hbyte
    refine ⟨m, hm, ?_⟩
    have h0 := hbyte 0 (by decide)
    simp only [add_zero] at h0
    rw [h0, hdrop]
    exact readCluster_on hs (hch.index _ (getD_mem hq)) hon (mod_lt _ hb)
  constructor
  · intro h
    obtain ⟨m, hm, hm0⟩ := h blank
    obtain ⟨m', hm', hm0'⟩ := hread blank
    rw [hm] at hm'
    simp only [Res.ok.injEq, Prod.mk.injEq, and_true] at hm'
    rw [← hm0', ← hm0, hm']
  · rintro rfl
    exact hread

theorem LastOn.congr {ls ls' : List Nat} {i j : Nat} (hg : w.geom = v.geom)
    (hget : ∀ m, m ≤ j → ls'.getD m 0 = ls.getD m 0) (h : v.LastOn ls j i) : w.LastOn ls' j i := by
  obtain ⟨hle, hon, hlast⟩ := h
  refine ⟨hle, by rwa [hg, hget i hle], fun m h1 h2 => ?_⟩
  rw [hg, hget m h2]
  exact hlast m h1 h2

structure Written (v : Exfat) (inode : ExInode) (l : List Nat) (offset : Nat) (buf : Mem) (size : Nat) (w : Exfat)
    (inode' : ExInode) (s : Collect) (l' : List Nat) : Prop where
  sound : Sound v.geom
  file : FileOk v inode l
  inside : offset ≤ inode.size
  pos : 0 < size
  word : size < 4294967296
  gathered : Gathered v inode l (offset / v.bytesPerCluster) (v.needed offset size) s l'
  reached : Reached v inode l offset size s l'
  done : Done v inode offset buf size s w inode'

theorem Done.chain (h : Gathered v inode l k n s l') (hf : FileOk v inode l)
    (hd : Done v inode offset buf size s w inode') : w.Chain inode'.firstCluster l' := by
  have hfirst : inode'.firstCluster = s.inode.firstCluster := by rw [hd.inode]
  rw [hfirst]
  exact h.chain.congr (hd.geom.trans h.carried.geom.symm) (fun x hx => hd.cache x (hf.index_of (h.mem x hx)).1)

section
variable (h : Written v inode l offset buf size w inode' s l')
include h

theorem Written.sound' : Sound w.geom := by
  rw [h.done.geom]
  exact h.sound

theorem Written.bytes : w.bytesPerCluster = v.bytesPerCluster :=
  congrArg Geom.bytesPerCluster h.done.geom

theorem Written.chain : w.Chain inode'.firstCluster l' :=
  h.done.chain h.gathered h.file

theorem Written.end_le : offset + size ≤ l'.length * v.bytesPerCluster := by
  have := (div_lt_iff_lt_mul h.sound.bytes_pos).1 h.reached.length
  have hb : v.geom.bytesPerCluster = v.bytesPerCluster := rfl
  rw [hb] at this
  omega

theorem Written.getD_drop {i : Nat} (hi : i < v.needed offset size) :
    (l'.drop (offset / v.bytesPerCluster)).getD i 0 = (v.writeClusters l offset).getD i 0 := by
  rw [← h.reached.place i hi, getD_eq_getElem?_getD, List.getElem?_drop, ← getD_eq_getElem?_getD]

theorem Written.number_lt {p : Nat} (h1 : offset ≤ p) (h2 : p < offset + size) :
    p / v.bytesPerCluster - offset / v.bytesPerCluster < v.needed offset size ∧
      p / v.bytesPerCluster - offset / v.bytesPerCluster < (l'.drop (offset / v.bytesPerCluster)).length := by
  have hle : p / v.bytesPerCluster ≤ (offset + size - 1) / v.bytesPerCluster := Nat.div_le_div_right (by omega)
  have hge : offset / v.bytesPerCluster ≤ p / v.bytesPerCluster := Nat.div_le_div_right h1
  have hne := @needed_eq v offset size h.pos
  have hlen := h.reached.length
  rw [length_drop]
  omega

theorem Written.read_range (stack : Mem) : ∃ m, w.read stack inode' offset blank size = .ok (m, some size) ∧
      ∀ p, offset ≤ p → p < offset + size → m (p - offset) = w.held stack ((l'.drop (offset / v.bytesPerCluster)).take
        (p / v.bytesPerCluster - offset / v.bytesPerCluster + 1)) (p % v.bytesPerCluster) := by
  have hbytes := h.chain.bytes_le h.sound'
  have hend := h.end_le
  have hpos := h.pos
  have hlen := h.reached.length
  have hk : offset / v.bytesPerCluster ≤ (offset + size - 1) / v.bytesPerCluster := Nat.div_le_div_right (by omega)
  have hsz : offset + size ≤ inode'.size := by
    rw [h.done.inode]
    exact Nat.le_max_right ..
  obtain ⟨m, hm, hbyte⟩ := read_eq h.sound' h.chain stack blank (show offset < inode'.size by omega)
    (by rw [h.bytes]; omega) h.word (by rw [h.bytes] at hbytes; omega)
  have hcount : min (min size (inode'.size - offset)) (l'.length * w.bytesPerCluster - offset) = size := by
    rw [h.bytes]
    omega
  rw [h.bytes] at hbyte
  rw [hcount] at hm
  refine ⟨m, hm, fun p h1 h2 => ?_⟩
  have := hbyte (p - offset) (by omega)
  rwa [Nat.add_sub_cancel' h1] at this

theorem Written.held_range (stack : Mem) {p : Nat} (h1 : offset ≤ p) (h2 : p < offset + size) {b : BitVec 8}
    (hb : b = w.held stack ((l'.drop (offset / v.bytesPerCluster)).take
      (p / v.bytesPerCluster - offset / v.bytesPerCluster + 1)) (p % v.bytesPerCluster)) :
    (∃ i, v.LastOn (v.writeClusters l offset) (p / v.bytesPerCluster - offset / v.bytesPerCluster) i ∧
      b = v.writtenByte l offset buf size i (p % v.bytesPerCluster)) ∨
    ((∀ m, m ≤ p / v.bytesPerCluster - offset / v.bytesPerCluster →
        ¬ v.geom.OnDevice ((v.writeClusters l offset).getD m 0)) ∧ b = stack (p % v.bytesPerCluster)) := by
  have hx : p % v.bytesPerCluster < v.bytesPerCluster := mod_lt _ h.sound.bytes_pos
  obtain ⟨hn, hj⟩ := h.number_lt h1 h2
  have hget : ∀ m, m ≤ p / v.bytesPerCluster - offset / v.bytesPerCluster →
      (l'.drop (offset / v.bytesPerCluster)).getD m 0 = (v.writeClusters l offset).getD m 0 :=
    fun m hm => h.getD_drop (by omega)
  rw [hb]
  rcases held_cases h.sound' (fun y hy => h.chain.index y (mem_of_mem_drop hy)) stack (by rwa [h.bytes]) hj
    with ⟨i, hlast, heq⟩ | ⟨hnone, heq⟩
  · have hv := hlast.congr h.done.geom.symm (fun m hm => (hget m hm).symm)
    have hi := hlast.1
    have hplace := h.reached.place i (by omega)
    have hafter := content_after h.sound h.file h.inside h.pos h.gathered h.reached h.done
      (show offset / v.bytesPerCluster + i < l'.length by rw [length_drop] at hj; omega) hx
      (by rw [hplace]; exact hv.2.1)
    rw [hplace] at hafter
    exact .inl ⟨i, hv, by rwa [heq, hget i hi]⟩
  · refine .inr ⟨fun m hm => ?_, heq⟩
    have := hnone m hm
    rwa [h.done.geom, hget m hm] at this

theorem Written.data_iff :
    (∀ stack, ∃ m, w.read stack inode' offset blank size = .ok (m, some size) ∧ ∀ i, i < size → m i = buf i) ↔
    ∀ p, offset ≤ p → p < offset + size →
      ∃ i, v.LastOn (v.writeClusters l offset) (p / v.bytesPerCluster - offset / v.bytesPerCluster) i ∧
        v.writtenByte l offset buf size i (p % v.bytesPerCluster) = buf (p - offset) := by
  constructor
  · intro hdata p h1 h2
    -- a stack that holds the wrong byte everywhere
    obtain ⟨m, hm, hall⟩ := hdata (fun _ => buf (p - offset) + 1#8)
    obtain ⟨m', hm', hbyte⟩ := h.read_range (fun _ => buf (p - offset) + 1#8)
    rw [hm] at hm'
    simp only [Res.ok.injEq, Prod.mk.injEq, and_true] at hm'
    subst hm'
    have hval := hbyte p h1 h2
    rw [hall _ (by omega)] at hval
    rcases h.held_range _ h1 h2 hval with ⟨i, hlast, heq⟩ | ⟨-, heq⟩
    · exact ⟨i, hlast, heq.symm⟩
    · have hne : ∀ b : BitVec 8, b ≠ b + 1#8 := by decide
      exact absurd heq (hne _)
  · intro hfit stack
    obtain ⟨m, hm, hbyte⟩ := h.read_range stack
    refine ⟨m, hm, fun i hi => ?_⟩
    have hval := hbyte (offset + i) (by omega) (by omega)
    obtain ⟨j, hlast, hw⟩ := hfit (offset + i) (by omega) (by omega)
    rw [Nat.add_sub_cancel_left] at hval hw
    rcases h.held_range stack (by omega) (by omega) hval with ⟨j', hlast', heq⟩ | ⟨hnone, -⟩
    · rw [heq, ← hlast.unique hlast', hw]
    · exact absurd hlast.2.1 (hnone j hlast.1)

theorem Written.rest {p : Nat} {b : BitVec 8} (hp : p < inode.size)
    (hout : p < offset ∨ offset + size ≤ p) (hread : ReadsByte v inode p b) : ReadsByte w inode' p b := by
  have hb : 0 < v.bytesPerCluster := h.sound.bytes_pos
  have hcov : p < l.length * v.bytesPerCluster := hp.trans_le h.file.covers
  have hq := div_lt_of_lt hcov
  have hon := h.file.onDevice _ (getD_mem hq)
  obtain ⟨r, rfl⟩ := h.reached.pre
  have hget : (l ++ r).getD (p / v.bytesPerCluster) 0 = l.getD (p / v.bytesPerCluster) 0 := getD_append _ _ _ _ hq
  have hq' : p / v.bytesPerCluster < (l ++ r).length := by
    rw [length_append]
    omega
  have hp' : p < inode'.size := by
    rw [h.done.inode]
    exact hp.trans_le (le_max_left ..)
  rw [readsByte_iff h.sound h.file.chain hp hcov hon] at hread
  rw [readsByte_iff h.sound' h.chain hp' (by rw [h.bytes]; exact (div_lt_iff_lt_mul hb).1 hq')
    (by rwa [h.bytes, hget, h.done.geom]), h.bytes, hget]
  have hafter := content_after h.sound h.file h.inside h.pos h.gathered h.reached h.done hq' (mod_lt p hb)
    (by rwa [hget])
  have hpd := div_add_mod' p v.bytesPerCluster
  rw [hget, if_neg (by omega)] at hafter
  rw [hafter, hread]

end

/-- A write behind the clusters of a non-empty file is not read back: the chain has only the new clusters. -/
theorem not_law_of_loose (hs : Sound v.geom) (hf : FileOk v inode l) (hoff : offset ≤ inode.size) (hpos : 0 < size)
    (hsize : size < 2 ^ 32) (h : Gathered v inode l (offset / v.bytesPerCluster) (v.needed offset size) s l')
    (hd : Done v inode offset buf size s w inode') (hk : offset / v.bytesPerCluster = l.length) (hne : l ≠ []) :
    ¬ WriteLaw v inode offset buf size w inode' := by
  rintro ⟨hdata, -⟩
  obtain ⟨m, hm, -⟩ := hdata blank
  have hsw : Sound w.geom := by rwa [hd.geom]
  have hwb := bytes_congr hd.geom
  have hch := hd.chain h hf
  have hlen : l'.length = v.needed offset size := by rw [h.loose hk hne, h.length]
  have hsz : offset + size ≤ inode'.size := by
    rw [hd.inode]
    exact le_max_right ..
  have hlpos : 0 < l.length := length_pos_iff.2 hne
  have hll := hf.chain.length_le
  have hmost : v.fatEntries ≤ 2 ^ 30 := hs.most
  by_cases hin : offset / v.bytesPerCluster < l'.length
  · have hbytes := hf.chain.bytes_le hs
    have hcov := hf.covers
    obtain ⟨m', hm', -⟩ := read_eq hsw hch blank blank (show offset < inode'.size by omega) (by rwa [hwb]) hsize
      (by omega)
    rw [hm] at hm'
    simp only [Res.ok.injEq, Prod.mk.injEq, Option.some.injEq] at hm'
    -- the chain is at least one cluster shorter than the range needs
    have hneed := @needed_eq v offset size hpos
    have hed := div_mul_le_self (offset + size - 1) v.bytesPerCluster
    have hle : l'.length * v.bytesPerCluster ≤ (offset + size - 1) / v.bytesPerCluster * v.bytesPerCluster :=
      mul_le_mul_right _ (by omega)
    rw [hwb] at hm'
    omega
  · rcases read_behind hsw hch (show offset < inode'.size by omega) (by rw [hwb]; omega) (by rw [hwb]; omega)
      with h0 | h0
    · rw [h0] at hm
      simp at hm
    · rw [h0] at hm
      simp only [Res.ok.injEq, Prod.mk.injEq, Option.some.injEq] at hm
      omega

/-- **The law of files holds exactly for the writes that fit**: on a sound volume, for a file whose chain covers its
size and every write that reports all its bytes. -/
theorem readBack_iff (hs : Sound v.geom) (hf : FileOk v inode l) (hoff : offset ≤ inode.size) (hpos : 0 < size)
    (hsize : size < 4294967296) (hw : v.write inode offset buf size = (w, inode', some size)) :
    WriteLaw v inode offset buf size w inode' ↔ WriteFits v l offset buf size := by
  obtain ⟨s, l', hg, hd⟩ := write_done hs hf hoff hpos hsize hw
  have hk := hf.first_le hoff
  by_cases ha : offset / v.bytesPerCluster < l.length ∨ l = []
  · have h : Written v inode l offset buf size w inode' s l' := ⟨hs, hf, hoff, hpos, hsize, hg, hg.reached hpos ha, hd⟩
    exact ⟨fun hlaw => ⟨ha, h.data_iff.1 hlaw.data⟩,
      fun hfit => ⟨h.data_iff.2 hfit.2, fun p b hp hout hread => h.rest hp hout hread⟩⟩
  · exact iff_of_false (not_law_of_loose hs hf hoff hpos hsize hg hd (by omega) (fun hc => ha (.inr hc)))
      (fun hfit => ha hfit.1)

end

def smallFile (size : Nat) : ExInode :=
  { mode := Fat32.ftRegFile, size := size, firstCluster := 3, dataLength := size, dirCluster := 2, dirEntry := 0,
    parentCluster := 2 }

theorem smallVol_chain : smallVol.Chain 3 [3] where
  trail := ⟨fatEnd, rfl, by decide, by decide, by decide⟩
  index := by decide
  used := by decide

theorem smallFile_ok {size : Nat} (h : size ≤ 512) : FileOk smallVol (smallFile size) [3] where
  chain := smallVol_chain
  onDevice := by decide
  covers := by simpa [smallFile, smallVol] using h
  dirIndex := (by decide : smallVol.geom.Index 2)
  dirUsed := (by decide : smallVol.fatCache 2 ≠ fatFree)
  dirApart := (by decide : 2 ∉ [3])

/-- A write that takes a second cluster. -/
theorem smallFile_readBack_iff : ∃ w inode', smallVol.write (smallFile 3) 1 (fun _ => 7#8) 600 = (w, inode', some 600) ∧
    (WriteLaw smallVol (smallFile 3) 1 (fun _ => 7#8) 600 w inode' ↔ WriteFits smallVol [3] 1 (fun _ => 7#8) 600) :=
  ⟨_, _, rfl, readBack_iff smallVol_sound (smallFile_ok (by decide)) (by decide) (by decide) (by decide) rfl⟩

/-- One byte appended to a file that fills its cluster: the write reports it, and the read gives nothing. -/
theorem append_full_detached : ∃ w inode', smallVol.write (smallFile 512) 512 blank 1 = (w, inode', some 1) ∧
    ¬ WriteLaw smallVol (smallFile 512) 512 blank 1 w inode' := by
  refine ⟨_, _, rfl, fun h => ?_⟩
  obtain ⟨m, hr, -⟩ := h.data blank
  cases hr

end Exfat

end OS64
