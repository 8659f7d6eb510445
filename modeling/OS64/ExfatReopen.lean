import OS64.ExfatLaw
import OS64.ExfatDir
import OS64.Vfs
import OS64.Text
/-!
# ExfatReopen — an overwritten file of an exFAT volume, found and read again

A write from the start of a file changes the file's clusters and free ones, and the two lengths in its stream entry
(`write_rewritten`).  So lookups and names are what they were, but for the file's size (`Rewritten.lookup`,
`Rewritten.getName`), and the text that the file then holds is known (`text_iff`).
-/
namespace OS64

open List Nat

namespace Exfat

open Fat32 (Geom ftDir ftRegFile)

/-! ## `exfat_sync` -/

structure Layout (v : Exfat) : Prop where
  sector : v.bytesPerSector = 512
  fat : v.fatOffset + v.fatLength ≤ v.heap

section
variable {v w : Exfat} {a d n x : Nat}

theorem writeFat_shape (v : Exfat) : ∀ n, (v.writeFat n).ready = v.dev.ready ∧
    (v.writeFat n).sectorSize = v.dev.sectorSize ∧ (v.writeFat n).totalSectors = v.dev.totalSectors
  | 0 => ⟨rfl, rfl, rfl⟩
  | n + 1 => by
    obtain ⟨h1, h2, h3⟩ := writeFat_shape v n
    obtain ⟨g1, g2, g3⟩ := BlockDev.write_shape (v.writeFat n) (u32 (v.fatOffset + n)) (v.bytesPerSector / 512)
      (fun o => v.fatBytes (n * v.bytesPerSector + o))
    exact ⟨g1.trans h1, g2.trans h2, g3.trans h3⟩

theorem data_writeFat (h512 : v.bytesPerSector = 512) (h32 : v.fatOffset + n ≤ 2 ^ 32)
    (ha : v.dev.sectorSize * (v.fatOffset + n) ≤ a) : (v.writeFat n).data a = v.dev.data a := by
  induction n with
  | zero => rfl
  | succ n ih =>
    have hle : v.dev.sectorSize * (v.fatOffset + n) + v.dev.sectorSize ≤ a := by exact ha
    have hlba : u32 (v.fatOffset + n) = v.fatOffset + n := u32_of_lt (by omega)
    have hone : v.bytesPerSector / 512 = 1 := by rw [h512]
    unfold writeFat
    rw [BlockDev.write_data, (writeFat_shape v n).2.1, hlba, hone, if_neg (by omega)]
    exact ih (by omega) (by omega)

@[simp] theorem geom_sync (v : Exfat) : v.sync.geom = v.geom := by
  obtain ⟨h1, h2, h3⟩ := writeFat_shape v v.fatLength
  unfold sync
  split
  · simp only [geom, setNext, heap, h1, h2, h3]
  · rfl

theorem fatCache_sync (v : Exfat) (hx : 2 ≤ x) : v.sync.fatCache x = v.fatCache x := by
  unfold sync
  split
  · rw [fatCache_setNext, if_neg (by omega)]
  · rfl

/-- **`exfat_sync` does not touch the clusters.** -/
theorem content_sync (hs : Sound v.geom) (hlay : Layout v) (d x : Nat) : v.sync.content d x = v.content d x := by
  have hheap : v.heap < 2 ^ 32 := hs.heap
  have hfat := hlay.fat
  have hsec : v.sync.dev.sectorSize = v.dev.sectorSize := congrArg Geom.sectorSize (geom_sync v)
  have hle : v.dev.sectorSize * (v.fatOffset + v.fatLength) ≤ v.dev.sectorSize * v.geom.sector d + x := by
    have hd : v.heap ≤ v.geom.sector d := le_add_right _ _
    exact (mul_le_mul_left _ (le_trans hfat hd)).trans (le_add_right _ _)
  unfold content
  rw [hsec]
  unfold sync
  split
  · exact data_writeFat hlay.sector (by omega) hle
  · rfl

theorem Layout.congr (h : Layout v) (hg : w.geom = v.geom) (hb : w.bytesPerSector = v.bytesPerSector) : Layout w := by
  have h1 : w.fatOffset = v.fatOffset := congrArg Geom.fatStart hg
  have h2 : w.fatLength = v.fatLength := congrArg Geom.fatSize32 hg
  have h3 : w.heap = v.heap := congrArg Geom.dataStart hg
  exact ⟨hb.trans h.sector, by rw [h1, h2, h3]; exact h.fat⟩

end

/-! ## What a write from the start leaves -/

/-- Byte `x` of a cluster is not one of the lengths in the stream entry of `f`. -/
def Untouched (f : ExInode) (d x : Nat) : Prop :=
  d ≠ f.dirCluster ∨ x < 32 * f.dirEntry + 40 ∨ (32 * f.dirEntry + 48 ≤ x ∧ x < 32 * f.dirEntry + 56) ∨
    32 * f.dirEntry + 64 ≤ x

/-- **The volume after `size` bytes were written from the start of the file `f`** with the clusters `l`: the other
clusters in use are as before, but for the lengths in the file's stream entry. -/
structure Rewritten (v w : Exfat) (f : ExInode) (l : List Nat) (size : Nat) : Prop where
  geom : w.geom = v.geom
  sector : w.bytesPerSector = v.bytesPerSector
  cache : ∀ x, 2 ≤ x → v.fatCache x ≠ fatFree → x ∉ l → w.fatCache x = v.fatCache x
  content : ∀ d x, v.geom.Index d → v.fatCache d ≠ fatFree → d ∉ l → x < v.bytesPerCluster → Untouched f d x →
    w.content d x = v.content d x
  entry : v.geom.OnDevice f.dirCluster → 32 * (f.dirEntry + 2) ≤ v.bytesPerCluster →
    streamLength (w.content f.dirCluster) (f.dirEntry + 1) =
      if f.size < size then size else streamLength (v.content f.dirCluster) (f.dirEntry + 1)

section
variable {v w : Exfat} {f f' i : ExInode} {l : List Nat} {buf : Mem} {n k size x d : Nat}

theorem Rewritten.rfl' (v : Exfat) (f : ExInode) (l : List Nat) : Rewritten v v f l 0 :=
  ⟨rfl, rfl, fun _ _ _ _ => rfl, fun _ _ _ _ _ _ _ => rfl, fun _ _ => (if_neg (not_lt_zero _)).symm⟩

theorem Rewritten.sync (h : Rewritten v w f l size) (hs : Sound v.geom) (hlay : Layout v) :
    Rewritten v w.sync f l size := by
  have hcon : ∀ d, w.sync.content d = w.content d :=
    fun d => funext (content_sync (by rwa [h.geom]) (hlay.congr h.geom h.sector) d)
  refine ⟨by rw [geom_sync, h.geom], ?_, fun x hx hu hl => by rw [fatCache_sync w hx]; exact h.cache x hx hu hl,
    fun d x hd hu hl hx hap => ?_, fun hon hin => ?_⟩
  · rw [← h.sector]
    unfold Exfat.sync
    split <;> rfl
  · rw [hcon]
    exact h.content d x hd hu hl hx hap
  · rw [hcon]
    exact h.entry hon hin

theorem content_growEntry_apart (hs : Sound v.geom) (hdir : v.geom.Index i.dirCluster) (hd : v.geom.Index d)
    (hx : x < v.bytesPerCluster) (hap : Untouched i d x) : (growEntry v i).content d x = v.content d x := by
  by_cases hdc : d = i.dirCluster
  · unfold growEntry
    unfold Untouched at hap
    rw [content_writeCluster hs hdir hd hx]
    by_cases hon : v.geom.OnDevice i.dirCluster
    · rw [if_pos ⟨hdc, hon⟩]
      rw [store_apart _ (by omega), store_apart _ (by omega), readCluster_on hs hdir hon hx, hdc]
    · rw [if_neg (fun h => hon h.2)]
  · exact content_growEntry hs hdir hd hdc hx

theorem streamLength_growEntry (hs : Sound v.geom) (hdir : v.geom.Index i.dirCluster)
    (hon : v.geom.OnDevice i.dirCluster) (hin : 32 * (i.dirEntry + 2) ≤ v.bytesPerCluster) (hsize : i.size < 2 ^ 64) :
    streamLength ((growEntry v i).content i.dirCluster) (i.dirEntry + 1) = i.size := by
  have hload : streamLength ((growEntry v i).content i.dirCluster) (i.dirEntry + 1) =
      load (store (v.readCluster i.dirCluster blank) (32 * (i.dirEntry + 1) + 24) 8 i.size)
        (32 * (i.dirEntry + 1) + 24) 8 := by
    refine load_congr (fun o ho => ?_)
    unfold growEntry
    rw [content_writeCluster hs hdir hdir (by omega), if_pos ⟨rfl, hon⟩]
    rw [store_apart _ (by omega), mul_add]
  rw [hload, load_store]
  exact mod_eq_of_lt hsize

/-- **What a write from the start leaves.** -/
theorem write_rewritten (hs : Sound v.geom) (hf : FileOk v f l) (hn : n < 2 ^ 32)
    (hw : v.write f 0 buf n = (w, f', some k)) : k = n ∧ Rewritten v w f l n ∧ f'.size = max f.size n := by
  rcases Nat.eq_zero_or_pos n with rfl | hpos
  · cases hw
    exact ⟨rfl, Rewritten.rfl' _ _ l, (Nat.max_zero _).symm⟩
  obtain ⟨rfl, s, l', hg, hkept, hino, hvol⟩ := write_loop hs hf (zero_le _) hpos hn hw
  have hput := hg.put hs hf (hf.first_le (zero_le _)) buf k (mod_lt 0 hs.bytes_pos)
  have hsec := bytesPerSector_writeData buf k s.clusters s.vol (0 % v.bytesPerCluster) 0
  generalize writeData buf k s.clusters s.vol (0 % v.bytesPerCluster) 0 = r at hvol hput hsec
  rw [zero_add] at hino hvol
  have hrg : r.1.geom = v.geom := hput.geom.trans hg.carried.geom
  have hsr : Sound r.1.geom := by rwa [hrg]
  have hrb := bytes_congr hrg
  have hsb := bytes_congr hg.carried.geom
  have hplace : f'.dirCluster = f.dirCluster ∧ f'.dirEntry = f.dirEntry := by
    rw [hino, hg.carried.inode]
    exact ⟨rfl, rfl⟩
  have hcache : ∀ x, v.fatCache x ≠ fatFree → x ∉ l → r.1.fatCache x = v.fatCache x :=
    fun x hx hl => by rw [hput.cache]; exact hkept.cache x hx hl
  have hsect : r.1.bytesPerSector = v.bytesPerSector := hsec.trans hkept.sector
  -- a cluster in use that is not the file's is not written
  have hold : ∀ d x, v.geom.Index d → v.fatCache d ≠ fatFree → d ∉ l → x < v.bytesPerCluster →
      r.1.content d x = v.content d x := fun d x hd hused hl hx => by
    rw [hput.filled.rest d x (fun hmem => ?_) (by rwa [hg.carried.geom]) (by rwa [hsb])]
    · unfold Exfat.content
      rw [hg.carried.dev, hg.carried.geom]
    · rcases hg.mem_clusters hmem with h | h
      · exact hl h
      · exact hused (mem_freeClusters.1 h).2
  have hsize : f'.size = max f.size k := by rw [hino]
  refine ⟨rfl, ?_, hsize⟩
  by_cases hgrow : f.size < k
  · rw [if_pos hgrow] at hvol
    subst hvol
    obtain ⟨hgg, hgc⟩ := growEntry_frame r.1 f'
    have hdir : r.1.geom.Index f'.dirCluster := by rw [hrg, hplace.1]; exact hf.dirIndex
    refine ⟨hgg.trans hrg, (bytesPerSector_growEntry r.1 f').trans hsect, fun x hx hu hl => ?_,
      fun d x hd hu hl hx hap => ?_, fun hon hin => ?_⟩
    · rw [fatCache_markDirty _ hx, hgc]
      exact hcache x hu hl
    · rw [content_markDirty, content_growEntry_apart hsr hdir (by rwa [hrg]) (by rwa [hrb])
        (by unfold Untouched at hap ⊢; rw [hplace.1, hplace.2]; exact hap)]
      exact hold d x hd hu hl hx
    · have hlen := streamLength_growEntry hsr hdir (by rwa [hrg, hplace.1])
        (by rwa [hrb, hplace.2]) (by omega)
      rw [hplace.1, hplace.2] at hlen
      rw [content_markDirty, hlen, if_pos hgrow, hsize]
      omega
  · rw [if_neg hgrow] at hvol
    subst hvol
    refine ⟨hrg, hsect, fun x hx hu hl => ?_, fun d x hd hu hl hx _ => hold d x hd hu hl hx, fun hon hin => ?_⟩
    · rw [fatCache_markDirty _ hx]
      exact hcache x hu hl
    · rw [if_neg hgrow]
      exact load_congr (fun o ho => hold _ _ hf.dirIndex hf.dirUsed hf.dirApart (by omega))

end

/-! ## Entries -/

/-- The inode is that of a file entry in a cluster of a directory, with its stream entry behind it. -/
structure EntryOf (v : Exfat) (i : ExInode) : Prop where
  index : v.geom.Index i.dirCluster
  onDevice : v.geom.OnDevice i.dirCluster
  used : v.fatCache i.dirCluster ≠ fatFree
  inside : 32 * (i.dirEntry + 2) ≤ v.bytesPerCluster
  stream : v.content i.dirCluster (32 * (i.dirEntry + 1)) = entryStream
  size : i.size = streamLength (v.content i.dirCluster) (i.dirEntry + 1)
  mode : i.mode = if fileAttributes (v.content i.dirCluster) i.dirEntry &&& attrDirectory = 0 then ftRegFile else ftDir

/-- The inode with a new size, if its entry is that of the file `f`. -/
def resize (f : ExInode) (size : Nat) (i : ExInode) : ExInode :=
  if i.mode = ftRegFile ∧ i.dirCluster = f.dirCluster ∧ i.dirEntry = f.dirEntry then
    { i with size := size, dataLength := size }
  else i

structure DirOk (v : Exfat) (dir : ExInode) (dl : List Nat) : Prop extends DirState v dir dl where
  sets : ∀ c ∈ dl, ∃ f es, Sets v (v.content c) f es

section
variable {v w : Exfat} {dir f i : ExInode} {l dl : List Nat} {name : Name} {c d n p q s size : Nat}

theorem resize_self (hmode : f.mode = ftRegFile) (size : Nat) :
    resize f size f = { f with size := size, dataLength := size } := if_pos ⟨hmode, rfl, rfl⟩

theorem resize_dir (hmode : i.mode = ftDir) (size : Nat) : resize f size i = i :=
  if_neg (fun h => by
    rw [hmode] at h
    exact absurd h.1 (by decide))

theorem resize_eq (f : ExInode) (size : Nat) (i : ExInode) : resize f size i =
    { i with size := (resize f size i).size, dataLength := (resize f size i).dataLength } := by
  unfold resize
  split <;> rfl

theorem DirOk.scan_some (h : DirOk v dir dl) (hc : c ∈ dl) (hr : v.scanCluster name c = .ok (some (p, s))) :
    s = p + 1 ∧ 32 * (p + 2) ≤ v.bytesPerCluster ∧ v.content c (32 * (p + 1)) = entryStream := by
  obtain ⟨fl, es, hsets⟩ := h.sets c hc
  rw [scanCluster_sets h.slots hsets name] at hr
  obtain ⟨e, he, hes⟩ : ∃ e, findName name es = some e ∧ (e.slot, e.slot + 1) = (p, s) := by
    revert hr
    cases findName name es with
    | none => intro hr; cases hr
    | some e => intro hr; exact ⟨e, rfl, Option.some.inj (Res.ok.inj hr)⟩
  cases hes
  obtain ⟨-, count, hset, -⟩ := hsets.1.mem (mem_of_find?_eq_some he)
  have hin := hset.inside
  have hpos := hset.pos
  exact ⟨rfl, by omega, hset.stream⟩

theorem DirOk.found_entry (h : DirOk v dir dl) (hc : c ∈ dl) (hr : v.scanCluster name c = .ok (some (p, s))) :
    EntryOf v (foundInode dir c (v.content c) p s) := by
  obtain ⟨rfl, hin, hst⟩ := h.scan_some hc hr
  exact ⟨h.chain.index c hc, h.onDevice c hc, h.chain.used c hc, hin, hst, rfl, rfl⟩

theorem lookup_entry (h : DirOk v dir dl) (hl : v.lookup dir name = .ok (some i)) :
    EntryOf v i ∧ i.dirCluster ∈ dl := by
  rw [lookup_eq h.toDirState] at hl
  obtain ⟨c, hc, p, s, hr, rfl⟩ := search_some hl
  exact ⟨h.found_entry hc hr, hc⟩

/-! ## Lookups in the volume after the write -/

section
variable (h : Rewritten v w f l size)
include h

theorem Rewritten.dirState (hd : DirState v dir dl) (hap : ∀ x ∈ dl, x ∉ l) : DirState w dir dl :=
  hd.congr h.geom (fun x hx => h.cache x (hd.chain.index x hx).1 (hd.chain.used x hx) (hap x hx))

theorem Rewritten.byte (hd : v.geom.Index d) (hused : v.fatCache d ≠ fatFree) (hap : d ∉ l)
    {o : Nat} (ho : o < 32) (hin : 32 * q + o < v.bytesPerCluster)
    (hfield : d ≠ f.dirCluster ∨ q ≠ f.dirEntry + 1 ∨ o < 8 ∨ (16 ≤ o ∧ o < 24)) :
    w.content d (32 * q + o) = v.content d (32 * q + o) := by
  refine h.content d _ hd hused hap hin ?_
  rcases hfield with hne | hfield
  · exact .inl hne
  · exact .inr (by omega)

theorem Rewritten.sets (hf : EntryOf v f) (hd : v.geom.Index d)
    (hused : v.fatCache d ≠ fatFree) (hap : d ∉ l) : SameSets v 0 (v.content d) (w.content d) where
  type q _ hq := h.byte (o := 0) hd hused hap (by decide) hq (.inr (.inr (.inl (by decide))))
  count q _ hq := h.byte hd hused hap (by decide) hq (.inr (.inr (.inl (by decide))))
  name q _ hname o h1 h2 ho := by
    obtain ⟨o, rfl⟩ := Nat.exists_eq_add_of_le h1
    refine h.byte hd hused hap (by omega) ho ?_
    by_cases hq : d = f.dirCluster ∧ q = f.dirEntry + 1
    · -- the slot of the file's stream entry is no name entry
      rw [hq.1, hq.2, hf.stream] at hname
      exact absurd hname (by decide)
    · rcases Decidable.not_and_iff_or_not.1 hq with hq | hq
      · exact .inl hq
      · exact .inr (.inl hq)

section
variable (hf : EntryOf v f) (hmode : f.mode = ftRegFile) (hd : DirOk v dir dl) (hap : ∀ x ∈ dl, x ∉ l)
include hf hmode hd hap

theorem Rewritten.found (hc : c ∈ dl) (hr : v.scanCluster name c = .ok (some (p, s))) :
    foundInode dir c (w.content c) p s = resize f (max f.size size) (foundInode dir c (v.content c) p s) := by
  obtain ⟨rfl, hin, -⟩ := hd.scan_some hc hr
  have hbyte : ∀ q o, o < 32 → 32 * q + o < v.bytesPerCluster →
      (c ≠ f.dirCluster ∨ q ≠ f.dirEntry + 1 ∨ o < 8 ∨ (16 ≤ o ∧ o < 24)) →
      w.content c (32 * q + o) = v.content c (32 * q + o) :=
    fun q o ho hq hfield => h.byte (hd.chain.index c hc) (hd.chain.used c hc) (hap c hc) ho hq hfield
  have hattr : fileAttributes (w.content c) p = fileAttributes (v.content c) p :=
    load_congr (fun o ho => by rw [add_assoc]; exact hbyte _ _ (by omega) (by omega) (by omega))
  have hcl : streamCluster (w.content c) (p + 1) = streamCluster (v.content c) (p + 1) :=
    load_congr (fun o ho => by rw [add_assoc]; exact hbyte _ _ (by omega) (by omega) (by omega))
  unfold resize foundInode
  rw [hattr, hcl]
  have hreg : c = f.dirCluster ∧ p = f.dirEntry →
      (if fileAttributes (v.content c) p &&& attrDirectory = 0 then ftRegFile else ftDir) = ftRegFile := by
    rintro ⟨h1, h2⟩
    have := hf.mode
    rw [hmode, ← h1, ← h2] at this
    exact this.symm
  generalize (if fileAttributes (v.content c) p &&& attrDirectory = 0 then ftRegFile else ftDir) = mode at *
  by_cases hself : c = f.dirCluster ∧ p = f.dirEntry
  · have hlen : streamLength (w.content c) (p + 1) = max f.size size := by
      have hold := hf.size
      have hnew := h.entry hf.onDevice hf.inside
      rw [hself.1, hself.2, hnew]
      split <;> omega
    rw [if_pos ⟨hreg hself, hself⟩, hlen]
  · have hlen : streamLength (w.content c) (p + 1) = streamLength (v.content c) (p + 1) :=
      load_congr (fun o ho => by rw [add_assoc]; exact hbyte _ _ (by omega) (by omega) (by omega))
    rw [if_neg (fun hc => hself hc.2), hlen]

/-- **What is found after the write** is what was found before, but for the size of the file. -/
theorem Rewritten.lookup (name : Name) :
    w.lookup dir name = (v.lookup dir name).bind (fun r => .ok (r.map (resize f (max f.size size)))) := by
  have hb := bytes_congr h.geom
  have hsc := slotCount_congr h.geom
  have hsub : ∀ {ls : List Nat}, (∀ c ∈ ls, c ∈ dl) → search w dir name ls =
      (search v dir name ls).bind (fun r => .ok (r.map (resize f (max f.size size)))) := by
    intro ls
    induction ls with
    | nil => intro _; rfl
    | cons c ls ih =>
      intro hmem
      have hc := hmem c (.head _)
      have hscan : w.scanCluster name c = v.scanCluster name c := by
        unfold scanCluster
        rw [hsc]
        exact scan_same hd.slots (h.sets hf (hd.chain.index c hc) (hd.chain.used c hc) (hap c hc)) hb name (le_refl 0)
      have ih := ih (forall_mem_cons.1 hmem).2
      rw [search, search, hscan, ih]
      rcases hr : v.scanCluster name c with (_ | ⟨p, s⟩) | _ | _
      · rfl
      · simp only [Res.bind, h.found hf hmode hd hap hc hr, Option.map_some]
      · rfl
      · rfl
  rw [lookup_eq hd.toDirState, lookup_eq (h.dirState hd.toDirState hap)]
  exact hsub (fun _ hx => hx)

end

end

theorem nameLoop_same {buf buf' : Mem} (hslots : v.bytesPerCluster = 32 * v.slotCount) (h : SameSets v 0 buf buf')
    (hb : w.bytesPerCluster = v.bytesPerCluster) (maxLen : Nat) : ∀ {n p : Nat} {acc : Name},
    nameLoop w buf' maxLen n p acc = nameLoop v buf maxLen n p acc
  | 0, _, _ => rfl
  | n + 1, p, acc => by
    unfold nameLoop
    rw [hb]
    by_cases hfull : maxLen - 1 ≤ acc.length
    · rw [if_pos hfull, if_pos hfull]
    by_cases hend : v.bytesPerCluster ≤ 32 * p
    · rw [if_neg hfull, if_neg hfull, if_pos hend, if_pos hend]
    have hchars : (if buf (32 * p) = entryName then acc ++ nameChars buf' p else acc) =
        if buf (32 * p) = entryName then acc ++ nameChars buf p else acc := by
      split
      · rename_i hname
        rw [nameChars_same (fun o h1 h2 => h.name p (zero_le p) hname o (by omega) h2 (by omega))]
      · rfl
    simp only [h.type p (zero_le p) (by omega), hchars]
    rw [nameLoop_same hslots h hb maxLen]

theorem dirRead_isNone (hs : Sound v.geom) (hc : v.geom.Index c) (hon : v.geom.OnDevice c) :
    (v.dev.read (v.sectorOf c) v.sectorsPerCluster).isNone = false := by
  unfold BlockDev.read
  rw [if_pos ((transfer_iff hs hc).2 hon)]
  rfl

theorem Rewritten.getName (h : Rewritten v w f l size) (hs : Sound v.geom)
    (hslots : v.bytesPerCluster = 32 * v.slotCount)
    (hf : EntryOf v f) (hi : i.firstCluster = v.rootCluster ∨ i.dirCluster < 2 ∨ (EntryOf v i ∧ i.dirCluster ∉ l))
    (maxLen : Nat) : w.getName i maxLen = v.getName i maxLen := by
  have hroot : w.rootCluster = v.rootCluster := congrArg Geom.rootCluster h.geom
  have hb := bytes_congr h.geom
  unfold Exfat.getName
  rw [hroot]
  by_cases hr : i.firstCluster = v.rootCluster
  · rw [if_pos hr, if_pos hr]
  rcases hi with hc | hzero | ⟨hent, hap⟩
  · exact absurd hc hr
  · rw [if_pos hzero, if_pos hzero]
  · have hsw : Sound w.geom := by rwa [h.geom]
    have hiw : w.geom.Index i.dirCluster := by rw [h.geom]; exact hent.index
    have how : w.geom.OnDevice i.dirCluster := by rw [h.geom]; exact hent.onDevice
    have hin := hent.inside
    have hsame : SameSets v 0 (v.readCluster i.dirCluster blank) (w.readCluster i.dirCluster blank) := by
      have hvr : ∀ o, o < v.bytesPerCluster → v.readCluster i.dirCluster blank o = v.content i.dirCluster o :=
        fun o ho => readCluster_on hs hent.index hent.onDevice ho
      have hwr : ∀ o, o < v.bytesPerCluster → w.readCluster i.dirCluster blank o = w.content i.dirCluster o :=
        fun o ho => readCluster_on hsw hiw how (by rwa [hb])
      obtain ⟨htype, hcount, hname⟩ := h.sets hf hent.index hent.used hap
      refine ⟨fun q hq ho => ?_, fun q hq ho => ?_, fun q hq hn o h1 h2 ho => ?_⟩
      · rw [hvr _ ho, hwr _ ho]
        exact htype q hq ho
      · rw [hvr _ ho, hwr _ ho]
        exact hcount q hq ho
      · rw [hvr _ (by omega)] at hn
        rw [hvr _ ho, hwr _ ho]
        exact hname q hq hn o h1 h2 ho
    rw [dirRead_isNone hs hent.index hent.onDevice, dirRead_isNone hsw hiw how]
    simp only [hsame.type i.dirEntry (zero_le _) (by omega), hsame.count i.dirEntry (zero_le _) (by omega),
      nameLoop_same hslots hsame hb maxLen]

end

/-! ## The text -/

def fileByte (v : Exfat) (l : List Nat) (p : Nat) : BitVec 8 :=
  v.content (l.getD (p / v.bytesPerCluster) 0) (p % v.bytesPerCluster)

/-- The text is all that `read_file` gives once it is written from the start of the file: of the 32 bits of a larger
size just as many bytes are left, or the byte behind the text is 0; and else the write fits, into a file that has a
cluster. -/
def Overwrites (v : Exfat) (f : ExInode) (l : List Nat) (content : Name) : Prop :=
  if content.length < f.size then
    u32 f.size = content.length ∨ (content.length < u32 f.size ∧ v.fileByte l content.length = 0#8)
  else content = [] ∨ (l ≠ [] ∧ WriteFits v l 0 (fun i => content.getD i 0#8) content.length)

structure After (v w : Exfat) (f : ExInode) (l l' : List Nat) (buf : Mem) (n : Nat) : Prop where
  geom : w.geom = v.geom
  sector : w.bytesPerSector = v.bytesPerSector
  chain : w.Chain f.firstCluster l'
  pre : l <+: l'
  covers : n ≤ l'.length * v.bytesPerCluster
  old : ∀ p, p < l.length * v.bytesPerCluster → w.fileByte l p = if p < n then buf p else v.fileByte l p

section
variable {v w : Exfat} {f f' : ExInode} {l l' : List Nat} {buf heap stack : Mem} {n k : Nat} {s : Collect}
  {content : Name}

theorem Written.after (h : Written v f l 0 buf n w f' s l') (hsec : w.bytesPerSector = v.bytesPerSector)
    (hne : l ≠ []) : After v w f l l' buf n := by
  have hpre := h.reached.pre
  refine ⟨h.done.geom, hsec, ?_, hpre, ?_, fun p hp => ?_⟩
  · obtain ⟨e, he⟩ := h.file.chain.trail
    obtain ⟨e', he'⟩ := h.chain.trail
    rw [← he.start_prefix he' hpre hne]
    exact h.chain
  · have := h.end_le
    omega
  · have hb : 0 < v.bytesPerCluster := h.sound.bytes_pos
    have hq := div_lt_of_lt hp
    have hget := getD_prefix hpre hq
    have hafter := content_after h.sound h.file h.inside h.pos h.gathered h.reached h.done
      (hq.trans_le hpre.length_le) (mod_lt p hb) (by rw [hget]; exact h.file.onDevice _ (getD_mem hq))
    have hpd := div_add_mod' p v.bytesPerCluster
    unfold fileByte
    rw [h.bytes, ← hget, hafter, hpd, Nat.sub_zero, Nat.zero_add]
    simp only [zero_le, true_and]

theorem After.read (h : After v w f l l' buf n) (hs : Sound v.geom) (hlay : Layout v) (hf : FileOk v f l) (hne : l ≠ [])
    (hpos : 0 < max f.size n) (stack heap : Mem) :
    ∃ m, w.sync.read stack { f with size := max f.size n, dataLength := max f.size n } 0 heap (u32 (max f.size n)) =
        .ok (m, some (u32 (max f.size n))) ∧
      ∀ p, p < u32 (max f.size n) → ∃ i, v.LastOn l' (p / v.bytesPerCluster) i ∧
        m p = w.content (l'.getD i 0) (p % v.bytesPerCluster) := by
  have hgs : w.sync.geom = v.geom := (geom_sync w).trans h.geom
  have hss : Sound w.sync.geom := by rwa [hgs]
  have hsw : Sound w.geom := by rwa [h.geom]
  have hb := bytes_congr hgs
  have hbp : 0 < v.bytesPerCluster := hs.bytes_pos
  have hch : w.sync.Chain f.firstCluster l' :=
    h.chain.congr (geom_sync w) (fun x hx => fatCache_sync w (h.chain.index x hx).1)
  have hlpos : 0 < l.length := length_pos_iff.2 hne
  have hlen := h.pre.length_le
  have hcov : max f.size n ≤ l'.length * v.bytesPerCluster :=
    Nat.max_le.2 ⟨hf.covers.trans (Nat.mul_le_mul_right _ hlen), h.covers⟩
  have hle : u32 (max f.size n) ≤ max f.size n := Nat.mod_le _ _
  have h32 : u32 (max f.size n) < 2 ^ 32 := Nat.mod_lt _ (by decide)
  obtain ⟨m, hm, hbyte⟩ := @read_eq w.sync { f with size := max f.size n, dataLength := max f.size n } l' 0
    (u32 (max f.size n)) hss hch stack heap hpos (by rw [Nat.zero_div]; omega) h32 (by omega)
  have hcount : min (min (u32 (max f.size n)) (max f.size n - 0)) (l'.length * w.sync.bytesPerCluster - 0) =
      u32 (max f.size n) := by
    rw [hb]
    omega
  rw [hcount] at hm hbyte
  refine ⟨m, hm, fun p hp => ?_⟩
  have hval := hbyte p hp
  rw [Nat.zero_div, Nat.zero_add, Nat.sub_zero, drop_zero, hb] at hval
  have hj : p / v.bytesPerCluster < l'.length := (Nat.div_lt_iff_lt_mul hbp).2 (by omega)
  rcases held_cases hss (fun y hy => hch.index y hy) stack (by rw [hb]; exact Nat.mod_lt p hbp) hj with
    ⟨i, hlast, heq⟩ | ⟨hnone, -⟩
  · refine ⟨i, hlast.congr hgs.symm (fun _ _ => rfl), ?_⟩
    rw [hval, heq, content_sync hsw (hlay.congr h.geom h.sector)]
  · -- the first cluster of the file is on the device
    have hfirst := hnone 0 (Nat.zero_le _)
    rw [hgs, getD_prefix h.pre hlpos] at hfirst
    exact absurd (hf.onDevice _ (getD_mem hlpos)) hfirst

theorem After.old_byte (h : After v w f l l' buf n) (hf : FileOk v f l) {p i : Nat}
    (hp : p < l.length * v.bytesPerCluster) (hlast : v.LastOn l' (p / v.bytesPerCluster) i) :
    w.content (l'.getD i 0) (p % v.bytesPerCluster) = if p < n then buf p else v.fileByte l p := by
  have hb := bytes_congr h.geom
  have hq := div_lt_of_lt hp
  have hget := getD_prefix h.pre hq
  have hself : v.LastOn l' (p / v.bytesPerCluster) (p / v.bytesPerCluster) :=
    .self (by rw [hget]; exact hf.onDevice _ (getD_mem hq))
  rw [hlast.unique hself, hget, ← h.old p hp]
  unfold fileByte
  rw [hb]

theorem After.text_of_longer (h : After v w f l l' (fun i => content.getD i 0#8) content.length) (hs : Sound v.geom)
    (hlay : Layout v) (hf : FileOk v f l) (hne : l ≠ []) (hlt : content.length < f.size) (hnul : 0#8 ∉ content)
    (stack heap : Mem) :
    ReadsText (w.sync.read stack { f with size := max f.size content.length, dataLength := max f.size content.length }
      0 heap
        (u32 (max f.size content.length))) content ↔
      (u32 f.size = content.length ∨ (content.length < u32 f.size ∧ v.fileByte l content.length = 0#8)) := by
  have hmax : max f.size content.length = f.size := by omega
  obtain ⟨m, hr, hm⟩ := h.read hs hlay hf hne (by omega) stack heap
  rw [hmax] at hr hm ⊢
  have hle : u32 f.size ≤ f.size := mod_le _ _
  have hcov := hf.covers
  have hbyte : ∀ p, p < u32 f.size → m p = if p < content.length then content.getD p 0#8 else v.fileByte l p := by
    intro p hp
    obtain ⟨i, hlast, heq⟩ := hm p hp
    rw [heq, h.old_byte hf (by omega) hlast]
  have hend : content.length < u32 f.size → m content.length = v.fileByte l content.length := fun hlt => by
    rw [hbyte _ hlt, if_neg (lt_irrefl _)]
  rw [readsText_iff hr, cString_range hnul (fun i h1 h2 => by rw [hbyte i h1, if_pos h2])]
  exact or_congr Iff.rfl (and_congr_right (fun hlt => by rw [hend hlt]))

theorem Written.text (h : Written v f l 0 (fun i => content.getD i 0#8) content.length w f' s l') (hlay : Layout v)
    (hsec : w.bytesPerSector = v.bytesPerSector) (hne : l ≠ []) (hge : f.size ≤ content.length) (hnul : 0#8 ∉ content)
    (stack heap : Mem) :
    ReadsText (w.sync.read stack { f with size := max f.size content.length, dataLength := max f.size content.length }
      0 heap
        (u32 (max f.size content.length))) content ↔
      WriteFits v l 0 (fun i => content.getD i 0#8) content.length := by
  have hpos := h.pos
  have hb : 0 < v.bytesPerCluster := h.sound.bytes_pos
  have hmax : max f.size content.length = content.length := by omega
  have hu : u32 content.length = content.length := u32_of_lt h.word
  obtain ⟨m, hr, hm⟩ := (h.after hsec hne).read h.sound hlay h.file hne (by omega) stack heap
  rw [hmax, hu] at hr hm ⊢
  -- the byte read at each place is the one that `WriteFits` looks at
  have hbyte : ∀ p, p < content.length →
      ∃ i, v.LastOn (v.writeClusters l 0) (p / v.bytesPerCluster - 0 / v.bytesPerCluster) i ∧
        m p = v.writtenByte l 0 (fun i => content.getD i 0#8) content.length i (p % v.bytesPerCluster) := fun p hp => by
    obtain ⟨i, hlast, heq⟩ := hm p hp
    obtain ⟨hneed, hj⟩ := h.number_lt (Nat.zero_le p) (by omega)
    rw [Nat.zero_div] at hneed hj ⊢
    rw [drop_zero] at hj
    have hplace : ∀ j, j ≤ p / v.bytesPerCluster → l'.getD j 0 = (v.writeClusters l 0).getD j 0 := fun j hj' => by
      have := h.reached.place j (by omega)
      rwa [Nat.zero_div, Nat.zero_add] at this
    have hi := hlast.1
    refine ⟨i, hlast.congr rfl (fun j hj' => (hplace j hj').symm), ?_⟩
    have hafter := content_after h.sound h.file h.inside h.pos h.gathered h.reached h.done
      (show i < l'.length by omega) (Nat.mod_lt p hb) hlast.2.1
    rw [heq, hafter, hplace i hi]
    unfold writtenByte
    simp only [Nat.zero_div, Nat.zero_add]
  rw [readsText_iff hr, cString_range_full hnul]
  constructor
  · intro hc
    refine ⟨.inl (by rw [Nat.zero_div]; exact length_pos_iff.2 hne), fun p _ hp => ?_⟩
    rw [Nat.zero_add] at hp
    obtain ⟨i, hlast, heq⟩ := hbyte p hp
    exact ⟨i, hlast, by rw [← heq, hc p hp, Nat.sub_zero]⟩
  · rintro ⟨-, hfit⟩ p hp
    obtain ⟨i, hlast, heq⟩ := hbyte p hp
    obtain ⟨i', hlast', hval⟩ := hfit p (Nat.zero_le p) (by omega)
    rw [heq, hlast.unique hlast', hval, Nat.sub_zero]

/-- **The text that is read back** after a write from the start of a file. -/
theorem text_iff (hs : Sound v.geom) (hlay : Layout v) (hf : FileOk v f l) (hnul : 0#8 ∉ content)
    (hn : content.length < 2 ^ 32)
    (hw : v.write f 0 (fun i => content.getD i 0#8) content.length = (w, f', some k)) (stack heap : Mem) :
    ReadsText (w.sync.read stack { f with size := max f.size content.length, dataLength := max f.size content.length }
      0 heap
        (u32 (max f.size content.length))) content ↔
      Overwrites v f l content := by
  have hcov := hf.covers
  obtain ⟨rfl, hrew, -⟩ := write_rewritten hs hf hn hw
  unfold Overwrites
  by_cases hne : l = []
  · -- the stream entry of an empty file keeps its first cluster
    have hz : f.size = 0 := by
      rw [hne, length_nil] at hcov
      omega
    rw [if_neg (by omega)]
    rcases content with _ | ⟨b, bs⟩
    · refine iff_of_true ⟨heap, 0, ?_, rfl⟩ (.inl rfl)
      exact if_pos (by simp [hz])
    refine iff_of_false ?_ ?_
    · rintro ⟨m, j, hr, hc⟩
      have hgs : w.sync.geom = v.geom := (geom_sync w).trans hrew.geom
      have hch : w.sync.Chain f.firstCluster [] := by
        have h0 := hf.chain
        rw [hne] at h0
        exact h0.congr hgs (fun x hx => by cases hx)
      have hnone : ∀ i : ExInode, i.firstCluster = f.firstCluster → 0 < i.size → ∀ k,
          w.sync.read stack i 0 heap k = .ok (heap, none) ∨ w.sync.read stack i 0 heap k = .ok (heap, some 0) := by
        intro i hi hpos k
        rw [← hi] at hch
        exact read_behind (by rwa [hgs]) hch hpos (Nat.zero_le _) (by rw [Nat.zero_div]; decide)
      have hlast := hnone { f with size := max f.size (b :: bs).length, dataLength := max f.size (b :: bs).length } rfl
        ((Nat.succ_pos _).trans_le (Nat.le_max_right ..)) (u32 (max f.size (b :: bs).length))
      rcases hlast with h0 | h0
      · rw [h0] at hr
        simp at hr
      · rw [h0] at hr
        cases hr
        cases hc
    · rintro (hc | ⟨hc, -⟩)
      · cases hc
      · exact hc hne
  rcases Nat.eq_zero_or_pos content.length with hzero | hpos
  · -- nothing is written
    obtain rfl : content = [] := length_eq_zero_iff.1 hzero
    have hvw : v = w := by exact congrArg Prod.fst hw
    subst hvw
    split
    · rename_i hlt
      have hafter : After v v f l l (fun i => ([] : Name).getD i 0#8) ([] : Name).length :=
        ⟨rfl, rfl, hf.chain, prefix_rfl, Nat.zero_le _, fun p _ => by rw [if_neg (by simp)]⟩
      exact hafter.text_of_longer hs hlay hf hne hlt hnul stack heap
    · rename_i hge
      refine iff_of_true ⟨heap, 0, ?_, rfl⟩ (.inl rfl)
      exact if_pos (by simpa using hge)
  obtain ⟨s, l', hg, hd⟩ := write_done hs hf (Nat.zero_le _) hpos hn hw
  have ha : 0 / v.bytesPerCluster < l.length ∨ l = [] := .inl (by
    rw [Nat.zero_div]
    exact length_pos_iff.2 hne)
  have h : Written v f l 0 (fun i => content.getD i 0#8) content.length w f' s l' :=
    ⟨hs, hf, Nat.zero_le _, hpos, hn, hg, hg.reached hpos ha, hd⟩
  split
  · rename_i hlt
    exact (h.after hrew.sector hne).text_of_longer hs hlay hf hne hlt hnul stack heap
  · rw [h.text hlay hrew.sector hne (by omega) hnul stack heap]
    exact ⟨fun hfit => .inr ⟨hne, hfit⟩, fun hc => hc.elim (fun hc => absurd hc (ne_nil_of_length_pos hpos)) (·.2)⟩

end

end Exfat

end OS64
