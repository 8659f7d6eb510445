import OS64.FatOverwrite
import OS64.Text
/-!
# FatReopen — an overwritten file, found and read again

What is found in the directories after a write from the start of a file is what was found before, but for the file's
size (`Rewritten.lookup`), and so are the names (`Rewritten.getName`).  The text that the file then holds is the text
written if the file was not longer, or if its old byte behind the text is 0, and if the write fits (`text_iff`).
-/
namespace OS64

open List Nat

namespace Fat32

/-! ## Entries -/

structure EntryOf (v : Fat32) (i : Inode) : Prop where
  index : v.geom.Index i.dirCluster
  onDevice : v.geom.OnDevice i.dirCluster
  used : v.fatCache i.dirCluster ≠ free
  slot : ∃ k, k < v.slotCount ∧ i.entryOffset = 32 * k
  size : i.size = entSize (v.content i.dirCluster) i.entryOffset
  mode : i.mode = if entAttr (v.content i.dirCluster) i.entryOffset &&& attrDirectory = 0 then ftRegFile else ftDir

/-- The inode with a new size, if its entry is that of the file `f`. -/
def resize (f : Inode) (size : Nat) (i : Inode) : Inode :=
  if i.mode = ftRegFile ∧ i.dirCluster = f.dirCluster ∧ i.entryOffset = f.entryOffset then { i with size := size }
    else i

section
variable {v w : Fat32} {dir f i : Inode} {l dl : List Nat} {name : Name} {m n o size : Nat}

theorem inodeOf_entry (hd : DirOk v dir dl) (hn : n < dl.length * v.slotCount) : EntryOf v (v.inodeOf dir dl n) := by
  have hk := div_lt_of_lt hn
  have hmem := getD_mem hk
  exact ⟨hd.chain.index _ hmem, hd.onDevice _ hmem, hd.chain.used _ hmem,
    ⟨n % v.slotCount, mod_lt _ (slotCount_pos hd.sound), rfl⟩, rfl, rfl⟩

theorem lookup_entry (hd : DirOk v dir dl) (h : v.lookup dir name = .ok (some i)) :
    EntryOf v i ∧ i.dirCluster ∈ dl := by
  rcases lookup_cases hd name with ⟨hnone, -⟩ | ⟨n, hsome, hfound⟩
  · rw [hnone] at h
    cases h
  · rw [hsome] at h
    cases h
    exact ⟨inodeOf_entry hd hfound.lt, getD_div_mem hfound.lt⟩

theorem EntryOf.size_lt (h : EntryOf v i) : i.size < 2 ^ 32 := by
  rw [h.size]
  exact load_lt _ 4 _

theorem resize_self (hmode : f.mode = ftRegFile) (size : Nat) : resize f size f = { f with size := size } :=
  if_pos ⟨hmode, rfl, rfl⟩

theorem resize_dir (hmode : i.mode = ftDir) (size : Nat) : resize f size i = i :=
  if_neg (fun h => by
    rw [hmode] at h
    exact absurd h.1 (by decide))

theorem resize_eq (f : Inode) (size : Nat) (i : Inode) : resize f size i =
    { i with size := (resize f size i).size } := by
  unfold resize
  split <;> rfl

/-! ## Lookups in the volume after the write -/

section
variable (h : Rewritten v w f l size)
include h

theorem Rewritten.chain {c : Nat} (hch : v.Chain c dl) (hap : ∀ x ∈ dl, x ∉ l) : w.Chain c dl :=
  hch.congr h.geom (fun x hx => h.cache x (hch.used x hx) (hap x hx))

theorem Rewritten.dirOk (hd : DirOk v dir dl) (hap : ∀ x ∈ dl, x ∉ l) : DirOk w dir dl :=
  ⟨by rw [h.geom]; exact hd.sound, h.chain hd.chain hap, fun x hx => by rw [h.geom]; exact hd.onDevice x hx,
    hd.nonempty⟩

theorem Rewritten.byte (hs : v.geom.Sound) (hf : EntryOf v f) {d k : Nat}
    (hd : v.geom.Index d) (hused : v.fatCache d ≠ free) (hap : d ∉ l) (hk : k < v.slotCount) (ho : o < 32)
    (hfield : d ≠ f.dirCluster ∨ 32 * k ≠ f.entryOffset ∨ o < 22 ∨ (26 ≤ o ∧ o < 28)) :
    w.content d (32 * k + o) = v.content d (32 * k + o) := by
  have hbytes := slotCount_bytes hs
  obtain ⟨j, -, hj⟩ := hf.slot
  refine h.content d _ hd hused hap (by omega) ?_
  rcases hfield with hne | hfield
  · exact .inl hne
  · exact .inr (by omega)

section
variable (hf : EntryOf v f) (hmode : f.mode = ftRegFile) (hd : DirOk v dir dl) (hap : ∀ x ∈ dl, x ∉ l)
include hf hmode hd hap

theorem Rewritten.inodeOf (hm : m < dl.length * v.slotCount) :
    w.inodeOf dir dl m = resize f (max f.size size) (v.inodeOf dir dl m) := by
  have hpos := slotCount_pos hd.sound
  have hk := div_lt_of_lt hm
  have hmod := mod_lt m hpos
  have hmem := getD_mem hk
  have hent := inodeOf_entry hd hm
  have hsc := slotCount_geom h.geom
  unfold Fat32.inodeOf at hent ⊢
  rw [hsc]
  generalize hc : dl.getD (m / v.slotCount) 0 = c at *
  generalize m % v.slotCount = k at *
  have hbyte : ∀ o, o < 32 → (c ≠ f.dirCluster ∨ 32 * k ≠ f.entryOffset ∨ o < 22 ∨ (26 ≤ o ∧ o < 28)) →
      w.content c (32 * k + o) = v.content c (32 * k + o) :=
    fun o ho hfield => h.byte hd.sound hf (hd.chain.index _ hmem) (hd.chain.used _ hmem) (hap _ hmem) hmod ho hfield
  have hattr : entAttr (w.content c) (32 * k) = entAttr (v.content c) (32 * k) := by
    unfold entAttr
    rw [hbyte 11 (by decide) (by omega)]
  have hcl : entCluster (w.content c) (32 * k) = entCluster (v.content c) (32 * k) := by
    have hload : ∀ a, a = 20 ∨ a = 26 → load (w.content c) (32 * k + a) 2 = load (v.content c) (32 * k + a) 2 :=
      fun a ha => load_congr (fun i hi => by rw [add_assoc]; exact hbyte _ (by omega) (by omega))
    unfold entCluster
    rw [hload 20 (.inl rfl), hload 26 (.inr rfl)]
  unfold resize inodeAt
  rw [hattr, hcl]
  have hreg : c = f.dirCluster ∧ 32 * k = f.entryOffset →
      (if entAttr (v.content c) (32 * k) &&& attrDirectory = 0 then ftRegFile else ftDir) = ftRegFile := by
    rintro ⟨h1, h2⟩
    have := hf.mode
    rw [hmode, ← h1, ← h2] at this
    exact this.symm
  generalize (if entAttr (v.content c) (32 * k) &&& attrDirectory = 0 then ftRegFile else ftDir) = mode at *
  by_cases hself : c = f.dirCluster ∧ 32 * k = f.entryOffset
  · have hbytes := slotCount_bytes hd.sound
    have hsize : entSize (w.content c) (32 * k) = max f.size size := by
      have hold := hf.size
      have hnew := h.entry hf.onDevice (by omega)
      rw [hself.1, hself.2, hnew]
      split <;> omega
    rw [if_pos ⟨hreg hself, hself⟩, hsize]
  · have hsize : entSize (w.content c) (32 * k) = entSize (v.content c) (32 * k) :=
      load_congr (fun i hi => by
        rw [add_assoc]
        exact hbyte _ (by omega) (by omega))
    rw [if_neg (fun hc => hself hc.2), hsize]

/-- **What is found after the write** is what was found before, but for the size of the file. -/
theorem Rewritten.lookup (name : Name) :
    w.lookup dir name = (v.lookup dir name).bind (fun r => .ok (r.map (resize f (max f.size size)))) := by
  have hsc := slotCount_geom h.geom
  have hpos := slotCount_pos hd.sound
  have hdw := h.dirOk hd hap
  have hhead : ∀ m, m < dl.length * v.slotCount → SameHead (v.slot dl m) (w.slot dl m) := fun m hm o ho => by
    have hmem := getD_div_mem hm
    unfold Fat32.slot
    rw [hsc]
    exact (h.byte hd.sound hf (hd.chain.index _ hmem) (hd.chain.used _ hmem) (hap _ hmem) (mod_lt m hpos) (by omega)
      (by omega)).symm
  rcases lookup_cases hd name with ⟨hnone, hno⟩ | ⟨n, hsome, hfound⟩
  · rw [hnone]
    rcases lookup_cases hdw name with ⟨hnone', -⟩ | ⟨n, -, hfound⟩
    · exact hnone'
    · rw [hsc] at hfound
      have hback := hfound.of_head (fun m hm => (hhead m hm).symm)
      exact absurd hback.name_eq (hno n hback.lt hback.main)
  · rw [hsome]
    have hthere : FoundAt (w.slot dl) (dl.length * w.slotCount) name n := by
      rw [hsc]
      exact hfound.of_head hhead
    rw [lookup_found hdw hthere, h.inodeOf hf hmode hd hap hfound.lt]
    rfl

end

theorem Rewritten.getName (hs : v.geom.Sound) (hf : EntryOf v f)
    (hi : i.firstCluster = v.rootCluster ∨ i.dirCluster = 0 ∨ (EntryOf v i ∧ i.dirCluster ∉ l)) :
    w.getName i = v.getName i := by
  have hroot : w.rootCluster = v.rootCluster := congrArg Geom.rootCluster h.geom
  unfold Fat32.getName
  rw [hroot]
  by_cases hr : i.firstCluster = v.rootCluster
  · rw [if_pos hr, if_pos hr]
  rcases hi with hc | hzero | ⟨hent, hap⟩
  · exact absurd hc hr
  · rw [hzero]
    rfl
  · obtain ⟨k, hk, hoff⟩ := hent.slot
    have hname : entName (w.content i.dirCluster) i.entryOffset = entName (v.content i.dirCluster) i.entryOffset := by
      refine map_congr_left (fun o ho => ?_)
      have := mem_range.1 ho
      rw [hoff]
      exact h.byte hs hf hent.index hent.used hap hk (by omega) (by omega)
    rw [readCluster_on hs hent.index hent.onDevice,
      readCluster_on (by rwa [h.geom]) (by rw [h.geom]; exact hent.index) (by rw [h.geom]; exact hent.onDevice)]
    simp only [Option.map_some, hname]

end

end

/-! ## The clusters after the write -/

structure Full (v w : Fat32) (l l' : List Nat) (buf : Mem) (n : Nat) : Prop where
  pre : l <+: l'
  covers : n ≤ l'.length * v.bytesPerCluster
  onDevice : ∀ x ∈ l', v.geom.OnDevice x
  byte : ∀ p, p < l'.length * v.bytesPerCluster → w.fileByte l' p = if p < n then buf p else v.fileByte l' p

/-- The clusters `l'` end before the end of the file, or one of them is not on the device. -/
def Lacking (v : Fat32) (l' : List Nat) (n : Nat) : Prop :=
  l'.length * v.bytesPerCluster < n ∨ ∃ k, k < l'.length ∧ k * v.bytesPerCluster < n ∧ ¬ v.geom.OnDevice (l'.getD k 0)

section
variable {v w u : Fat32} {f f' i : Inode} {l l' : List Nat} {buf heap : Mem} {n : Nat} {t : Rtc} {s : Collect}

theorem Done.chain_of (hd : Done v f 0 buf n s w f') (hch : s.vol.Chain s.inode.firstCluster l')
    (hf : v.Chain f.firstCluster l) (hpre : l <+: l') (hne : l ≠ []) : w.Chain f.firstCluster l' := by
  obtain ⟨e, he⟩ := hf.trail
  obtain ⟨e', he'⟩ := (hd.chain hch).trail
  rw [← he.start_prefix he' hpre hne]
  exact hd.chain hch

/-- **The clusters of a file after a write from its start**: they hold the text exactly when the write fits. -/
theorem overwrite_cases (hs : v.geom.Sound) (hf : FileOk v f l) (hne : l ≠ []) (hpos : 0 < n) (hn : n < 2 ^ 32)
    (hw : v.write t f 0 buf n = .ok (w, f', some n)) : ∃ l', l <+: l' ∧ w.Chain f.firstCluster l' ∧
      ((WriteFits v l.length 0 n ∧ Full v w l l' buf n) ∨
        (¬ WriteFits v l.length 0 n ∧ l.length * v.bytesPerCluster < n ∧ Lacking v l' n)) := by
  have hb : 0 < v.bytesPerCluster := hs.bytes_pos
  have h0 : 0 / v.bytesPerCluster = 0 := Nat.zero_div _
  have hed := div_mul_le_self (0 + n - 1) v.bytesPerCluster
  have hlpos : 0 < l.length := length_pos_iff.2 hne
  have ha : Attached (0 / v.bytesPerCluster) l := .inl (by omega)
  obtain ⟨s, e, hcol, hdone⟩ := write_done hs hf (zero_le _) hpos hn hw
  generalize hj : (0 + n - 1) / v.bytesPerCluster - 0 / v.bytesPerCluster + 1 = j at hcol
  have hjn : 0 / v.bytesPerCluster + j = (0 + n - 1) / v.bytesPerCluster + 1 := by
    rw [← hj, h0, Nat.zero_add, Nat.sub_zero]
  -- a chain that has all the clusters written
  have hfull : ∀ l', l <+: l' → Ready v f l' (0 / v.bytesPerCluster) j s → Done v f 0 buf n s w f' →
      f.dirCluster ∉ l' → (∀ x ∈ l', v.geom.OnDevice x) → Full v w l l' buf n := fun l' hpre hr hd hdir hon => by
    refine ⟨hpre, ?_, hon, fun p hp => ?_⟩
    · have hlen := hr.length
      have := (div_lt_iff_lt_mul hb).1 (show (0 + n - 1) / v.bytesPerCluster < l'.length by omega)
      omega
    · rw [hr.fileByte hs hpos hjn hd hdir hon hp, Nat.zero_add, Nat.sub_zero]
      simp only [zero_le, true_and]
  rcases hcol with ⟨hin, hwalk⟩ | ⟨heq, z, hfirst⟩ | ⟨hbeyond, news, z, hgrown⟩
  · have hr := hwalk.ready hf.chain hin
    have hd := hdone hr.geom hr.inode
    refine ⟨l, prefix_rfl, hd.chain_of hr.chain hf.chain prefix_rfl hne, .inl ⟨.inl (by omega), ?_⟩⟩
    exact hfull l prefix_rfl hr hd hf.dirApart hf.onDevice
  · have hd := hdone hfirst.grown.geom hfirst.grown.inode
    have hz : v.allocCluster.2 = z := by rw [hfirst.alloc]
    have hr := hfirst.ready ha heq (by omega)
    have hpre : l <+: l ++ [z] := prefix_append l [z]
    have hlast : (0 + n - 1) / v.bytesPerCluster = l.length := by omega
    rw [hlast] at hed
    refine ⟨l ++ [z], hpre, hd.chain_of hr.chain hf.chain hpre hne, ?_⟩
    by_cases hon : v.geom.OnDevice z
    · refine .inl ⟨.inr ⟨hlast, .inl (by omega), by rwa [hz]⟩, hfull _ hpre hr hd ?_ ?_⟩
      · intro hmem
        rcases mem_append.1 hmem with hmem | hmem
        · exact hf.dirApart hmem
        · exact hf.dirUsed (mem_singleton.1 hmem ▸ hfirst.wasFree)
      intro x hx
      rcases mem_append.1 hx with hx | hx
      · exact hf.onDevice x hx
      · rwa [mem_singleton.1 hx]
    · refine .inr ⟨?_, by omega, .inr ⟨l.length, by simp, by omega, ?_⟩⟩
      · rintro (h | ⟨-, -, h⟩)
        · omega
        · exact hon (hz ▸ h)
      · rwa [getD_append_right _ _ _ _ le_rfl, Nat.sub_self]
  · have hd := hdone hgrown.geom hgrown.inode
    have hpre : l <+: l ++ news ++ [z] := by
      rw [append_assoc]
      exact prefix_append l _
    have hlen : (l ++ news ++ [z]).length ≤ (0 + n - 1) / v.bytesPerCluster := by
      have := hgrown.length
      rw [length_append, length_append, length_singleton]
      omega
    have hle := mul_le_mul_right v.bytesPerCluster hlen
    have hll : l.length * v.bytesPerCluster ≤ (l ++ news ++ [z]).length * v.bytesPerCluster :=
      mul_le_mul_right _ hpre.length_le
    refine ⟨l ++ news ++ [z], hpre, hd.chain_of (hgrown.chain ha) hf.chain hpre hne,
      .inr ⟨?_, by omega, .inl (by omega)⟩⟩
    rintro (h | ⟨h, -⟩) <;> omega

/-! ## Reading the whole file -/

theorem read_all (hs : u.geom.Sound) (hch : u.Chain i.firstCluster l') (hon : ∀ x ∈ l', u.geom.OnDevice x)
    (hcov : i.size ≤ l'.length * u.bytesPerCluster) (hsize : i.size < 2 ^ 32) (heap : Mem) :
    ∃ m, u.read i 0 heap i.size = .ok (m, some i.size) ∧ ∀ p, p < i.size → m p = u.fileByte l' p := by
  rcases Nat.eq_zero_or_pos i.size with hz | hpos
  · refine ⟨heap, ?_, fun p hp => absurd hp (by omega)⟩
    unfold read
    rw [if_pos (by omega), hz]
  have hlen : 0 < l'.length := Nat.pos_of_ne_zero (fun hc => by rw [hc] at hcov; omega)
  rcases read_cases hs hch heap hpos (by rwa [Nat.zero_div]) hsize (by omega) rfl with
    ⟨m, hr, hm, -⟩ | ⟨m, k, -, hk, -, hoff⟩
  · have hall : min (min i.size (i.size - 0)) (l'.length * u.bytesPerCluster - 0) = i.size := by omega
    rw [hall] at hr hm
    refine ⟨m, hr, fun p hp => ?_⟩
    rw [hm p hp, zero_add]
  · exact absurd (hon _ (getD_mem hk)) hoff

theorem read_lacking (hs : u.geom.Sound) (hch : u.Chain i.firstCluster l') (hne : l' ≠ []) (h : Lacking u l' i.size)
    (hsize : i.size < 2 ^ 32) (hpos : 0 < i.size) {m : Mem} {j : Nat}
    (hr : u.read i 0 heap i.size = .ok (m, some j)) : j < i.size := by
  rcases read_cases hs hch heap hpos (by rw [Nat.zero_div]; exact length_pos_iff.2 hne) hsize (by omega) rfl with
    ⟨m', hr', -, -, hon⟩ | ⟨m', k, hr', -⟩
  · rw [hr'] at hr
    simp only [Res.ok.injEq, Prod.mk.injEq, Option.some.injEq] at hr
    rcases h with hshort | ⟨k, hk, hlt, hoff⟩
    · omega
    · exact absurd (hon k (by omega) hk (by rw [Nat.zero_div]; exact Nat.zero_le _) (by omega)) hoff
  · rw [hr'] at hr
    simp at hr

end

/-! ## The text -/

/-- The text is all that the file holds once it is written from the start: the file was not longer, or its byte behind
the text is 0; and the write fits, into a file that has a cluster. -/
def Overwrites (v : Fat32) (f : Inode) (l : List Nat) (content : Name) : Prop :=
  if content.length < f.size then v.fileByte l content.length = 0#8
  else content = [] ∨ (l ≠ [] ∧ WriteFits v l.length 0 content.length)

section
variable {v w : Fat32} {f f' : Inode} {l l' : List Nat} {content : Name} {t : Rtc} {k : Nat}

theorem fileByte_sync (hs : w.geom.Sound) (hlay : Layout w) (l : List Nat) (p : Nat) :
    w.sync.fileByte l p = w.fileByte l p := by
  have hb : w.sync.bytesPerCluster = w.bytesPerCluster := congrArg Geom.bytesPerCluster (geom_sync w)
  unfold fileByte
  rw [hb, content_sync hs hlay]

theorem Full.text (h : Full v w l l' (fun i => content.getD i 0#8) content.length) (hs : v.geom.Sound) (hlay : Layout v)
    (hg : w.geom = v.geom) (hch : w.Chain f.firstCluster l') (hcov : f.size ≤ l.length * v.bytesPerCluster)
    (hsize : f.size < 2 ^ 32) (hn : content.length < 2 ^ 32) (hnul : 0#8 ∉ content) (heap : Mem) :
    ReadsText (w.sync.read { f with size := max f.size content.length } 0 heap (max f.size content.length)) content ↔
      (content.length < f.size → v.fileByte l content.length = 0#8) := by
  have hsw : w.geom.Sound := by rwa [hg]
  have hgs : w.sync.geom = v.geom := (geom_sync w).trans hg
  have hbs := bytes_congr hgs
  have hlen : l.length * v.bytesPerCluster ≤ l'.length * v.bytesPerCluster := mul_le_mul_right _ h.pre.length_le
  have hfull := h.covers
  have hread := @read_all w.sync { f with size := max f.size content.length } l' (by rwa [hgs])
    (hch.congr (geom_sync w) (fun x _ => by rw [fatCache_sync])) (fun x hx => by rw [hgs]; exact h.onDevice x hx)
    (by rw [hbs]; exact Nat.max_le.2 ⟨hcov.trans hlen, hfull⟩) (Nat.max_lt.2 ⟨hsize, hn⟩) heap
  obtain ⟨m, hr, hm⟩ := hread
  dsimp only at hr hm
  have hbyte : ∀ p, p < max f.size content.length →
      m p = if p < content.length then content.getD p 0#8 else v.fileByte l' p := fun p hp => by
    rw [hm p hp, fileByte_sync hsw (hlay.congr hg), h.byte p (by omega)]
  have hend : content.length < f.size → m content.length = v.fileByte l content.length := fun hlt => by
    rw [hbyte _ (by omega), if_neg (lt_irrefl _)]
    have hq : content.length / v.bytesPerCluster < l.length := (div_lt_iff_lt_mul hs.bytes_pos).2 (hlt.trans_le hcov)
    unfold fileByte
    rw [ getD_prefix h.pre hq]
  rw [readsText_iff hr, cString_range hnul (fun i h1 h2 => by rw [hbyte i h1, if_pos h2])]
  constructor
  · rintro (heq | ⟨-, hz⟩) hlt
    · omega
    · rwa [← hend hlt]
  · intro hcond
    rcases lt_or_ge content.length f.size with hlt | hge
    · exact .inr ⟨by omega, by rw [hend hlt]; exact hcond hlt⟩
    · exact .inl (by omega)

/-- **The text that is read back** after a write from the start of a file. -/
theorem text_iff (hs : v.geom.Sound) (hlay : Layout v) (hf : FileOk v f l) (hsize : f.size < 2 ^ 32)
    (hnul : 0#8 ∉ content) (hn : content.length < 2 ^ 32)
    (hw : v.write t f 0 (fun i => content.getD i 0#8) content.length = .ok (w, f', some k)) (heap : Mem) :
    ReadsText (w.sync.read { f with size := max f.size content.length } 0 heap (max f.size content.length)) content ↔
      Overwrites v f l content := by
  have hcov := hf.covers
  unfold Overwrites
  by_cases hne : l = []
  · -- the entry of an empty file keeps its first cluster 0
    have hz : f.size = 0 := by
      rw [hne, length_nil] at hcov
      omega
    rw [if_neg (by omega)]
    rcases content with _ | ⟨b, bs⟩
    · refine iff_of_true ⟨heap, 0, ?_, rfl⟩ (.inl rfl)
      exact if_pos (by simp [hz])
    refine iff_of_false ?_ ?_
    · rintro ⟨m, j, hr, -⟩
      have hnone := @read_unallocated w.sync { f with size := max f.size (b :: bs).length }
        ((succ_pos _).trans_le (le_max_right ..)) (hf.chain.start hne) heap (max f.size (b :: bs).length)
      rw [hnone] at hr
      simp at hr
    · rintro (hc | ⟨hc, -⟩)
      · cases hc
      · exact hc hne
  rcases Nat.eq_zero_or_pos content.length with hzero | hpos
  · -- nothing is written
    obtain rfl : content = [] := length_eq_zero_iff.1 hzero
    have hvw : v = w := by exact congrArg Prod.fst (Res.ok.inj hw)
    subst hvw
    have hfull : Full v v l l (fun i => ([] : Name).getD i 0#8) ([] : Name).length :=
      ⟨prefix_rfl, zero_le _, hf.onDevice, fun p _ => by rw [if_neg (by simp)]⟩
    rw [hfull.text hs hlay rfl hf.chain hcov hsize hn hnul heap]
    split
    · rename_i hlt
      exact ⟨fun h => h hlt, fun h _ => h⟩
    · rename_i hge
      exact iff_of_true (fun hlt => absurd hlt hge) (.inl rfl)
  obtain ⟨rfl, hrew, -⟩ := write_rewritten hs hf hn hw
  obtain ⟨l', hpre, hch, hcase⟩ := overwrite_cases hs hf hne hpos hn hw
  have hcne : content ≠ [] := ne_nil_of_length_pos hpos
  rcases hcase with ⟨hfits, hfull⟩ | ⟨hnot, hlong, hlack⟩
  · rw [hfull.text hs hlay hrew.geom hch hcov hsize hn hnul heap]
    split
    · rename_i hlt
      exact ⟨fun h => h hlt, fun h _ => h⟩
    · rename_i hge
      exact iff_of_true (fun hlt => absurd hlt hge) (.inr ⟨hne, hfits⟩)
  · have hmax : max f.size content.length = content.length := by omega
    rw [if_neg (by omega)]
    refine iff_of_false ?_ (fun h => h.elim hcne (fun h => hnot h.2))
    rintro ⟨m, j, hr, hc⟩
    have hgs : w.sync.geom = v.geom := (geom_sync w).trans hrew.geom
    have hbs := bytes_congr hgs
    have hl' : l' ≠ [] := fun hc => hne (prefix_nil.1 (hc ▸ hpre))
    have hlt := @read_lacking w.sync { f with size := max f.size content.length } l' heap (by rwa [hgs])
      (hch.congr (geom_sync w) (fun x _ => by rw [fatCache_sync])) hl'
      (by
        unfold Lacking
        rw [hbs, hgs, hmax]
        exact hlack) (by rwa [hmax]) (by rwa [hmax]) m j hr
    have hlen := length_cString_range m j
    rw [hc] at hlen
    dsimp only at hlt
    omega

end

end Fat32

end OS64
