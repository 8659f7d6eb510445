import OS64.ExfatDir
import OS64.FatNewSlots
/-!
# ExfatCreate — new entry sets

`exfat_create_file` and `exfat_mkdir` put three slots at the first slot of type 0 of the directory's first cluster,
whatever comes behind it, and only the first fifteen characters of the name (`createRight_iff`).
-/
namespace OS64

open List Nat

namespace Exfat

open Fat32 (Geom ftDir ftRegFile lfnUnit storeUnits storeUnits_apart)

def Ascii (name : Name) : Prop := ∀ b ∈ name, b ≠ 0#8 ∧ b.toNat < 128

instance (name : Name) : Decidable (Ascii name) := inferInstanceAs (Decidable (∀ b ∈ name, _))

section
variable {name : Name} {attributes cluster j x : Nat} {buf : Mem}

theorem load_storeUnits {o pos : Nat} : ∀ {k : Nat}, j < k →
    load (storeUnits buf o name pos k) (o + 2 * j) 2 = lfnUnit name (pos + j) % 65536
  | k + 1, h => by
    unfold storeUnits
    rcases Nat.lt_succ_iff_lt_or_eq.1 h with hlt | rfl
    · rw [load_store_apart _ (by omega), load_storeUnits hlt]
    · exact load_store ..

theorem takeWhile_units : ∀ (n : Nat) {name : Name}, Ascii name →
    ((List.range n).map (fun j => lfnUnit name j % 65536)).takeWhile (fun c => decide (c ≠ 0)) =
      (name.take n).map BitVec.toNat
  | 0, _, _ => by simp
  | n + 1, [], _ => by
    rw [range_succ_eq_map]
    rfl
  | n + 1, b :: name, h => by
    obtain ⟨hb, hlt⟩ := h b (.head _)
    have hunit : lfnUnit (b :: name) 0 = b.toNat := if_pos hlt
    have hne : b.toNat ≠ 0 := fun h0 => hb (BitVec.eq_of_toNat_eq h0)
    have ih := takeWhile_units n (forall_mem_cons.1 h).2
    rw [range_succ_eq_map, map_cons, hunit, mod_eq_of_lt (by omega), takeWhile_cons_of_pos (by simpa), map_map]
    exact congrArg _ ih

theorem entrySet_byte (h : x < 66 ∨ 96 ≤ x) : entrySet name attributes cluster x =
    store (store (store (store (store (store (store blank 0 1 entryFile.toNat) 1 1 2) 4 2 attributes) 32 1
      entryStream.toNat) 35 1 name.length) 52 4 cluster) 64 1 entryName.toNat x := by
  unfold entrySet
  rw [storeUnits_apart (by omega)]

theorem entrySet_file : entrySet name attributes cluster 0 = entryFile := by
  simp (disch := omega) only [entrySet_byte, store_apart]
  decide

theorem entrySet_stream : entrySet name attributes cluster 32 = entryStream := by
  simp (disch := omega) only [entrySet_byte, store_apart, store_byte]
  decide

theorem entrySet_name : entrySet name attributes cluster 64 = entryName := by
  rw [entrySet_byte (by omega), store_byte]
  decide

theorem entrySet_cluster : load (entrySet name attributes cluster) 52 4 = cluster % 2 ^ 32 := by
  have h : load (entrySet name attributes cluster) 52 4 = load (store (store (store (store (store (store blank 0 1
      entryFile.toNat) 1 1 2) 4 2 attributes) 32 1 entryStream.toNat) 35 1 name.length) 52 4 cluster) 52 4 :=
    load_congr (fun i hi => by rw [entrySet_byte (by omega), store_apart _ (by omega)])
  rw [h]
  exact load_store ..

theorem entrySet_unit (hj : j < 15) : load (entrySet name attributes cluster) (66 + 2 * j) 2 =
    lfnUnit name j % 65536 := by
  unfold entrySet
  rw [load_storeUnits hj, zero_add]

variable {v : Exfat} {p : Nat}

theorem placed_byte (hx : x < 96) :
    blit buf (32 * p) 96 (entrySet name attributes cluster) (32 * p + x) = entrySet name attributes cluster x :=
  blit_at _ _ hx

theorem placed_nameChars (h : Ascii name) :
    nameChars (blit buf (32 * p) 96 (entrySet name attributes cluster)) (p + 2) = name.take 15 := by
  have hload : ∀ j, j < 15 → load (blit buf (32 * p) 96 (entrySet name attributes cluster))
    (32 * (p + 2) + 2 + 2 * j) 2 =
      lfnUnit name j % 65536 := fun j hj => by
    rw [← @entrySet_unit name attributes cluster j hj]
    refine load_congr (fun i hi => ?_)
    have : 32 * (p + 2) + 2 + 2 * j + i = 32 * p + (66 + 2 * j + i) := by omega
    rw [this, placed_byte (by omega)]
  have hmap : (List.range 15).map (fun j => load (blit buf (32 * p) 96 (entrySet name attributes cluster))
      (32 * (p + 2) + 2 + 2 * j) 2) = (List.range 15).map (fun j => lfnUnit name j % 65536) :=
    map_congr_left (fun j hj => hload j (mem_range.1 hj))
  have hall : ((name.take 15).map BitVec.toNat).filter (fun c => decide (c < 128)) =
      (name.take 15).map BitVec.toNat := by
    refine filter_eq_self.2 (fun c hc => ?_)
    obtain ⟨b, hb, rfl⟩ := mem_map.1 hc
    exact decide_eq_true (h b (mem_of_mem_take hb)).2
  unfold nameChars
  rw [hmap, takeWhile_units 15 h, hall, map_map]
  refine map_id'' (fun b => ?_) _
  exact BitVec.eq_of_toNat_eq (by rw [Function.comp, BitVec.toNat_ofNat, mod_eq_of_lt b.isLt])

/-- **The new entry set is well formed**, if it fits; its name is the start of the name asked for. -/
theorem placed_fileSet (h : Ascii name) (hin : 32 * (p + 3) ≤ v.bytesPerCluster) :
    FileSet v (blit buf (32 * p) 96 (entrySet name attributes cluster)) p 2 (name.take 15) := by
  have h0 : blit buf (32 * p) 96 (entrySet name attributes cluster) (32 * p) = entryFile := by
    rw [← entrySet_file, ← placed_byte (show 0 < 96 by decide), add_zero]
  have h1 : blit buf (32 * p) 96 (entrySet name attributes cluster) (32 * (p + 1)) = entryStream := by
    rw [mul_add, placed_byte (by decide), entrySet_stream]
  have h2 : blit buf (32 * p) 96 (entrySet name attributes cluster) (32 * (p + 2)) = entryName := by
    rw [mul_add, placed_byte (by decide), entrySet_name]
  have hlen := length_take_le 15 name
  refine ⟨⟨?_, ?_, by decide, hin, fun q hq1 hq2 => ?_⟩, h0, by decide, h1, fun q hq1 hq2 => ?_, ?_, by omega⟩
  · rw [h0]
    decide
  · rw [placed_byte (by decide)]
    rfl
  · obtain rfl | rfl : q = p + 1 ∨ q = p + 2 := by omega
    · rw [h1]
      decide
    · rw [h2]
      decide
  · obtain rfl : q = p + 2 := by omega
    rw [h2]
    decide
  · rw [nameOf, nameOf, if_pos h2, placed_nameChars h, append_nil]

end

/-- What a creation that returned 0 has done, the new entry set being in slot `p`. -/
structure Created (v : Exfat) (dir : ExInode) (name : Name) (attributes p : Nat) (w : Exfat)
    (inode : ExInode) : Prop where
  absent : v.lookup dir name = .ok none
  free : v.freeEntry (v.content dir.firstCluster) = some p
  new : inode.firstCluster ∈ v.freeClusters
  dirCluster : inode.dirCluster = dir.firstCluster
  dirEntry : inode.dirEntry = p
  geom : w.geom = v.geom
  cache : ∀ x, 2 ≤ x → x ≠ inode.firstCluster → w.fatCache x = v.fatCache x
  placed : ∀ o, o < v.bytesPerCluster → w.content dir.firstCluster o =
    blit (v.content dir.firstCluster) (32 * p) 96 (entrySet name attributes inode.firstCluster) o
  others : ∀ d o, v.geom.Index d → d ≠ dir.firstCluster → d ≠ inode.firstCluster → o < v.bytesPerCluster →
    w.content d o = v.content d o

section
variable {v w : Exfat} {dir inode : ExInode} {l : List Nat} {name : Name} {attributes mode p : Nat} {zeroed : Bool}

theorem find?_congr {f g : Nat → Bool} : ∀ {l : List Nat}, (∀ x ∈ l, f x = g x) → l.find? f = l.find? g
  | [], _ => rfl
  | x :: l, h => by rw [List.find?_cons, List.find?_cons, h x (.head _), find?_congr (forall_mem_cons.1 h).2]

theorem freeEntry_same {buf buf' : Mem} (hg : w.geom = v.geom) (h : SameFrom v 0 buf buf') :
    w.freeEntry buf' = v.freeEntry buf := by
  have hsc := slotCount_congr hg
  unfold freeEntry
  rw [hsc]
  refine find?_congr (fun i hi => ?_)
  have hi' : i < v.bytesPerCluster / 32 := mem_range.1 hi
  rw [h (32 * i) (zero_le _) (by omega)]

theorem newEntry_cases (h : DirState v dir l) (hc : v.newEntry dir name attributes mode zeroed = .ok (w, some inode)) :
    ∃ p, Created v dir name attributes p w inode := by
  unfold newEntry at hc
  rw [if_neg (fun hm => hm h.mode)] at hc
  have hmem : dir.firstCluster ∈ l := by
    obtain ⟨l', rfl⟩ := h.cons
    exact .head _
  have hidx := h.chain.index _ hmem
  have hused := h.chain.used _ hmem
  have hon := h.onDevice _ hmem
  obtain ⟨_ | i, hl, hc⟩ := Res.bind_ok hc
  swap
  · cases hc
  simp only [Option.isSome_none, Bool.false_eq_true, if_false] at hc
  split at hc
  · cases hc
  rename_i hnew
  obtain ⟨F, hF⟩ := newCluster_cons hnew
  have hz := mem_freeClusters.1 (hF ▸ (mem_cons_self : v.newCluster ∈ v.newCluster :: F))
  generalize hzn : v.newCluster = z at hc hz hnew
  have hzd : z ≠ dir.firstCluster := fun heq => hused (heq ▸ hz.2)
  -- the volume after the new cluster was taken and, for a directory, zeroed
  generalize hu : (if zeroed = true then (v.setNext z fatEnd).writeCluster z blank else v.setNext z fatEnd) = u at hc
  have hug : u.geom = v.geom := by
    rw [← hu]
    split <;> simp
  have hub := bytes_congr hug
  have huc : u.fatCache = (v.setNext z fatEnd).fatCache := by
    rw [← hu]
    split <;> simp
  have hucont : ∀ d o, v.geom.Index d → d ≠ z → o < v.bytesPerCluster → u.content d o = v.content d o := by
    intro d o hd hne ho
    rw [← hu]
    split
    · rw [content_writeCluster (by exact h.sound) (by exact hz.1) (by exact hd) (by exact ho),
        if_neg (fun hc => hne hc.1), content_setNext]
    · rw [content_setNext]
  have husound : Sound u.geom := by rw [hug]; exact h.sound
  have hbuf : SameFrom v 0 (v.content dir.firstCluster) (u.readCluster dir.firstCluster blank) := fun o _ ho => by
    rw [readCluster_on husound (by rwa [hug]) (by rwa [hug]) (by rwa [hub]),
      hucont _ _ hidx (Ne.symm hzd) ho]
  rw [freeEntry_same hug hbuf] at hc
  split at hc
  · cases hc
  rename_i p hfree
  cases hc
  have hcontent : ∀ d o, v.geom.Index d → o < v.bytesPerCluster →
      ((u.writeCluster dir.firstCluster (blit (u.readCluster dir.firstCluster blank) (32 * p) 96
        (entrySet name attributes z))).markDirty).content d o =
      if d = dir.firstCluster then blit (u.readCluster dir.firstCluster blank) (32 * p) 96
        (entrySet name attributes z) o else u.content d o := fun d o hd ho => by
    rw [content_markDirty, content_writeCluster husound (by rwa [hug]) (by rwa [hug])
      (by rwa [hub]), hug]
    simp only [hon, and_true]
  refine ⟨p, hl, hfree, ?_, rfl, rfl, by simp [hug], fun x hx hne => ?_, fun o ho => ?_, fun d o hd hne hnz ho => ?_⟩
  · rw [hF, hzn]
    exact .head _
  · rw [fatCache_markDirty _ hx, fatCache_writeCluster, huc, fatCache_setNext, if_neg hne]
  · rw [hcontent _ o hidx ho, if_pos rfl]
    unfold blit
    split
    · rfl
    · exact hbuf o (zero_le _) ho
  · rw [hcontent d o hd ho, if_neg hne, hucont d o hd hnz ho]

theorem Created.dirState (hc : Created v dir name attributes p w inode) (h : DirState v dir l) : DirState w dir l :=
  h.congr hc.geom (fun x hx => hc.cache x (h.chain.index x hx).1
    (fun heq => h.chain.used x hx (heq ▸ (mem_freeClusters.1 hc.new).2)))

theorem Sets.freeEntry_eq {f : Nat} {es : List Entry} {buf : Mem} (h : Sets v buf f es)
    (hfree : v.freeEntry buf = some p) : p = f := by
  obtain ⟨hto, hstop⟩ := h
  have hzero : buf (32 * p) = 0#8 := by
    have := List.find?_some hfree
    exact of_decide_eq_true this
  have hlt : p < v.bytesPerCluster / 32 := mem_range.1 (mem_of_find?_eq_some hfree)
  have hge : f ≤ p := not_lt.1 (fun hc => (hto.used p (zero_le p) hc).1 hzero)
  rcases hstop with hend | hz
  · omega
  refine le_antisymm (not_lt.1 (fun hc => ?_)) hge
  obtain ⟨-, as, bs, heq, hno⟩ := List.find?_eq_some_iff_append.1 hfree
  have hmem : f ∈ as := by
    have hf : f ∈ List.range v.slotCount := mem_range.2 (hc.trans hlt)
    rw [heq] at hf
    rcases mem_append.1 hf with hf | hf
    · exact hf
    have hsorted : (as ++ p :: bs).Pairwise (· < ·) := heq ▸ pairwise_lt_range
    rcases mem_cons.1 hf with rfl | hf
    · exact absurd hc (lt_irrefl f)
    · have := rel_of_pairwise_cons (pairwise_append.1 hsorted).2.1 hf
      omega
  have := hno f hmem
  simp [hz] at this

/-- **What a lookup makes of the first cluster after a creation.** -/
theorem Created.scanCluster {es : List Entry} (hc : Created v dir name attributes p w inode) (h : DirState v dir l)
    (hsets : Sets v (v.content dir.firstCluster) p es) (hname : Ascii name) (hin : 32 * (p + 3) ≤ v.bytesPerCluster)
    (m : Name) : w.scanCluster m dir.firstCluster = match findName m es with
      | some e => .ok (some (e.slot, e.slot + 1))
      | none => if name.take 15 = m then .ok (some (p, p + 1))
          else scan v (v.content dir.firstCluster) m (v.slotCount + 1) (p + 3) := by
  have hb := bytes_congr hc.geom
  have hsc := slotCount_congr hc.geom
  have hslots := h.slots
  have hto : SetsTo w (w.content dir.firstCluster) p 0 es := hsets.1.same hb (fun o _ ho => by
    rw [hc.placed o (by omega), blit_apart _ _ (by omega)])
  have hset : FileSet w (w.content dir.firstCluster) p 2 (name.take 15) :=
    (placed_fileSet hname hin).same hb (fun o _ ho => hc.placed o (by omega))
  have hsame : SameFrom v (p + 3) (v.content dir.firstCluster) (w.content dir.firstCluster) := fun o h1 h2 => by
    rw [hc.placed o h2, blit_apart _ _ (by omega)]
  unfold Exfat.scanCluster
  rw [hsc, scan_to hto m (by omega), scan_file hset, scan_same h.slots hsame.sets hb m le_rfl]
  cases findName m es with
  | none => rw [scan_turns m (show v.bytesPerCluster ≤ 32 * (p + 2 + 1 + v.slotCount) by omega)]
  | some e => rfl

/-- The new entry is found, the others are found as before, and the new slots lie in the cluster. -/
structure CreateRight (v w : Exfat) (dir : ExInode) (name : Name) (inode : ExInode) : Prop where
  found : ∃ i, w.lookup dir name = .ok (some i) ∧ i.dirCluster = inode.dirCluster ∧ i.dirEntry = inode.dirEntry ∧
    i.firstCluster = inode.firstCluster
  kept : ∀ m i, v.lookup dir m = .ok (some i) → w.lookup dir m = .ok (some i)
  inside : 32 * (inode.dirEntry + 3) ≤ v.bytesPerCluster

/-- The name fits one name entry, the first free slot of the first cluster has two slots behind it, and what comes
behind those does not keep a lookup from the later clusters. -/
def CreateFits (v : Exfat) (dir : ExInode) (l : List Nat) (name : Name) : Prop :=
  name.length ≤ 15 ∧ ∃ p, v.freeEntry (v.content dir.firstCluster) = some p ∧ 32 * (p + 3) ≤ v.bytesPerCluster ∧
    ∀ m i, v.scanCluster m dir.firstCluster = .ok none → search v dir m l.tail = .ok (some i) →
      scan v (v.content dir.firstCluster) m (v.slotCount + 1) (p + 3) = .ok none

section
variable {c : Nat} (hc : Created v dir name attributes p w inode) (h : DirState v dir (c :: l))
include hc h

theorem Created.later (m : Name) : search w dir m l = search v dir m l := by
  obtain ⟨e, he⟩ := h.chain.trail
  obtain ⟨rfl, -, -⟩ := he
  refine search_congr hc.geom h.slots m (fun d hd o _ ho => ?_)
  have hmem : d ∈ dir.firstCluster :: l := .tail _ hd
  refine hc.others d o (h.chain.index d hmem) (fun heq => ?_) (fun heq => ?_) ho
  · exact (nodup_cons.1 h.chain.nodup).1 (heq ▸ hd)
  · exact h.chain.used d hmem (heq ▸ (mem_freeClusters.1 hc.new).2)

section
variable {es : List Entry} (hsets : Sets v (v.content dir.firstCluster) p es) (hname : Ascii name)
  (hin : 32 * (p + 3) ≤ v.bytesPerCluster)
include hsets hname hin

theorem Created.found_iff (habs : findName name es = none) :
    (∃ i, w.lookup dir name = .ok (some i) ∧ i.dirCluster = inode.dirCluster ∧ i.dirEntry = inode.dirEntry ∧
      i.firstCluster = inode.firstCluster) ↔ name.length ≤ 15 := by
  have hscan := hc.scanCluster h hsets hname hin name
  have hnd := h.chain.nodup
  obtain ⟨e, he⟩ := h.chain.trail
  obtain ⟨rfl, -, -⟩ := he
  rw [habs] at hscan
  rw [lookup_eq (hc.dirState h), hc.dirCluster, hc.dirEntry]
  by_cases hlen : name.length ≤ 15
  · refine iff_of_true ?_ hlen
    rw [take_of_length_le hlen, if_pos rfl] at hscan
    refine ⟨_, search_cons_some hscan, rfl, rfl, ?_⟩
    have hnew := (mem_freeClusters.1 hc.new).1.2
    have hmost : v.fatEntries ≤ 2 ^ 30 := h.sound.most
    have hload : load (w.content dir.firstCluster) (32 * (p + 1) + 20) 4 =
        load (entrySet name attributes inode.firstCluster) 52 4 := load_congr (fun i hi => by
      have : 32 * (p + 1) + 20 + i = 32 * p + (52 + i) := by omega
      rw [this, hc.placed _ (by omega), placed_byte (by omega)])
    show load (w.content dir.firstCluster) (32 * (p + 1) + 20) 4 = _
    rw [hload, entrySet_cluster]
    exact mod_eq_of_lt (hnew.trans_le (hmost.trans (by decide)))
  · refine iff_of_false ?_ hlen
    rintro ⟨i, hi, hcl, hent, -⟩
    have hne : name.take 15 ≠ name := fun heq => hlen (by rw [← heq]; exact length_take_le ..)
    rw [if_neg hne] at hscan
    obtain ⟨_ | ⟨q, s⟩, hr, hi⟩ := Res.bind_ok hi
    · obtain ⟨d, hd, q, s, -, rfl⟩ := search_some hi
      exact (nodup_cons.1 hnd).1 (hcl ▸ hd)
    · cases hi
      have := (scan_some (hscan.symm.trans hr)).1
      have hq : q = p := hent
      omega

theorem Created.kept_iff (hlen : name.length ≤ 15) :
    (∀ m i, v.lookup dir m = .ok (some i) → w.lookup dir m = .ok (some i)) ↔
    ∀ m i, v.scanCluster m dir.firstCluster = .ok none → search v dir m l = .ok (some i) →
      scan v (v.content dir.firstCluster) m (v.slotCount + 1) (p + 3) = .ok none := by
  have hnd := h.chain.nodup
  have hlater := hc.later h
  have habsent := hc.absent
  obtain ⟨e, he⟩ := h.chain.trail
  obtain ⟨rfl, -, -⟩ := he
  have hne : ∀ m i, v.lookup dir m = .ok (some i) → name.take 15 ≠ m := fun m i hi heq => by
    rw [take_of_length_le hlen] at heq
    rw [← heq, habsent] at hi
    cases hi
  constructor
  · intro hkept m i hnone hi
    have hv : v.lookup dir m = .ok (some i) := by rw [lookup_eq h, search_cons_none hnone, hi]
    have hw := hkept m i hv
    have hscan := hc.scanCluster h hsets hname hin m
    have hfind : findName m es = none := by
      rw [scanCluster_sets h.slots hsets] at hnone
      simpa using hnone
    rw [hfind] at hscan
    simp only [if_neg (hne m i hv)] at hscan
    rw [lookup_eq (hc.dirState h)] at hw
    obtain ⟨_ | ⟨q, s⟩, hr, hw⟩ := Res.bind_ok hw
    · exact hscan.symm.trans hr
    · cases hw
      obtain ⟨d, hd, _, _, -, hd'⟩ := search_some hi
      have hdir : dir.firstCluster = d := congrArg ExInode.dirCluster hd'
      exact absurd (hdir ▸ hd) (nodup_cons.1 hnd).1
  · intro hfit m i hv
    have hscan := hc.scanCluster h hsets hname hin m
    have hold := scanCluster_sets h.slots hsets m
    have hneq := hne m i hv
    rw [lookup_eq h] at hv
    rw [lookup_eq (hc.dirState h)]
    cases hfind : findName m es with
    | some e =>
      rw [hfind] at hscan hold
      rw [search_cons_some hold] at hv
      rw [search_cons_some hscan, ← hv]
      -- the entry found lies before the new one
      obtain ⟨-, count, hset, hle⟩ := hsets.1.mem (mem_of_find?_eq_some hfind)
      have hpos := hset.pos
      have hsame : ∀ {o k : Nat}, o + k ≤ 32 * p → load (w.content dir.firstCluster) o k =
          load (v.content dir.firstCluster) o k := fun hk => load_congr (fun i hi => by
        rw [hc.placed _ (by omega), blit_apart _ _ (by omega)])
      unfold foundInode fileAttributes streamLength streamCluster
      rw [hsame (by omega), hsame (by omega), hsame (by omega)]
    | none =>
      rw [hfind] at hscan hold
      rw [search_cons_none hold] at hv
      simp only [if_neg hneq] at hscan
      rw [search_cons_none (hscan.trans (hfit m i hold hv)), hlater, hv]

end

end

/-- **When a creation is right**, for `exfat_create_file` and `exfat_mkdir` in any directory whose entry sets before the
first free slot are well formed. -/
theorem createRight_iff {f : Nat} {es : List Entry} (h : DirState v dir l)
    (hsets : Sets v (v.content dir.firstCluster) f es) (hname : Ascii name)
    (hc : v.createFile dir name = .ok (w, some inode) ∨ ∃ mode, v.mkdir dir name mode = .ok (w, some inode)) :
    CreateRight v w dir name inode ↔ CreateFits v dir l name := by
  obtain ⟨attributes, p, hc⟩ : ∃ attributes p, Created v dir name attributes p w inode := by
    rcases hc with hc | ⟨mode, hc⟩
    · exact ⟨_, newEntry_cases h hc⟩
    · exact ⟨_, newEntry_cases h hc⟩
  obtain rfl := hsets.freeEntry_eq hc.free
  rcases l with _ | ⟨c, l⟩
  · exact absurd rfl h.nonempty
  by_cases hin : 32 * (p + 3) ≤ v.bytesPerCluster
  · have habs : findName name es = none := by
      have habsent := hc.absent
      obtain ⟨e, he⟩ := h.chain.trail
      obtain ⟨rfl, -, -⟩ := he
      rw [lookup_eq h] at habsent
      cases hfind : findName name es with
      | none => rfl
      | some e =>
        have hold := scanCluster_sets h.slots hsets name
        rw [hfind] at hold
        rw [search_cons_some hold] at habsent
        cases habsent
    have hfound := hc.found_iff h hsets hname hin habs
    constructor
    · intro hr
      have hlen := hfound.1 hr.found
      exact ⟨hlen, p, hc.free, hin, (hc.kept_iff h hsets hname hin hlen).1 hr.kept⟩
    · rintro ⟨hlen, q, hq, -, hfit⟩
      cases hc.free.symm.trans hq
      exact ⟨hfound.2 hlen, (hc.kept_iff h hsets hname hin hlen).2 hfit, by rwa [hc.dirEntry]⟩
  · refine iff_of_false (fun hr => ?_) ?_
    · have := hr.inside
      rw [hc.dirEntry] at this
      exact hin this
    · rintro ⟨-, q, hq, hin', -⟩
      cases hc.free.symm.trans hq
      exact hin hin'

end

def twoFiles : Exfat :=
  { smallVol with
    dev := { smallVol.dev with
      data := blit (blit blank 12800 96 (entrySet (Name.ofString "a") 0 3)) 12896 96
        (entrySet (Name.ofString "b") 0 4) }
    fatCache := fun c => if c = 0 then 0xFFFFFFF8 else if c < 5 then fatEnd else fatFree }

theorem twoFiles_root : DirState twoFiles smallRoot [2] := smallRoot_state.congr rfl (by decide)

theorem twoFiles_sets : Sets twoFiles (twoFiles.content 2) 6 [⟨0, Name.ofString "a"⟩, ⟨3, Name.ofString "b"⟩] := by
  have hbyte : ∀ o, twoFiles.content 2 o = blit (blit blank (32 * 0) 96 (entrySet (Name.ofString "a") 0 3)) (32 * 3) 96
      (entrySet (Name.ofString "b") 0 4) o := fun o => by
    show blit (blit blank (12800 + 32 * 0) 96 _) (12800 + 32 * 3) 96 _ (12800 + o) = _
    simp only [blit, Nat.add_le_add_iff_left, Nat.add_assoc, Nat.add_lt_add_iff_left, Nat.add_sub_add_left]
    rfl
  have ha : FileSet twoFiles (blit blank (32 * 0) 96 (entrySet (Name.ofString "a") 0 3)) 0 2 (Name.ofString "a") :=
    placed_fileSet (by decide) (by decide)
  have hb : FileSet twoFiles (blit (blit blank (32 * 0) 96 (entrySet (Name.ofString "a") 0 3)) (32 * 3) 96
      (entrySet (Name.ofString "b") 0 4)) 3 2 (Name.ofString "b") := placed_fileSet (by decide) (by decide)
  refine ⟨.file (ha.same rfl (fun o _ ho => ?_)) (.file (hb.same rfl (fun o _ _ => hbyte o)) .done), .inr rfl⟩
  rw [hbyte]
  exact blit_apart _ _ (.inl ho)

theorem twoFiles_createRight_iff : ∃ w inode, twoFiles.createFile smallRoot (Name.ofString "c") = .ok (w, some inode) ∧
      (CreateRight twoFiles w smallRoot (Name.ofString "c") inode ↔
        CreateFits twoFiles smallRoot [2] (Name.ofString "c")) :=
  ⟨_, _, rfl, createRight_iff twoFiles_root twoFiles_sets (by decide) (.inl rfl)⟩

/-- A file with a name of sixteen characters is made, and not found. -/
theorem sixteen_not_found : ∃ w inode,
    smallVol.createFile smallRoot (Name.ofString "abcdefghijklmnop") = .ok (w, some inode) ∧
      ¬ CreateRight smallVol w smallRoot (Name.ofString "abcdefghijklmnop") inode := by
  refine ⟨_, _, rfl, fun h => ?_⟩
  obtain ⟨i, hi, -⟩ := h.found
  cases hi

end Exfat

end OS64
