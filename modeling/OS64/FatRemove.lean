import OS64.FatFrame
/-!
# FatRemove — what `fat32_unlink` and `fat32_rename` do to the slots of a directory

Both count the long-name slots before the entry in its cluster (`scan_of`) and mark what they counted.  `fat32_rename`
then puts a copy of those slots into the first free slots of the other directory.
-/
namespace OS64

open Nat

namespace Fat32

theorem lfnBefore_spec (buf : Mem) : ∀ i, lfnBefore buf i ≤ i ∧ ∀ q, i - lfnBefore buf i ≤ q → q < i →
    entAttr buf (32 * q) = attrLfn ∧ (buf (32 * q)).toNat &&& 0x40 = 0
  | 0 => ⟨le_refl 0, fun q _ hq => absurd hq (not_lt_zero q)⟩
  | i + 1 => by
    obtain ⟨hle, ih⟩ := lfnBefore_spec buf i
    unfold lfnBefore
    by_cases hattr : entAttr buf (32 * i) = attrLfn
    · by_cases hmark : (buf (32 * i)).toNat &&& 0x40 = 0
      · rw [if_pos hattr, if_pos hmark]
        refine ⟨by omega, fun q hq hlt => ?_⟩
        rcases lt_or_eq_of_le (le_of_lt_succ hlt) with hlt' | rfl
        · exact ih q (by omega) hlt'
        · exact ⟨hattr, hmark⟩
      · rw [if_pos hattr, if_neg hmark]
        exact ⟨by omega, fun q hq hlt => absurd hlt (by omega)⟩
    · rw [if_neg hattr]
      exact ⟨by omega, fun q hq hlt => absurd hlt (by omega)⟩

theorem markDeleted_byte (buf : Mem) (a q : Nat) {o : Nat} (ho : o < 32) : ∀ k, markDeleted buf a k (32 * q + o) =
    if a ≤ q ∧ q < a + k ∧ o = 0 then deleted else buf (32 * q + o)
  | 0 => (if_neg (by omega)).symm
  | k + 1 => by
    have ih := markDeleted_byte buf a q ho k
    unfold markDeleted
    by_cases hq : q = a + k ∧ o = 0
    · obtain ⟨rfl, rfl⟩ := hq
      rw [if_pos (by omega), add_zero, store_byte]
      rfl
    · rw [store_apart _ (by omega), ih]
      by_cases hin : a ≤ q ∧ q < a + k ∧ o = 0
      · rw [if_pos hin, if_pos (by omega)]
      · rw [if_neg hin, if_neg (by omega)]

section
variable {v w u : Fat32} {dir dir' : Inode} {l f : List Nat} {name : Name} {n m o k : Nat}

def scanOf (v : Fat32) (l : List Nat) (n : Nat) : Nat :=
    lfnBefore (v.content (l.getD (n / v.slotCount) 0)) (n % v.slotCount)

theorem scanOf_le (v : Fat32) (l : List Nat) (n : Nat) : v.scanOf l n ≤ n % v.slotCount := (lfnBefore_spec _ _).1

/-- **The backward scan.** -/
theorem scan_of (hs : v.geom.Sound) (hm : Main (v.slot l) n) : Scan (v.slot l) n (v.scanOf l n) := by
  have hpos := slotCount_pos hs
  have hle := scanOf_le v l n
  have hn := div_add_mod' n v.slotCount
  have hlt := mod_lt n hpos
  have hslot : ∀ i, n - v.scanOf l n ≤ i → i < n → IsLfn (v.slot l i) ∧ (v.slot l i 0).toNat &&& 64 = 0 := by
    intro i hi hin
    obtain ⟨q, hq⟩ : ∃ q, i = n / v.slotCount * v.slotCount + q := ⟨i - n / v.slotCount * v.slotCount, by omega⟩
    obtain ⟨hattr, hmark⟩ := (lfnBefore_spec (v.content (l.getD (n / v.slotCount) 0)) (n % v.slotCount)).2 q
      (by unfold scanOf at hi; omega) (by omega)
    have hbyte : ∀ o, v.slot l i o = v.content (l.getD (n / v.slotCount) 0) (32 * q + o) := fun o => by
      rw [hq]
      exact slot_at (by omega)
    refine ⟨?_, by rwa [hbyte]⟩
    unfold IsLfn entAttr at *
    rw [hbyte, ← hattr]
  refine ⟨by omega, ⟨by omega, hm, fun i hi hin => ⟨?_, (hslot i hi hin).1⟩⟩, fun i hi hin => (hslot i hi hin).2⟩
  rintro (he | he)
  · exact hm.1.1 i (by omega) he
  · have := (hslot i hi hin).2
    rw [he] at this
    exact absurd this (by decide)

def markEntry (v : Fat32) (l : List Nat) (n : Nat) : Mem :=
  markDeleted (v.content (l.getD (n / v.slotCount) 0)) (n % v.slotCount - v.scanOf l n) (v.scanOf l n + 1)

theorem slot_writeCluster (buf : Mem) (hs : v.geom.Sound) (hidx : ∀ x ∈ l, v.geom.Index x)
    (hon : ∀ x ∈ l, v.geom.OnDevice x) (hnd : l.Nodup) (hn : n < l.length * v.slotCount)
    (hm : m < l.length * v.slotCount) (ho : o < 32) : (v.writeCluster (l.getD (n / v.slotCount) 0) buf).slot l m o =
      if m / v.slotCount = n / v.slotCount then buf (32 * (m % v.slotCount) + o) else v.slot l m o := by
  have hmem := getD_div_mem hn
  refine slot_of_content buf hs (geom_writeCluster ..) hnd hn (fun x hx => ?_) (fun d hd hne x hx => ?_) hm ho
  · rw [content_writeCluster hs (hidx _ hmem) (hidx _ hmem) hx, if_pos ⟨rfl, hon _ hmem⟩]
  · rw [content_writeCluster hs (hidx _ hmem) (hidx _ hd) hx, if_neg (fun h => hne h.1)]

theorem slots_mark (hs : v.geom.Sound) (hidx : ∀ x ∈ l, v.geom.Index x) (hon : ∀ x ∈ l, v.geom.OnDevice x)
    (hnd : l.Nodup) (hn : n < l.length * v.slotCount) (hm : m < l.length * v.slotCount) (ho : o < 32) :
    (v.writeCluster (l.getD (n / v.slotCount) 0) (v.markEntry l n)).slot l m o =
      markedSlots (v.slot l) (n - v.scanOf l n) n m o := by
  have hpos := slotCount_pos hs
  have hle := scanOf_le v l n
  have hnd' := div_add_mod' n v.slotCount
  have hmd := div_add_mod' m v.slotCount
  rw [slot_writeCluster _ hs hidx hon hnd hn hm ho]
  unfold markedSlots
  by_cases hdiv : m / v.slotCount = n / v.slotCount
  · rw [hdiv] at hmd
    have hslot : v.slot l m o = v.content (l.getD (n / v.slotCount) 0) (32 * (m % v.slotCount) + o) := by
      unfold slot
      rw [hdiv]
    rw [if_pos hdiv, hslot]
    unfold markEntry
    rw [markDeleted_byte _ _ _ ho]
    by_cases hin : n - v.scanOf l n ≤ m ∧ m ≤ n ∧ o = 0
    · rw [if_pos hin, if_pos (by omega)]
    · rw [if_neg hin, if_neg (by omega)]
  · rw [if_neg hdiv, if_neg (fun hc => hdiv ?_)]
    have h1 : n / v.slotCount ≤ m / v.slotCount := by
      rw [le_div_iff_mul_le hpos]
      omega
    exact Nat.le_antisymm (Nat.div_le_div_right hc.2.1) h1

/-- What `fat32_unlink` leaves of a directory: `n` is the entry's slot, `f` its clusters. -/
structure Unlinked (v w : Fat32) (l : List Nat) (n : Nat) (f : List Nat) : Prop where
  geom : w.geom = v.geom
  cache : ∀ x, w.fatCache x = if x ∈ f then free else v.fatCache x
  slots : ∀ m o, m < l.length * v.slotCount → o < 32 →
    w.slot l m o = markedSlots (v.slot l) (n - v.scanOf l n) n m o

theorem Released.slot (h : Released v w f) (l : List Nat) : w.slot l = v.slot l := by
  funext m o
  unfold Fat32.slot content
  rw [slotCount_geom h.geom, h.dev, h.geom]

/-- **`fat32_unlink`.** -/
theorem unlink_cases (h : DirOk v dir l) (hf : FoundAt (v.slot l) (l.length * v.slotCount) name n)
    (hchain : v.Chain (entCluster (v.slot l n) 0) f) : ∃ w, v.unlink dir name = .ok (w, true) ∧ Unlinked v w l n f := by
  have hk := div_lt_of_lt hf.lt
  have hmem := getD_mem hk
  have hfirst : (v.inodeOf dir l n).firstCluster = entCluster (v.slot l n) 0 := (entCluster_shift _ _).symm
  obtain ⟨u, hu, hrel⟩ : ∃ u, (if (v.inodeOf dir l n).firstCluster = 0 then Res.ok v
      else v.freeClusterChain (v.inodeOf dir l n).firstCluster) = .ok u ∧ Released v u f := by
    rw [hfirst]
    by_cases hnil : f = []
    · rw [if_pos (hchain.start hnil), hnil]
      exact ⟨v, rfl, released_nil v⟩
    · rw [if_neg (hchain.start_ne hnil)]
      exact freeClusterChain_eq h.sound.sized hchain hnil
  have hsu : u.geom.Sound := by rw [hrel.geom]; exact h.sound
  have hidx : ∀ x ∈ l, u.geom.Index x := fun x hx => by rw [hrel.geom]; exact h.chain.index x hx
  have hon : ∀ x ∈ l, u.geom.OnDevice x := fun x hx => by rw [hrel.geom]; exact h.onDevice x hx
  have hsc := slotCount_geom hrel.geom
  have hcontent : ∀ c x, u.content c x = v.content c x := fun c x => by unfold content; rw [hrel.dev, hrel.geom]
  have hread : u.readCluster (l.getD (n / v.slotCount) 0) = some (v.content (l.getD (n / v.slotCount) 0)) := by
    rw [readCluster_on hsu (hidx _ hmem) (hon _ hmem)]
    exact congrArg some (funext (hcontent _))
  have hscan : u.scanOf l n = v.scanOf l n := by
    unfold scanOf
    rw [hsc, funext (hcontent _)]
  have hentry : u.markEntry l n = v.markEntry l n := by
    unfold markEntry
    rw [hscan, hsc, funext (hcontent _)]
  refine ⟨u.writeCluster (l.getD (n / v.slotCount) 0) (u.markEntry l n), ?_, ?_, fun x => ?_, fun m o hm ho => ?_⟩
  · unfold unlink
    rw [lookup_found h hf]
    simp only [Res.bind, hu]
    have hdir : (v.inodeOf dir l n).dirCluster = l.getD (n / v.slotCount) 0 := rfl
    have hnum : (v.inodeOf dir l n).entryOffset / 32 = n % v.slotCount := Nat.mul_div_cancel_left _ (by decide)
    rw [hdir, hread, hnum, hentry]
    rfl
  · rw [geom_writeCluster, hrel.geom]
  · rw [fatCache_writeCluster, hrel.cache]
  · rw [← hsc, slots_mark hsu hidx hon h.chain.nodup (by rw [hsc]; exact hf.lt) (by rwa [hsc]) ho, hscan,
      hrel.slot]

/-! ## `fat32_rename` -/

theorem setChecksums_byte (data : Mem) (sum : BitVec 8) (q : Nat) {o : Nat} (ho : o < 32) : ∀ k,
    setChecksums data sum k (32 * q + o) = if q < k ∧ o = 13 then sum else data (32 * q + o)
  | 0 => (if_neg (by omega)).symm
  | k + 1 => by
    have ih := setChecksums_byte data sum q ho k
    unfold setChecksums
    by_cases hq : q = k ∧ o = 13
    · obtain ⟨rfl, rfl⟩ := hq
      rw [if_pos (by omega), store_byte, BitVec.ofNat_toNat, BitVec.setWidth_eq]
    · rw [store_apart _ (by omega), ih]
      by_cases hin : q < k ∧ o = 13
      · rw [if_pos hin, if_pos (by omega)]
      · rw [if_neg hin, if_neg (by omega)]

theorem renamed_lfn (data : Mem) (name : Name) {i : Nat} (hi : i < k) (ho : o < 32) (h13 : o ≠ 13) :
    renamed data k name (32 * i + o) = data (32 * i + o) := by
  unfold renamed
  rw [setChecksums_byte _ _ _ ho, if_neg (fun h => h13 h.2)]
  exact blit_apart _ _ (.inl (by omega))

theorem renamed_main (data : Mem) (name : Name) (ho : o < 32) : renamed data k name (32 * k + o) =
    setName (fun o => data (32 * k + o)) 0 (nameToEntry name) o := by
  unfold renamed
  rw [setChecksums_byte _ _ _ ho, if_neg (by omega)]
  unfold setName blit
  by_cases h : o < 11
  · rw [if_pos (by omega), if_pos (by omega), Nat.add_sub_cancel_left, Nat.sub_zero]
  · rw [if_neg (by omega), if_neg (by omega)]

def savedSlots (v : Fat32) (l : List Nat) (n : Nat) : Mem :=
  fun o => v.content (l.getD (n / v.slotCount) 0) (32 * (n % v.slotCount - v.scanOf l n) + o)

theorem savedSlots_eq (hs : v.geom.Sound) {i : Nat} (hi : i ≤ v.scanOf l n) :
    v.savedSlots l n (32 * i + o) = v.slot l (n - v.scanOf l n + i) o := by
  have hpos := slotCount_pos hs
  have hle := scanOf_le v l n
  have hn := div_add_mod' n v.slotCount
  have hlt := mod_lt n hpos
  have hpos' : n - v.scanOf l n + i = n / v.slotCount * v.slotCount + (n % v.slotCount - v.scanOf l n + i) := by omega
  rw [hpos', slot_at (by omega)]
  unfold savedSlots
  congr 1
  omega

variable {oldDir newDir : Inode} {l₁ l₂ : List Nat} {oldName newName : Name} {p : Nat}

def unmade (v : Fat32) (l : List Nat) (n : Nat) : Fat32 := v.writeCluster (l.getD (n / v.slotCount) 0) (v.markEntry l n)

@[simp] theorem geom_unmade (v : Fat32) (l : List Nat) (n : Nat) : (v.unmade l n).geom = v.geom := geom_writeCluster ..

@[simp] theorem fatCache_unmade (v : Fat32) (l : List Nat) (n : Nat) : (v.unmade l n).fatCache = v.fatCache :=
  fatCache_writeCluster ..

/-- What `fat32_rename` leaves: the copy is in the slots from `p` on, in the clusters of the new directory when one of
its slots is free. -/
structure Moved (v w : Fat32) (newDir : Inode) (l₁ l₂ : List Nat) (n : Nat) (name : Name) (p : Nat) : Prop where
  geom : w.geom = v.geom
  free : FirstFree ((v.unmade l₁ n).slot l₂) (l₂.length * v.slotCount) p
  inside : p < l₂.length * v.slotCount → p % v.slotCount + v.scanOf l₁ n < v.slotCount ∧ w.fatCache = v.fatCache ∧
    ∀ m o, m < l₂.length * v.slotCount → o < 32 → w.slot l₂ m o = if p ≤ m ∧ m ≤ p + v.scanOf l₁ n
      then renamed (v.savedSlots l₁ n) (v.scanOf l₁ n) name (32 * (m - p) + o) else (v.unmade l₁ n).slot l₂ m o
  behind : p = l₂.length * v.slotCount → ∃ z, v.geom.Index z ∧ v.fatCache z = Fat32.free ∧
    w.Chain newDir.firstCluster (l₂ ++ [z]) ∧ (∀ x, x ∉ l₂ → x ≠ z → w.fatCache x = v.fatCache x) ∧
    ∀ m o, m < l₂.length * v.slotCount → o < 32 → w.slot l₂ m o = (v.unmade l₁ n).slot l₂ m o
  others : ∀ d x, v.geom.Index d → v.fatCache d ≠ Fat32.free → d ∉ l₂ → x < v.bytesPerCluster →
    w.content d x = (v.unmade l₁ n).content d x

theorem slots_blit (hs : u.geom.Sound) (h : DirOk u dir l) {data : Mem} (hp : p < l.length * u.slotCount)
    (hroom : p % u.slotCount + k < u.slotCount) (hm : m < l.length * u.slotCount) (ho : o < 32) :
    (u.writeCluster (l.getD (p / u.slotCount) 0) (blit (u.content (l.getD (p / u.slotCount) 0))
      (32 * (p % u.slotCount)) (32 * (k + 1)) data)).slot l m o =
      if p ≤ m ∧ m ≤ p + k then data (32 * (m - p) + o) else u.slot l m o := by
  have hpd := div_add_mod' p u.slotCount
  have hmd := div_add_mod' m u.slotCount
  rw [slot_writeCluster _ hs h.chain.index h.onDevice h.chain.nodup hp hm ho]
  by_cases hin : p ≤ m ∧ m ≤ p + k
  · obtain ⟨hdiv, hmod⟩ := div_mod_run hroom hin.1 hin.2
    rw [if_pos hin, if_pos hdiv]
    unfold blit
    rw [if_pos (by omega)]
    congr 1
    omega
  · rw [if_neg hin]
    by_cases hdiv : m / u.slotCount = p / u.slotCount
    · rw [hdiv] at hmd
      rw [if_pos hdiv, blit_apart _ _ (by omega)]
      unfold slot
      rw [hdiv]
    · rw [if_neg hdiv]

theorem rename_eq (h : DirOk v oldDir l₁) (hf : FoundAt (v.slot l₁) (l₁.length * v.slotCount) oldName n) :
    v.rename oldDir oldName newDir newName = ((v.unmade l₁ n).searchDir false newDir).bind (fun r => match r with
      | ({ buf, index := _, slot := some i }, cluster, _) =>
        if (v.unmade l₁ n).slotCount < i + (v.scanOf l₁ n + 1) then .panic "new_buf"
        else .ok ((v.unmade l₁ n).writeCluster cluster (blit buf (32 * i) (32 * (v.scanOf l₁ n + 1))
          (renamed (v.savedSlots l₁ n) (v.scanOf l₁ n) newName)), newDir, true)
      | ({ buf := _, index := _, slot := none }, _, _) =>
        match (v.unmade l₁ n).allocCluster with
        | (u, 0) =>
          .ok (u.writeCluster (l₁.getD (n / v.slotCount) 0) (blit (v.markEntry l₁ n)
            (32 * (n % v.slotCount - v.scanOf l₁ n)) (32 * (v.scanOf l₁ n + 1)) (v.savedSlots l₁ n)), newDir, false)
        | (u, extra + 1) => (u.linkLast newDir (extra + 1)).bind (fun (u, newDir) =>
          .ok (u.writeCluster (extra + 1) (blit blank 0 (32 * (v.scanOf l₁ n + 1))
            (renamed (v.savedSlots l₁ n) (v.scanOf l₁ n) newName)), newDir, true))) := by
  have hk := div_lt_of_lt hf.lt
  have hnum : (v.inodeOf oldDir l₁ n).entryOffset / 32 = n % v.slotCount := Nat.mul_div_cancel_left _ (by decide)
  have hcl : (v.inodeOf oldDir l₁ n).dirCluster = l₁.getD (n / v.slotCount) 0 := rfl
  unfold rename
  rw [lookup_found h hf]
  simp only [Res.bind, hnum, hcl, h.read hk]
  rfl

/-- **`fat32_rename`.** -/
theorem rename_cases (h₁ : DirOk v oldDir l₁) (h₂ : DirOk v newDir l₂)
    (hr : v.rename oldDir oldName newDir newName = .ok (w, dir', true)) :
    ∃ n p, FoundAt (v.slot l₁) (l₁.length * v.slotCount) oldName n ∧ Moved v w newDir l₁ l₂ n newName p := by
  rcases lookup_cases h₁ oldName with ⟨hno, -⟩ | ⟨n, -, hf⟩
  · unfold rename at hr
    rw [hno] at hr
    simp [Res.bind] at hr
  rw [rename_eq h₁ hf] at hr
  have h₂' : DirOk (v.unmade l₁ n) newDir l₂ := h₂.congr (geom_unmade ..) (fatCache_unmade ..)
  have hsc : (v.unmade l₁ n).slotCount = v.slotCount := slotCount_geom (geom_unmade ..)
  obtain ⟨r, hs, hout⟩ := searchDir_cases h₂' false
  rw [hs] at hr
  rcases hout with ⟨p, hp, hfree, hfirst, rfl⟩ | ⟨hfull, buf, e, rfl⟩
  · simp only [Res.bind] at hr
    by_cases hroom : (v.unmade l₁ n).slotCount < p % (v.unmade l₁ n).slotCount + (v.scanOf l₁ n + 1)
    · rw [if_pos hroom] at hr
      cases hr
    rw [if_neg hroom] at hr
    cases hr
    have hblit := fun m o => @slots_blit (v.unmade l₁ n) _ l₂ m o (v.scanOf l₁ n) p h₂'.sound h₂'
      (renamed (v.savedSlots l₁ n) (v.scanOf l₁ n) newName) hp (by omega)
    rw [hsc] at hp hroom
    refine ⟨n, p, hf, by simp, ⟨hp.le, fun _ => hfree, hfirst⟩, fun _ => ⟨by omega, by simp, ?_⟩,
      fun hc => absurd hc hp.ne, fun d x hd hused hdl hx => ?_⟩
    · intro m o hm ho
      exact hblit m o (by rwa [hsc]) ho
    · have hk := div_lt_of_lt hp
      rw [hsc, content_writeCluster h₂'.sound (h₂'.chain.index _ (getD_mem hk)) (by rwa [geom_unmade])
        (by rwa [geom_unmade]), if_neg (fun (hc : d = _ ∧ _) => hdl (hc.1 ▸ getD_mem hk))]
  · simp only [Res.bind] at hr
    rcases linkLast_cases h₂' with ha | ⟨z, u, ha, hz0, hlink, hl⟩
    · rw [ha] at hr
      simp at hr
    obtain ⟨z, rfl⟩ : ∃ y, z = y + 1 := ⟨z - 1, by omega⟩
    rw [ha] at hr
    simp only [hlink] at hr
    cases hr
    rw [hsc] at hfull
    have hsu : u.geom.Sound := by rw [hl.geom]; exact h₂'.sound
    have hzi : u.geom.Index (z + 1) := by rw [hl.geom]; exact hl.index
    have hz2 : z + 1 ∉ l₂ := fun hc => h₂'.chain.used _ hc hl.wasFree
    have hgu : u.geom = v.geom := hl.geom.trans (geom_unmade ..)
    have hkept : ∀ d x, v.geom.Index d → x < v.bytesPerCluster → d ≠ z + 1 → ∀ b : Mem,
        (u.writeCluster (z + 1) b).content d x = (v.unmade l₁ n).content d x := fun d x hd hx hne b => by
      rw [content_writeCluster hsu hzi (by rwa [hgu]) (by rwa [hgu]), if_neg (fun hc => hne hc.1)]
      unfold content
      rw [hl.dev, hl.geom]
    refine ⟨n, l₂.length * v.slotCount, hf, by simp [hgu], ⟨le_rfl, fun hc => absurd hc (lt_irrefl _), hfull⟩,
      fun hc => absurd hc (lt_irrefl _), fun _ => ⟨z + 1, ?_, ?_, ?_, ?_, ?_⟩, fun d x hd hused hdl hx => ?_⟩
    · have := hl.index
      rwa [geom_unmade] at this
    · have := hl.wasFree
      rwa [fatCache_unmade] at this
    · exact hl.chain.congr (geom_writeCluster ..) (fun x _ => by rw [fatCache_writeCluster])
    · intro x hx hxz
      rw [fatCache_writeCluster, hl.cache x hx hxz, fatCache_unmade]
    · intro m o hm ho
      have hpos := slotCount_pos h₂.sound
      have hbytes := slotCount_bytes h₂.sound
      have hmem := getD_div_mem hm
      have hmm := mod_lt m hpos
      unfold slot
      rw [slotCount_geom ((geom_writeCluster ..).trans hgu), hsc]
      exact hkept _ _ (h₂.chain.index _ hmem) (by omega) (fun hc => hz2 (hc ▸ hmem)) _
    · refine hkept d x hd hx (fun hc => hused ?_) _
      have := hl.wasFree
      rw [fatCache_unmade] at this
      rwa [hc]

end

end Fat32

end OS64
