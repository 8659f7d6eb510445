import OS64.Exfat
import OS64.FatVolume
import Mathlib.Data.List.Range
import Mathlib.Data.List.Perm.Subperm
/-!
# ExfatVolume — the clusters of an exFAT volume, its chains, and its free clusters

The places of the clusters are those of `Fat32.Geom`.  `held` is what a buffer holds into which clusters were read one
after the other: a cluster behind the end of the device leaves it as it was.
-/
namespace OS64

open List Nat

namespace Exfat

open Fat32 (Geom)

def heap (v : Exfat) : Nat := v.clusterHeapStart / v.bytesPerSector

/-- What stays as it is while a volume is mounted; exFAT has no FSInfo sector. -/
def geom (v : Exfat) : Geom :=
  { ready := v.dev.ready, sectorSize := v.dev.sectorSize, totalSectors := v.dev.totalSectors, fatSize32 := v.fatLength,
    sectorsPerCluster := v.sectorsPerCluster, bytesPerCluster := v.bytesPerCluster, fatStart := v.fatOffset,
    dataStart := v.heap, rootCluster := v.rootCluster, fsinfoSector := 0, fatEntries := v.fatEntries }

/-- A ready device with sectors of 512 to 4096 bytes, and clusters whose numbers and sectors fit their words. -/
structure Sound (g : Geom) : Prop where
  ready : g.ready = true
  sector512 : 512 ≤ g.sectorSize
  sector4096 : g.sectorSize ≤ 4096
  cluster : 0 < g.sectorsPerCluster
  bytes : g.bytesPerCluster = g.sectorSize * g.sectorsPerCluster
  most : g.fatEntries ≤ 1073741824
  sectors : g.fatEntries * g.sectorsPerCluster ≤ 4294967296
  heap : g.dataStart < 4294967296

section
variable {g : Geom}

theorem Sound.bytes_pos (hs : Sound g) : 0 < g.bytesPerCluster := by
  rw [hs.bytes]
  exact Nat.mul_pos (Nat.lt_of_lt_of_le (by decide) hs.sector512) hs.cluster

theorem Sound.entries_lt (hs : Sound g) : g.fatEntries < fatEnd := by
  have := hs.most
  unfold fatEnd
  omega

theorem Sound.product_lt (hs : Sound g) {c : Nat} (hc : g.Index c) :
    (c - 2) * g.sectorsPerCluster + g.sectorsPerCluster ≤ 2 ^ 32 := by
  have hle : (c - 2 + 1) * g.sectorsPerCluster ≤ g.fatEntries * g.sectorsPerCluster :=
    mul_le_mul_right _ (by have := hc.2; omega)
  rw [add_mul, one_mul] at hle
  exact hle.trans hs.sectors

end

def content (v : Exfat) (c o : Nat) : BitVec 8 := v.dev.data (v.dev.sectorSize * v.geom.sector c + o)

section
variable {v w : Exfat} {c d o x : Nat} {buf : Mem} {l : List Nat}

theorem bytes_congr (h : w.geom = v.geom) : w.bytesPerCluster = v.bytesPerCluster := congrArg Geom.bytesPerCluster h

theorem slotCount_congr (h : w.geom = v.geom) : w.slotCount = v.slotCount := by
  unfold slotCount
  rw [bytes_congr h]

section
variable (hs : Sound v.geom) (hc : v.geom.Index c)
include hs hc

theorem sectorOf_eq : v.sectorOf c = v.geom.sector c := by
  have hp : (c - 2) * v.sectorsPerCluster + v.sectorsPerCluster ≤ 2 ^ 32 := hs.product_lt hc
  have hpos : 0 < v.sectorsPerCluster := hs.cluster
  have hh : v.heap < 2 ^ 32 := hs.heap
  unfold heap at hh
  unfold sectorOf
  rw [u32_of_lt (by omega), u64_of_lt (by omega)]
  rfl

theorem transfer_iff :
    (v.dev.ready = true ∧ u64 (v.sectorOf c + v.sectorsPerCluster) ≤ v.dev.totalSectors) ↔ v.geom.OnDevice c := by
  have hp := hs.product_lt hc
  have hh := hs.heap
  rw [sectorOf_eq hs hc]
  exact Geom.transfer_iff hs.ready (by unfold Geom.sector; omega)

theorem readCluster_on (hd : v.geom.OnDevice c) (ho : o < v.bytesPerCluster) :
    v.readCluster c buf o = v.content c o := by
  have hbytes : v.bytesPerCluster = v.dev.sectorSize * v.sectorsPerCluster := hs.bytes
  unfold readCluster BlockDev.read
  rw [if_neg (not_lt.2 hc.1), if_pos ((transfer_iff hs hc).2 hd), sectorOf_eq hs hc]
  have := @blit_at buf (fun x => v.dev.data (v.dev.sectorSize * v.geom.sector c + x)) 0 _ _ (hbytes ▸ ho)
  rwa [zero_add] at this

theorem readCluster_off (hd : ¬ v.geom.OnDevice c) : v.readCluster c buf = buf := by
  unfold readCluster BlockDev.read
  rw [if_neg (not_lt.2 hc.1), if_neg (fun h => hd ((transfer_iff hs hc).1 h))]

end

@[simp] theorem geom_writeCluster (v : Exfat) (c : Nat) (buf : Mem) : (v.writeCluster c buf).geom = v.geom := by
  unfold writeCluster BlockDev.write
  split
  · rfl
  · split <;> rfl

@[simp] theorem fatCache_writeCluster (v : Exfat) (c : Nat) (buf : Mem) :
    (v.writeCluster c buf).fatCache = v.fatCache := by
  unfold writeCluster
  split <;> rfl

@[simp] theorem geom_setNext (v : Exfat) (c n : Nat) : (v.setNext c n).geom = v.geom := rfl

@[simp] theorem content_setNext (v : Exfat) (c n : Nat) : (v.setNext c n).content = v.content := rfl

@[simp] theorem geom_markDirty (v : Exfat) : v.markDirty.geom = v.geom := rfl

@[simp] theorem content_markDirty (v : Exfat) : v.markDirty.content = v.content := rfl

theorem fatCache_setNext (v : Exfat) (c n x : Nat) :
    (v.setNext c n).fatCache x = if x = c then n else v.fatCache x := Function.update_apply ..

theorem fatCache_markDirty (v : Exfat) (h : 2 ≤ x) : v.markDirty.fatCache x = v.fatCache x := by
  unfold markDirty
  rw [fatCache_setNext, if_neg (by omega)]

/-- **Writing a cluster changes that cluster**, if it lies on the device, **and no other.** -/
theorem content_writeCluster (hs : Sound v.geom) (hc : v.geom.Index c) (hd : v.geom.Index d)
    (ho : o < v.bytesPerCluster) :
    (v.writeCluster c buf).content d o = if d = c ∧ v.geom.OnDevice c then buf o else v.content d o := by
  have hsec : (v.writeCluster c buf).dev.sectorSize = v.dev.sectorSize :=
    congrArg Geom.sectorSize (geom_writeCluster v c buf)
  unfold content
  rw [hsec]
  unfold writeCluster
  rw [if_neg (not_lt.2 hc.1)]
  exact Geom.write_data hs.bytes hc hd ho (sectorOf_eq hs hc) (transfer_iff hs hc)

/-! ## Chains -/

/-- The chain that starts at `c` is the list `l` of clusters in use. -/
structure Chain (v : Exfat) (c : Nat) (l : List Nat) : Prop where
  trail : ∃ e, Trail v.nextCluster offChain c l e
  index : ∀ x ∈ l, v.geom.Index x
  used : ∀ x ∈ l, v.fatCache x ≠ fatFree

theorem offChain_fatEnd : offChain fatEnd = true := by decide

theorem offChain_of_index (hs : Sound v.geom) (hc : v.geom.Index c) : offChain c = false := by
  have hmost := hs.entries_lt
  obtain ⟨h2, hlt⟩ := hc
  unfold offChain
  rw [decide_eq_false (not_lt.2 h2)]
  exact beq_eq_false_iff_ne.2 (by omega)

theorem nextCluster_of_index (hc : v.geom.Index c) : v.nextCluster c = v.fatCache c := if_neg (not_le.2 hc.2)

theorem Chain.congr (h : v.Chain c l) (hg : w.geom = v.geom) (hf : ∀ x ∈ l, w.fatCache x = v.fatCache x) :
    w.Chain c l := by
  obtain ⟨e, he⟩ := h.trail
  refine ⟨⟨e, he.congr (fun x hx => ?_)⟩, fun x hx => by rw [hg]; exact h.index x hx,
    fun x hx => by rw [hf x hx]; exact h.used x hx⟩
  rw [nextCluster_of_index (h.index x hx), nextCluster_of_index (by rw [hg]; exact h.index x hx), hf x hx]

theorem Chain.nodup (h : v.Chain c l) : l.Nodup := by
  obtain ⟨e, he⟩ := h.trail
  exact he.nodup

theorem Chain.length_le (h : v.Chain c l) : l.length ≤ v.fatEntries := by
  have hsub : l ⊆ List.range v.fatEntries := fun x hx => mem_range.2 (h.index x hx).2
  have := (h.nodup.subperm hsub).length_le
  rwa [length_range] at this

theorem Chain.bytes_le (hs : Sound v.geom) (h : v.Chain c l) : l.length * v.bytesPerCluster ≤ 17592186044416 := by
  have hle : l.length * v.sectorsPerCluster ≤ v.fatEntries * v.sectorsPerCluster := mul_le_mul_right _ h.length_le
  have hsec : v.fatEntries * v.sectorsPerCluster ≤ 2 ^ 32 := hs.sectors
  have hb : v.bytesPerCluster = v.dev.sectorSize * v.sectorsPerCluster := hs.bytes
  have h4096 : v.dev.sectorSize ≤ 4096 := hs.sector4096
  rw [hb, mul_left_comm]
  exact Nat.mul_le_mul h4096 (hle.trans hsec)

/-! ## Free clusters -/

def freeClusters (v : Exfat) : List Nat :=
  (List.range' 2 (v.fatEntries - 2)).filter (fun i => decide (v.fatCache i = fatFree))

theorem newCluster_eq (v : Exfat) : v.newCluster = v.freeClusters.head?.getD 0 := by
  unfold newCluster freeClusters
  rw [List.head?_filter]

theorem newCluster_cons (h : v.newCluster ≠ 0) : ∃ F, v.freeClusters = v.newCluster :: F := by
  rw [newCluster_eq] at h ⊢
  rcases hF : v.freeClusters with _ | ⟨z, F⟩
  · rw [hF] at h
    exact absurd rfl h
  · exact ⟨F, rfl⟩

theorem freeClusters_nodup (v : Exfat) : v.freeClusters.Nodup := (nodup_range' ..).filter _

theorem mem_freeClusters : x ∈ v.freeClusters ↔ v.geom.Index x ∧ v.fatCache x = fatFree := by
  have hent : v.geom.fatEntries = v.fatEntries := rfl
  unfold freeClusters Geom.Index
  rw [mem_filter, mem_range'_1, decide_eq_true_iff]
  constructor
  · rintro ⟨⟨h1, h2⟩, h3⟩
    exact ⟨⟨h1, by omega⟩, h3⟩
  · rintro ⟨⟨h1, h2⟩, h3⟩
    exact ⟨⟨h1, by omega⟩, h3⟩

theorem freeClusters_tail {z : Nat} {F : List Nat} (hg : w.geom = v.geom) (h : v.freeClusters = z :: F)
    (hf : ∀ x, v.geom.Index x → (w.fatCache x = fatFree ↔ v.fatCache x = fatFree ∧ x ≠ z)) : w.freeClusters = F := by
  have hent : w.fatEntries = v.fatEntries := congrArg Geom.fatEntries hg
  have hz : z ∉ F := (nodup_cons.1 (h ▸ v.freeClusters_nodup)).1
  have hcongr : w.freeClusters = v.freeClusters.filter (fun x => decide (x ≠ z)) := by
    unfold freeClusters
    rw [hent, filter_filter]
    refine filter_congr (fun x hx => ?_)
    have hidx : v.geom.Index x := by
      rw [mem_range'_1] at hx
      exact ⟨hx.1, by show x < v.fatEntries; omega⟩
    rw [← Bool.decide_and, decide_eq_decide, hf x hidx]
    exact and_comm
  rw [hcongr, h, filter_cons_of_neg (by simp)]
  exact filter_eq_self.2 (fun x hx => decide_eq_true (fun hc => hz (hc ▸ hx)))

/-! ## What a buffer holds into which clusters are read -/

def held (v : Exfat) (stack : Mem) (ls : List Nat) : Mem := ls.foldl (fun m c => v.readCluster c m) stack

theorem held_append_one (v : Exfat) (stack : Mem) (ls : List Nat) (c : Nat) :
    v.held stack (ls ++ [c]) = v.readCluster c (v.held stack ls) := by
  unfold held
  rw [foldl_append, foldl_cons, foldl_nil]

end

/-- What `exfat_format` and `exfat_mount` make of a device of 100 sectors, with one more cluster in use. -/
def smallVol : Exfat :=
  { dev := { ready := true, sectorSize := 512, totalSectors := 100, data := blank }, fatOffset := 24, fatLength := 1,
    bytesPerSector := 512, sectorsPerCluster := 1, bytesPerCluster := 512, clusterHeapStart := 12800, rootCluster := 2,
    fatCache := fun c => if c = 0 then 0xFFFFFFF8 else if c < 4 then fatEnd else fatFree, fatEntries := 128 }

theorem smallVol_sound : Sound smallVol.geom := by
  constructor <;> simp [geom, heap, smallVol]

end Exfat

end OS64
