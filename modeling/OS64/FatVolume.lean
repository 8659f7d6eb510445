import OS64.FatFile
/-!
# FatVolume — clusters as places on the device, and chains as lists

`content` is what a cluster holds.  On a sound volume the clusters of the FAT lie apart, so writing one of them changes
the content of that one only (`content_writeCluster`), and nothing at all when it lies behind the end of the device.
-/
namespace OS64

open Nat

namespace Fat32

structure Geom where
  ready : Bool
  sectorSize : Nat
  totalSectors : Nat
  fatSize32 : Nat
  sectorsPerCluster : Nat
  bytesPerCluster : Nat
  fatStart : Nat
  dataStart : Nat
  rootCluster : Nat
  fsinfoSector : Nat
  fatEntries : Nat

def geom (v : Fat32) : Geom :=
  { ready := v.dev.ready, sectorSize := v.dev.sectorSize, totalSectors := v.dev.totalSectors, fatSize32 := v.fatSize32,
    sectorsPerCluster := v.sectorsPerCluster, bytesPerCluster := v.bytesPerCluster, fatStart := v.fatStart,
    dataStart := v.dataStart, rootCluster := v.rootCluster, fsinfoSector := v.fsinfoSector, fatEntries := v.fatEntries }

namespace Geom

/-- A ready device of 512-byte sectors, 28-bit cluster numbers, and sector numbers that fit 32 bits. -/
structure Sound (g : Geom) : Prop where
  ready : g.ready = true
  sector512 : g.sectorSize = 512
  cluster : 0 < g.sectorsPerCluster
  bytes : g.bytesPerCluster = 512 * g.sectorsPerCluster
  least : 2 ≤ g.fatEntries
  most : g.fatEntries ≤ bad
  sectors : g.dataStart + g.fatEntries * g.sectorsPerCluster ≤ 4294967296

def Index (g : Geom) (c : Nat) : Prop := 2 ≤ c ∧ c < g.fatEntries

def sector (g : Geom) (c : Nat) : Nat := g.dataStart + (c - 2) * g.sectorsPerCluster

def OnDevice (g : Geom) (c : Nat) : Prop := g.sector c + g.sectorsPerCluster ≤ g.totalSectors

instance (g : Geom) (c : Nat) : Decidable (g.OnDevice c) := inferInstanceAs (Decidable (_ ≤ _))

instance (g : Geom) (c : Nat) : Decidable (g.Index c) := inferInstanceAs (Decidable (_ ∧ _))

variable {g : Geom}

/-- The FAT has as many entries as 28-bit numbers can name. -/
structure Sized (g : Geom) : Prop where
  least : 2 ≤ g.fatEntries
  most : g.fatEntries ≤ bad

theorem Sound.sized (hs : g.Sound) : g.Sized := ⟨hs.least, hs.most⟩

theorem Sized.entries_le (hs : g.Sized) : g.fatEntries ≤ 268435447 := by
  have h := hs.most
  exact h

theorem Sound.bytes_pos (hs : g.Sound) : 0 < g.bytesPerCluster := by
  rw [hs.bytes]
  exact Nat.mul_pos (by decide) hs.cluster

theorem Sound.sector_lt (hs : g.Sound) {c : Nat} (hc : g.Index c) : g.sector c + g.sectorsPerCluster ≤ 2 ^ 32 := by
  have hle : (c - 2 + 1) * g.sectorsPerCluster ≤ g.fatEntries * g.sectorsPerCluster :=
    mul_le_mul_right _ (by have := hc.2; omega)
  rw [add_mul] at hle
  have := hs.sectors
  unfold Geom.sector
  omega

theorem sector_apart {c d : Nat} (hc : g.Index c) (hd : g.Index d) (h : c ≠ d) :
    g.sector c + g.sectorsPerCluster ≤ g.sector d ∨ g.sector d + g.sectorsPerCluster ≤ g.sector c := by
  have key : ∀ {a b : Nat}, 2 ≤ a → a < b → g.sector a + g.sectorsPerCluster ≤ g.sector b := by
    intro a b ha hab
    have hle : (a - 2 + 1) * g.sectorsPerCluster ≤ (b - 2) * g.sectorsPerCluster := mul_le_mul_right _ (by omega)
    rw [add_mul] at hle
    unfold sector
    omega
  rcases lt_or_gt_of_ne h with hlt | hlt
  · exact .inl (key hc.1 hlt)
  · exact .inr (key hd.1 hlt)

section
variable {dev : BlockDev} {c d o lba : Nat} {buf : Mem}

theorem transfer_iff (hready : dev.ready = true) (hlt : g.sector c + g.sectorsPerCluster < 2 ^ 64) :
    (dev.ready = true ∧ u64 (g.sector c + g.sectorsPerCluster) ≤ g.totalSectors) ↔ g.OnDevice c := by
  rw [u64_of_lt hlt]
  exact and_iff_right hready

theorem write_data (hb : g.bytesPerCluster = dev.sectorSize * g.sectorsPerCluster) (hc : g.Index c) (hd : g.Index d)
    (ho : o < g.bytesPerCluster) (hlba : lba = g.sector c)
    (hon : (dev.ready = true ∧ u64 (lba + g.sectorsPerCluster) ≤ dev.totalSectors) ↔ g.OnDevice c) :
    (dev.write lba g.sectorsPerCluster buf).data (dev.sectorSize * g.sector d + o) =
      if d = c ∧ g.OnDevice c then buf o else dev.data (dev.sectorSize * g.sector d + o) := by
  subst hlba
  simp only [BlockDev.write_data, hon]
  by_cases hdc : d = c
  · subst hdc
    have hin : dev.sectorSize * g.sector d ≤ dev.sectorSize * g.sector d + o ∧ dev.sectorSize * g.sector d + o <
        dev.sectorSize * g.sector d + dev.sectorSize * g.sectorsPerCluster := by omega
    simp only [hin, and_true, true_and, Nat.add_sub_cancel_left]
  rw [if_neg (fun h : d = c ∧ _ => hdc h.1), if_neg]
  rintro ⟨-, hlo, hhi⟩
  rcases sector_apart hc hd (Ne.symm hdc) with h | h
  · have hm := Nat.mul_le_mul_left dev.sectorSize h
    rw [Nat.mul_add] at hm
    omega
  · have hm := Nat.mul_le_mul_left dev.sectorSize h
    rw [Nat.mul_add] at hm
    omega

end

end Geom

theorem geom_fatEntries (v : Fat32) : v.geom.fatEntries = v.fatEntries := rfl

def content (v : Fat32) (c o : Nat) : BitVec 8 := v.dev.data (512 * v.geom.sector c + o)

section
variable {v : Fat32} {c d o : Nat} {buf : Mem}

theorem bytes_congr {w : Fat32} (h : w.geom = v.geom) : w.bytesPerCluster = v.bytesPerCluster :=
  congrArg Geom.bytesPerCluster h

section
variable (hs : v.geom.Sound) (hc : v.geom.Index c)
include hs hc

theorem sectorOf_eq : v.sectorOf c = v.geom.sector c := by
  have hlt := hs.sector_lt hc
  have hpos := hs.cluster
  exact u32_of_lt (by show v.geom.sector c < _; omega)

theorem transfer_iff :
    (v.dev.ready = true ∧ u64 (v.sectorOf c + v.sectorsPerCluster) ≤ v.dev.totalSectors) ↔ v.geom.OnDevice c := by
  rw [sectorOf_eq hs hc]
  exact Geom.transfer_iff hs.ready ((hs.sector_lt hc).trans_lt (by decide))

theorem readCluster_on (hd : v.geom.OnDevice c) : v.readCluster c = some (v.content c) := by
  unfold readCluster BlockDev.read
  rw [if_neg (not_lt.2 hc.1), if_pos ((transfer_iff hs hc).2 hd), sectorOf_eq hs hc]
  have hsec : v.dev.sectorSize = 512 := hs.sector512
  rw [hsec]
  rfl

theorem readCluster_off (hd : ¬ v.geom.OnDevice c) : v.readCluster c = none := by
  unfold readCluster BlockDev.read
  rw [if_neg (not_lt.2 hc.1), if_neg (fun h => hd ((transfer_iff hs hc).1 h))]

end

@[simp] theorem geom_writeCluster (v : Fat32) (c : Nat) (buf : Mem) : (v.writeCluster c buf).geom = v.geom := by
  unfold writeCluster BlockDev.write
  split
  · rfl
  · split <;> rfl

@[simp] theorem fatCache_writeCluster (v : Fat32) (c : Nat) (buf : Mem) :
    (v.writeCluster c buf).fatCache = v.fatCache := by
  unfold writeCluster
  split <;> rfl

/-- **Writing a cluster changes that cluster**, if it lies on the device, **and no other.** -/
theorem content_writeCluster (hs : v.geom.Sound) (hc : v.geom.Index c) (hd : v.geom.Index d)
    (ho : o < v.geom.bytesPerCluster) :
    (v.writeCluster c buf).content d o = if d = c ∧ v.geom.OnDevice c then buf o else v.content d o := by
  have hsec : v.dev.sectorSize = 512 := hs.sector512
  have hbytes : v.geom.bytesPerCluster = v.dev.sectorSize * v.sectorsPerCluster := by rw [hsec]; exact hs.bytes
  unfold content
  rw [← hsec]
  unfold writeCluster
  rw [if_neg (not_lt.2 hc.1)]
  exact Geom.write_data hbytes hc hd ho (sectorOf_eq hs hc) (transfer_iff hs hc)

end

@[simp] theorem geom_setNext (v : Fat32) (c n : Nat) : (v.setNext c n).geom = v.geom := rfl

@[simp] theorem geom_take (v : Fat32) (c : Nat) : (v.take c).geom = v.geom := by rfl

@[simp] theorem content_take (v : Fat32) (c : Nat) : (v.take c).content = v.content := by
  rfl

end Fat32

end OS64
