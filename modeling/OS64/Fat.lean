import OS64.Bytes
import OS64.Trail
import OS64.Word
/-!
# Fat — a mounted FAT32 volume (`fs/fat32.c`): the device, the cached FAT, and its clusters

A buffer in memory is a `Mem` read from offset 0.  What a local buffer holds before it is filled is `blank`.  The loops
that follow the links of the FAT have as many turns as it has entries and two more; running out of them is `hang`.  No
call of `fat32_write_cluster` looks at its result, so here it gives the volume only.
-/
namespace OS64

/-- A block device whose handlers move exactly the sectors they are asked for. -/
structure BlockDev where
  ready : Bool
  sectorSize : Nat
  totalSectors : Nat
  data : Mem

namespace BlockDev

/-- `blockdev_read`: the bytes read, `none` for `-1`. -/
def read (dev : BlockDev) (lba count : Nat) : Option Mem :=
  if dev.ready = true ∧ u64 (lba + count) ≤ dev.totalSectors then some (fun o => dev.data (dev.sectorSize * lba + o))
  else none

/-- `blockdev_write`: the device, unchanged for `-1`. -/
def write (dev : BlockDev) (lba count : Nat) (buf : Mem) : BlockDev :=
  if dev.ready = true ∧ u64 (lba + count) ≤ dev.totalSectors then
    { dev with data := blit dev.data (dev.sectorSize * lba) (dev.sectorSize * count) buf }
  else dev

theorem write_data (dev : BlockDev) (lba count : Nat) (buf : Mem) (a : Nat) : (dev.write lba count buf).data a =
    if (dev.ready = true ∧ u64 (lba + count) ≤ dev.totalSectors) ∧ dev.sectorSize * lba ≤ a ∧
      a < dev.sectorSize * lba + dev.sectorSize * count then buf (a - dev.sectorSize * lba) else dev.data a := by
  unfold write
  split
  · rename_i hacc
    simp only [blit, and_iff_right hacc]
  · rename_i hacc
    rw [if_neg (fun hc => hacc hc.1)]

theorem write_shape (dev : BlockDev) (lba count : Nat) (buf : Mem) : (dev.write lba count buf).ready = dev.ready ∧
    (dev.write lba count buf).sectorSize = dev.sectorSize ∧ (dev.write lba count buf).totalSectors =
      dev.totalSectors := by
  unfold write
  split
  · exact ⟨rfl, rfl, rfl⟩
  · exact ⟨rfl, rfl, rfl⟩

end BlockDev

/-- `struct fat32`; of the boot parameters only `fat_size_32` is used once the volume is mounted. -/
structure Fat32 where
  dev : BlockDev
  fatSize32 : Nat
  freeCount : Nat
  nextFree : Nat
  bytesPerSector : Nat
  sectorsPerCluster : Nat
  bytesPerCluster : Nat
  totalClusters : Nat
  fatStart : Nat
  dataStart : Nat
  rootCluster : Nat
  fsinfoSector : Nat
  fatCache : Nat → Nat
  fatEntries : Nat
  dirty : Bool

/-- The FAT32 part of a `vfs_inode_t` and of its private data. -/
structure Inode where
  mode : Nat
  size : Nat
  firstCluster : Nat
  dirCluster : Nat
  dirEntry : Nat
  parentCluster : Nat
  entryOffset : Nat

def blank : Mem := fun _ => 0#8

namespace Fat32

def eoc : Nat := 0x0FFFFFF8
def bad : Nat := 0x0FFFFFF7
def free : Nat := 0

def offChain (cluster : Nat) : Bool := cluster == 0 || decide (eoc ≤ cluster)

def nextCluster (v : Fat32) (cluster : Nat) : Nat :=
  if cluster < 2 ∨ v.fatEntries ≤ cluster then eoc
  else if eoc ≤ v.fatCache cluster then eoc
  else if v.fatCache cluster = free ∨ v.fatCache cluster = bad then eoc
  else v.fatCache cluster

def sectorOf (v : Fat32) (cluster : Nat) : Nat := u32 (v.dataStart + (cluster - 2) * v.sectorsPerCluster)

def readCluster (v : Fat32) (cluster : Nat) : Option Mem :=
  if cluster < 2 then none else v.dev.read (v.sectorOf cluster) v.sectorsPerCluster

def writeCluster (v : Fat32) (cluster : Nat) (buf : Mem) : Fat32 :=
  if cluster < 2 then v else { v with dev := v.dev.write (v.sectorOf cluster) v.sectorsPerCluster buf }

def turns (v : Fat32) : Nat := v.fatEntries + 2

def setNext (v : Fat32) (cluster next : Nat) : Fat32 := { v with fatCache := Function.update v.fatCache cluster next }

def searchStart (v : Fat32) : Nat := if v.nextFree < 2 ∨ v.fatEntries ≤ v.nextFree then 2 else v.nextFree

/-- The cluster looked at in turn `i` of the search: it wraps behind the last entry. -/
def searchAt (v : Fat32) (i : Nat) : Nat :=
  let cluster := u32 (v.searchStart + i)
  if v.fatEntries ≤ cluster then u32 (2 + sub32 cluster v.fatEntries) else cluster

def take (v : Fat32) (cluster : Nat) : Fat32 :=
  { v with
    fatCache := Function.update v.fatCache cluster eoc
    freeCount := sub32 v.freeCount 1
    nextFree := if v.fatEntries ≤ u32 (cluster + 1) then 2 else u32 (cluster + 1)
    dirty := true }

/-- The first free cluster in search order is taken; cluster 0 is none. -/
def allocCluster (v : Fat32) : Fat32 × Nat :=
  let r := forLoop (fun i (w : Fat32) =>
    if v.fatCache (v.searchAt i) = free then (v.take (v.searchAt i), Flow.ret (v.searchAt i)) else (w, Flow.next))
    (sub32 v.fatEntries 2) 0 v
  (r.1, r.2.getD 0)

def release (v : Fat32) (cluster : Nat) : Fat32 :=
  { v with fatCache := Function.update v.fatCache cluster free, freeCount := u32 (v.freeCount + 1), dirty := true }

def freeClusterChainFrom : Nat → Fat32 → Nat → Res Fat32
  | 0, v, cluster => if 2 ≤ cluster ∧ cluster < v.fatEntries then .hang else .ok v
  | turns + 1, v, cluster =>
    if 2 ≤ cluster ∧ cluster < v.fatEntries then
      freeClusterChainFrom turns (v.release cluster) (if v.fatCache cluster < eoc then v.fatCache cluster else 0)
    else .ok v

def freeClusterChain (v : Fat32) (cluster : Nat) : Res Fat32 := freeClusterChainFrom v.turns v cluster

structure AllocState where
  vol : Fat32
  first : Nat
  prev : Nat

def allocTurn (s : AllocState) : AllocState × Option Nat :=
  match s.vol.allocCluster with
  | (v, 0) => ({ s with vol := v }, none)
  | (v, cluster + 1) =>
    ({ vol := if s.prev = 0 then v else v.setNext s.prev (cluster + 1)
       first := if s.first = 0 then cluster + 1 else s.first
       prev := cluster + 1 }, some (cluster + 1))

/-- `fat32_alloc_clusters`: the volume, `*first`, and the count returned. -/
def allocClusters (v : Fat32) (count : Nat) : Res (Fat32 × Nat × Nat) :=
  match forLoop (fun _ s =>
      match allocTurn s with
      | (s', some _) => (s', Flow.next)
      | (s', none) => (s', Flow.ret ())) count 0 { vol := v, first := 0, prev := 0 } with
  | (s, none) => .ok (s.vol, s.first, count)
  | (s, some ()) =>
    if s.first = 0 then .ok (s.vol, s.first, 0)
    else (s.vol.freeClusterChain s.first).bind (fun v => .ok (v, s.first, 0))

def fsinfoBytes (v : Fat32) : Mem :=
  store (store (store (store (store blank 0 4 0x41615252) 484 4 0x61417272) 488 4 v.freeCount) 492 4 v.nextFree)
    508 4 0xAA550000

def updateFsinfo (v : Fat32) : Fat32 :=
  if v.dirty = false then v
  else { v with dev := v.dev.write v.fsinfoSector 1 v.fsinfoBytes, dirty := false }

def fatBytes (v : Fat32) : Mem := fun o => BitVec.ofNat 8 (v.fatCache (o / 4) / 256 ^ (o % 4))

def sync (v : Fat32) : Fat32 :=
  if v.dirty = false then v
  else updateFsinfo { v with dev := v.dev.write v.fatStart v.fatSize32 v.fatBytes }

end Fat32

end OS64
