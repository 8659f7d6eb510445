import OS64.FatDir
/-!
# FatMount — `fat32_mount`, `fat32_unmount` and `fat32_format`

Of the boot parameters those are modelled that the driver reads.  `malloc` is taken to succeed unless it is asked for no
bytes; a FAT whose size in bytes does not fit 32 bits gets too small a buffer, and reading it is undefined.
-/
namespace OS64

structure Bpb where
  bytesPerSector : Nat
  sectorsPerCluster : Nat
  reservedSectors : Nat
  numFats : Nat
  totalSectors32 : Nat
  fatSize32 : Nat
  rootCluster : Nat
  fsInfo : Nat
deriving DecidableEq

namespace Bpb

def ofSector (sector : Mem) : Bpb :=
  { bytesPerSector := load sector 11 2, sectorsPerCluster := load sector 13 1, reservedSectors := load sector 14 2,
    numFats := load sector 16 1, totalSectors32 := load sector 32 4, fatSize32 := load sector 36 4,
    rootCluster := load sector 44 4, fsInfo := load sector 48 2 }

def dataStart (b : Bpb) : Nat := u32 (b.reservedSectors + u32 (b.numFats * b.fatSize32))

def fatEntries (b : Bpb) : Nat := u32 (b.fatSize32 * 512) / 4

def Accepted (b : Bpb) : Prop := b.bytesPerSector = 512 ∧ b.sectorsPerCluster ≠ 0 ∧ b.fatSize32 ≠ 0

instance (b : Bpb) : Decidable b.Accepted := inferInstanceAs (Decidable (_ ∧ _))

end Bpb

namespace Fat32

def countFree (cache : Nat → Nat) (entries : Nat) : Nat :=
  ((List.range entries).filter (fun i => decide (2 ≤ i ∧ cache i = free))).length

def fatOf (bytes : Mem) (c : Nat) : Nat := load bytes (4 * c) 4

/-- `free_count` and `next_free` as a mount finds them: read from the FSInfo sector, without a look at the result, or
counted. -/
def fsinfoOf (dev : BlockDev) (b : Bpb) (cache : Nat → Nat) : Nat × Nat :=
  if b.fsInfo = 0 then (countFree cache b.fatEntries, 2)
  else
    match dev.read b.fsInfo 1 with
    | none => (0, 0)
    | some sector => (load sector 488 4, load sector 492 4)

def ofBpb (dev : BlockDev) (b : Bpb) (cache : Nat → Nat) (info : Nat × Nat) : Fat32 :=
  { dev := dev, fatSize32 := b.fatSize32, freeCount := info.1, nextFree := info.2, bytesPerSector := b.bytesPerSector,
    sectorsPerCluster := b.sectorsPerCluster, bytesPerCluster := b.bytesPerSector * b.sectorsPerCluster,
    totalClusters := sub32 b.totalSectors32 b.dataStart / b.sectorsPerCluster, fatStart := b.reservedSectors,
    dataStart := b.dataStart, rootCluster := b.rootCluster, fsinfoSector := b.fsInfo, fatCache := cache,
    fatEntries := b.fatEntries, dirty := false }

def rootInode (b : Bpb) : Inode :=
  { mode := ftDir, size := 0, firstCluster := b.rootCluster, dirCluster := 0, dirEntry := 0,
    parentCluster := b.rootCluster, entryOffset := 0 }

/-- `fat32_mount`: the boot parameters, the volume and the inode of the root; `none` for `-1`. -/
def mount (dev : BlockDev) : Res (Option (Bpb × Fat32 × Inode)) :=
  match dev.read 0 1 with
  | none => .ok none
  | some sector =>
    let b := Bpb.ofSector sector
    if ¬ b.Accepted then .ok none
    else if 8388608 ≤ b.fatSize32 then (if u32 (b.fatSize32 * 512) = 0 then .ok none else .panic "fat_cache")
    else
      match dev.read b.reservedSectors b.fatSize32 with
      | none => .ok none
      | some bytes =>
        .ok (some (b, ofBpb dev b (fatOf bytes) (fsinfoOf dev b (fatOf bytes)), rootInode b))

/-! ## `fat32_format` -/

def sectorsPerClusterFor (totalSectors : Nat) : Nat :=
  if totalSectors < 0x100000 then 1 else if totalSectors < 0x400000 then 4 else if totalSectors < 0x1000000 then 8
    else 16

def fatSizeFor (sectorSize totalSectors : Nat) : Nat :=
  let spc := sectorsPerClusterFor totalSectors
  sub32 (u32 (u32 (sub64 (totalSectors + spc) 1 / spc) * 4) + sectorSize) 1 / sectorSize

def bpbFor (sectorSize totalSectors : Nat) : Bpb :=
  { bytesPerSector := 512, sectorsPerCluster := sectorsPerClusterFor totalSectors, reservedSectors := 32, numFats := 2,
    totalSectors32 := u32 totalSectors, fatSize32 := fatSizeFor sectorSize totalSectors, rootCluster := 2, fsInfo := 1 }

/-- The boot sector with these parameters; of the fields that nothing reads only the two signature bytes. -/
def bootSector (b : Bpb) : Mem :=
  let s := store (store (store (store blank 11 2 b.bytesPerSector) 13 1 b.sectorsPerCluster) 14 2 b.reservedSectors)
    16 1 b.numFats
  let s := store (store (store (store s 32 4 b.totalSectors32) 36 4 b.fatSize32) 44 4 b.rootCluster) 48 2 b.fsInfo
  store s 510 2 0xAA55

def newFsinfo (dataStart totalSectors : Nat) : Mem :=
  let spc := sectorsPerClusterFor totalSectors
  store (store (store (store (store blank 0 4 0x41615252) 484 4 0x61417272) 488 4 (sub64 totalSectors dataStart / spc))
    492 4 3) 508 4 0xAA550000

def newFat : Mem := store (store (store blank 0 4 0x0FFFFFF8) 4 4 0x0FFFFFFF) 8 4 0x0FFFFFFF

def newRoot : Mem := putDots (putDots blank 0 1 2) 32 2 2

/-- `fat32_format`: the device, `none` for `-1`; only the first write is looked at.  A FAT of no sectors has no
buffer. -/
def format (dev : BlockDev) : Option BlockDev :=
  if dev.ready = false then none
  else
    let b := bpbFor dev.sectorSize dev.totalSectors
    let dataStart := u32 (32 + 2 * b.fatSize32)
    let info := newFsinfo dataStart dev.totalSectors
    if dev.totalSectors < 1 ∨ b.fatSize32 = 0 then none
    else
      let dev := (dev.write 0 1 (bootSector b)).write 6 1 (bootSector b)
      let dev := (dev.write 1 1 info).write 7 1 info
      let dev := (dev.write 32 b.fatSize32 newFat).write (u32 (32 + b.fatSize32)) b.fatSize32 newFat
      some (dev.write dataStart b.sectorsPerCluster newRoot)

end Fat32

end OS64
