import OS64.Exfat
/-!
# ExfatMount — `exfat_mount`, `exfat_sync`, `exfat_unmount_fs` and `exfat_format`

As in `FatMount`.  The sectors of the FAT are read and written one by one; a mount does not look at the results.
-/
namespace OS64

namespace BlockDev

/-- `blockdev_write` where its result is looked at. -/
def tryWrite (dev : BlockDev) (lba count : Nat) (buf : Mem) : Option BlockDev :=
  if dev.ready = true ∧ u64 (lba + count) ≤ dev.totalSectors then some (dev.write lba count buf) else none

end BlockDev

structure Vbr where
  fsName : Name
  fatOffset : Nat
  fatLength : Nat
  clusterHeapOffset : Nat
  rootDirCluster : Nat
  bytesPerSectorShift : Nat
  sectorsPerClusterShift : Nat
deriving DecidableEq

namespace Vbr

def ofSector (sector : Mem) : Vbr :=
  { fsName := (List.range 8).map (fun k => sector (3 + k)), fatOffset := load sector 80 4,
    fatLength := load sector 84 4,
    clusterHeapOffset := load sector 88 4, rootDirCluster := load sector 96 4, bytesPerSectorShift := load sector 108 1,
    sectorsPerClusterShift := load sector 109 1 }

def bytesPerSector (b : Vbr) : Nat := u32 (2 ^ b.bytesPerSectorShift)

def sectorsPerCluster (b : Vbr) : Nat := u32 (2 ^ b.sectorsPerClusterShift)

end Vbr

namespace Exfat

def volumeName : Name := Name.ofString "EXFAT   "

def readFat (dev : BlockDev) (b : Vbr) : Nat → Mem
  | 0 => blank
  | n + 1 =>
    match dev.read (u32 (b.fatOffset + n)) 1 with
    | none => readFat dev b n
    | some data => blit (readFat dev b n) (n * b.bytesPerSector) dev.sectorSize data

def ofVbr (dev : BlockDev) (b : Vbr) : Exfat :=
  { dev := dev, fatOffset := b.fatOffset, fatLength := b.fatLength, bytesPerSector := b.bytesPerSector,
    sectorsPerCluster := b.sectorsPerCluster, bytesPerCluster := u32 (b.bytesPerSector * b.sectorsPerCluster),
    clusterHeapStart := u64 (b.clusterHeapOffset * b.bytesPerSector), rootCluster := b.rootDirCluster,
    fatCache := fun c => load (readFat dev b b.fatLength) (4 * c) 4,
    fatEntries := u32 (b.fatLength * b.bytesPerSector) / 4 }

def rootInode (b : Vbr) : ExInode :=
  { mode := Fat32.ftDir, size := 0, firstCluster := b.rootDirCluster, dataLength := 0, dirCluster := b.rootDirCluster,
    dirEntry := 0, parentCluster := b.rootDirCluster }

/-- `exfat_mount`: the volume and the inode of the root; `none` for `-1`. -/
def mount (dev : BlockDev) : Res (Option (Exfat × ExInode)) :=
  match dev.read 0 1 with
  | none => .ok none
  | some sector =>
    let b := Vbr.ofSector sector
    if b.fsName ≠ volumeName then .ok none
    else if u32 (b.fatLength * b.bytesPerSector) = 0 then .ok none
    else if 4294967296 ≤ b.fatLength * b.bytesPerSector then .panic "fat_cache"
    else .ok (some (ofVbr dev b, rootInode b))

def fatBytes (v : Exfat) : Mem := fun o => BitVec.ofNat 8 (v.fatCache (o / 4) / 256 ^ (o % 4))

def writeFat (v : Exfat) : Nat → BlockDev
  | 0 => v.dev
  | n + 1 => (writeFat v n).write (u32 (v.fatOffset + n)) (v.bytesPerSector / 512)
      (fun o => v.fatBytes (n * v.bytesPerSector + o))

def sync (v : Exfat) : Exfat :=
  if v.fatCache 0 % 2 = 1 then ({ v with dev := v.writeFat v.fatLength }).setNext 0 (v.fatCache 0 - 1) else v

def unmount (v : Exfat) : BlockDev := v.sync.dev

/-! ## `exfat_format` -/

def clusterShiftFor (totalSectors : Nat) : Nat :=
  if totalSectors < 0x100000 then 0 else if totalSectors < 0x400000 then 1 else if totalSectors < 0x1000000 then 3
    else 6

def fatSectorsFor (sectorSize totalSectors : Nat) : Nat :=
  let fatEntries := u32 (totalSectors / 2 ^ clusterShiftFor totalSectors + 2)
  sub32 (u32 (fatEntries * 4) + sectorSize) 1 / sectorSize

def vbrFor (sectorSize totalSectors : Nat) : Vbr :=
  { fsName := volumeName, fatOffset := 24, fatLength := fatSectorsFor sectorSize totalSectors,
    clusterHeapOffset := u32 (24 + fatSectorsFor sectorSize totalSectors), rootDirCluster := 2,
    bytesPerSectorShift := 9, sectorsPerClusterShift := clusterShiftFor totalSectors }

/-- The boot sector with these parameters; of the fields that nothing reads only the two signature bytes. -/
def vbrSector (b : Vbr) : Mem :=
  let s := blit blank 3 8 (fun k => b.fsName.getD k 0#8)
  let s := store (store (store (store s 80 4 b.fatOffset) 84 4 b.fatLength) 88 4 b.clusterHeapOffset) 96 4
    b.rootDirCluster
  store (store (store s 108 1 b.bytesPerSectorShift) 109 1 b.sectorsPerClusterShift) 510 2 0xAA55

def newFat : Mem := store (store (store blank 0 4 0xFFFFFFF8) 4 4 0xFFFFFFFF) 8 4 0xFFFFFFFF

def writeNewFat (dev : BlockDev) : Nat → Option BlockDev
  | 0 => some dev
  | n + 1 => (writeNewFat dev n).bind (fun d => d.tryWrite (24 + n) 1 (fun o => newFat (n * dev.sectorSize + o)))

/-- `exfat_format`: the device, `none` for `-1`.  A FAT of no sectors has no buffer. -/
def format (dev : BlockDev) : Option BlockDev :=
  if dev.ready = false then none
  else
    let b := vbrFor dev.sectorSize dev.totalSectors
    (dev.tryWrite 0 1 (vbrSector b)).bind (fun dev =>
      if b.fatLength = 0 then none
      else
        (writeNewFat dev b.fatLength).bind (fun dev =>
          dev.tryWrite b.clusterHeapOffset (2 ^ b.sectorsPerClusterShift) blank))

end Exfat

end OS64
