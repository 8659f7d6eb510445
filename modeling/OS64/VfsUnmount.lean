import OS64.HeapTrace
import OS64.VfsRefs
/-!
# VfsUnmount — what `vfs_unmount` releases

The blocks of a mounted volume are the inode of its root, the private data of that inode, the volume and its cached FAT.
`vfs_unmount` calls the driver's `unmount`, then `sync`, then gives back the reference to the root.  The FAT32 driver
has no `unmount` in its table, so nothing is released before the last reference is given back.  That of exFAT releases
the private data, which `exfat_sync` reads next (`unmountRight_iff`).
-/
namespace OS64

open List

inductive VolBlock where
  | inode
  | priv
  | volume
  | cache
deriving DecidableEq

def accesses (blocks : List VolBlock) : List (HeapOp VolBlock) := blocks.map .access

namespace Fat32

def syncOps (v : Fat32) : List (HeapOp VolBlock) :=
  accesses ([.inode, .priv, .volume] ++ if v.dirty = true then [.volume, .cache, .volume] else [])

def OnDisk (v : Fat32) (dev : BlockDev) : Prop :=
  ∀ o, o < 4 * v.fatEntries → dev.data (dev.sectorSize * v.fatStart + o) = v.fatBytes o

/-- Byte `o` of the FAT lies in the FSInfo sector, and that sector is written. -/
def InFsinfo (v : Fat32) (o : Nat) : Prop :=
  (v.dev.ready = true ∧ u64 (v.fsinfoSector + 1) ≤ v.dev.totalSectors) ∧
    v.dev.sectorSize * v.fsinfoSector ≤ v.dev.sectorSize * v.fatStart + o ∧
    v.dev.sectorSize * v.fatStart + o < v.dev.sectorSize * v.fsinfoSector + v.dev.sectorSize

/-- The device takes the FAT, with byte `o` of it. -/
def Takes (v : Fat32) (o : Nat) : Prop :=
  (v.dev.ready = true ∧ u64 (v.fatStart + v.fatSize32) ≤ v.dev.totalSectors) ∧ o < v.dev.sectorSize * v.fatSize32

/-- The FAT reaches the disk: the device takes each byte of it, or has it, and the FSInfo sector, which is written last,
does not change it. -/
def SyncSafe (v : Fat32) : Prop :=
  v.dirty = true → ∀ o, o < 4 * v.fatEntries →
    (v.InFsinfo o → v.fsinfoBytes (v.dev.sectorSize * v.fatStart + o - v.dev.sectorSize * v.fsinfoSector) =
      v.fatBytes o) ∧ (¬ v.InFsinfo o → v.Takes o ∨ v.dev.data (v.dev.sectorSize * v.fatStart + o) = v.fatBytes o)

end Fat32

namespace Exfat

/-- The FAT written back if it is marked dirty, in `exfat_sync` and in `exfat_unmount_fs`. -/
def writeBackOps (v : Exfat) : List VolBlock :=
  [.inode, .priv, .volume, .cache] ++
    if v.fatCache 0 % 2 = 1 then (List.range v.fatLength).flatMap (fun _ => [.volume, .cache]) ++ [.volume, .cache]
      else []

def syncOps (v : Exfat) : List (HeapOp VolBlock) := accesses v.writeBackOps

def unmountOps (v : Exfat) : List (HeapOp VolBlock) :=
  accesses (v.writeBackOps ++ [.volume]) ++ [.free .cache, .free .volume, .free .priv]

def OnDisk (v : Exfat) (dev : BlockDev) : Prop :=
  ∀ o, o < 4 * v.fatEntries → dev.data (dev.sectorSize * v.fatOffset + o) = v.fatBytes o

end Exfat

namespace Vfs

def syncOps (ops : List (HeapOp VolBlock)) : List (HeapOp VolBlock) := accesses [.inode] ++ ops ++ accesses [.inode]

def unrefOps (refcount : Nat) : List (HeapOp VolBlock) :=
  accesses [.inode] ++ if sub32 refcount 1 = 0 then accesses [.inode] ++ [.free .priv, .free .inode] else []

/-- `vfs_unmount` of the root of a volume, by what it does to the blocks of the volume. -/
def unmountOps (s : Vfs) (root : Nat) : Res (List (HeapOp VolBlock)) :=
  (s.inode root).bind (fun i =>
    match i.node with
    | .fat vol _ => (s.fat vol).bind (fun v => .ok (accesses [.inode] ++ syncOps v.syncOps ++ unrefOps i.refcount))
    | .exfat vol _ =>
      (s.exfat vol).bind (fun v =>
        .ok (accesses [.inode] ++ v.unmountOps ++ syncOps v.sync.syncOps ++ unrefOps i.refcount))
    | .devfs _ _ => .ok (accesses [.inode] ++ unrefOps i.refcount))

/-- The device of the volume of `root` when its driver has written back what is dirty, and whether the FAT, if it was
dirty, is on it. -/
def FatWritten (s : Vfs) (root : Nat) : Prop :=
  ∀ i, s.inodes root = some i →
    match i.node with
    | .fat vol _ => ∀ v, s.fats vol = some v → v.dirty = true → v.OnDisk v.sync.dev
    | .exfat vol _ => ∀ v, s.exfats vol = some v → v.fatCache 0 % 2 = 1 → v.OnDisk v.unmount
    | .devfs _ _ => True

/-- **Unmount releases once**: each block that is released is released once and not read afterwards, the call returns
and a dirty FAT is on disk. -/
structure UnmountRight (s : Vfs) (root : Nat) : Prop where
  orderly : ∃ ops, s.unmountOps root = .ok ops ∧ HeapOp.Orderly ops
  returns : ∃ s', s.unmount root = .ok s'
  written : FatWritten s root

end Vfs

namespace Fat32

theorem sync_dev {v : Fat32} (h : v.dirty = true) : v.sync.dev =
    (v.dev.write v.fatStart v.fatSize32 v.fatBytes).write v.fsinfoSector 1 v.fsinfoBytes := by
  rw [sync_dirty (by rw [h]; decide)]

theorem onDisk_iff (v : Fat32) : (v.dirty = true → v.OnDisk v.sync.dev) ↔ v.SyncSafe := by
  refine forall_congr' (fun hd => forall_congr' (fun o => forall_congr' (fun ho => ?_)))
  obtain ⟨hready, hsize, htotal⟩ := BlockDev.write_shape v.dev v.fatStart v.fatSize32 v.fatBytes
  have hbyte := BlockDev.write_data (v.dev.write v.fatStart v.fatSize32 v.fatBytes) v.fsinfoSector 1 v.fsinfoBytes
    (v.dev.sectorSize * v.fatStart + o)
  rw [hready, hsize, htotal, Nat.mul_one] at hbyte
  have hss : v.sync.dev.sectorSize = v.dev.sectorSize := by rw [sync_dev hd, (BlockDev.write_shape _ _ _ _).2.1, hsize]
  rw [hss, sync_dev hd, hbyte]
  by_cases hin : v.InFsinfo o
  · rw [if_pos (show (_ ∧ _) ∧ _ ∧ _ from hin)]
    exact ⟨fun h => ⟨fun _ => h, fun hc => absurd hin hc⟩, fun h => h.1 hin⟩
  rw [if_neg (show ¬ ((_ ∧ _) ∧ _ ∧ _) from hin), BlockDev.write_data]
  have htakes : ((v.dev.ready = true ∧ u64 (v.fatStart + v.fatSize32) ≤ v.dev.totalSectors) ∧
      v.dev.sectorSize * v.fatStart ≤ v.dev.sectorSize * v.fatStart + o ∧
      v.dev.sectorSize * v.fatStart + o < v.dev.sectorSize * v.fatStart + v.dev.sectorSize * v.fatSize32) ↔
      v.Takes o := by
    refine and_congr_right (fun _ => ?_)
    omega
  by_cases ht : v.Takes o
  · rw [if_pos (htakes.2 ht), Nat.add_sub_cancel_left]
    exact iff_of_true rfl ⟨fun hc => absurd hc hin, fun _ => .inl ht⟩
  · rw [if_neg (fun hc => ht (htakes.1 hc))]
    exact ⟨fun h => ⟨fun hc => absurd hc hin, fun _ => .inr h⟩, fun h => (h.2 hin).resolve_left ht⟩

end Fat32

namespace Vfs

open HeapOp (Orderly orderly_of_frees_last)

theorem accesses_append (a b : List VolBlock) : accesses a ++ accesses b = accesses (a ++ b) := (map_append ..).symm

theorem orderly_unref (blocks : List VolBlock) (refcount : Nat) : Orderly (accesses blocks ++ unrefOps refcount) := by
  unfold unrefOps
  split
  · rw [← append_assoc, ← append_assoc, accesses_append, accesses_append]
    exact @orderly_of_frees_last _ _ (blocks ++ [.inode] ++ [.inode]) [.priv, .inode] (by decide)
  · rw [append_nil, accesses_append, ← append_nil (accesses _)]
    exact @orderly_of_frees_last _ _ (blocks ++ [.inode]) [] (by decide)

theorem unmountOps_fat {s : Vfs} {p n vol : Nat} {f : Inode} {v : Fat32} (hi : s.inodes p = some ⟨n, .fat vol f⟩)
    (hv : s.fats vol = some v) : s.unmountOps p = .ok (accesses [.inode] ++ syncOps v.syncOps ++ unrefOps n) := by
  simp only [unmountOps, inode_eq hi, Res.bind, fat_eq hv]

theorem unmountOps_exfat {s : Vfs} {p n vol : Nat} {f : ExInode} {v : Exfat} (hi : s.inodes p = some ⟨n, .exfat vol f⟩)
    (hv : s.exfats vol = some v) :
    s.unmountOps p = .ok (accesses [.inode] ++ v.unmountOps ++ syncOps v.sync.syncOps ++ unrefOps n) := by
  simp only [unmountOps, inode_eq hi, Res.bind, exfat_eq hv]

theorem exfat_not_orderly (v : Exfat) (n : Nat) :
    ¬ Orderly (accesses [.inode] ++ v.unmountOps ++ syncOps v.sync.syncOps ++ unrefOps n) := fun h => by
  refine h.after (accesses [.inode] ++ (accesses (v.writeBackOps ++ [.volume]) ++ [.free .cache, .free .volume])) .priv
    (syncOps v.sync.syncOps ++ unrefOps n) ?_ ?_
  · simp only [Exfat.unmountOps, append_assoc, cons_append, nil_append]
  · refine mem_append_left _ (mem_append_left _ (mem_append_right _ ?_))
    exact mem_map_of_mem (mem_append_left _ (by decide))

theorem unmount_fat {s : Vfs} {p n vol : Nat} {f : Inode} {v : Fat32} (hi : s.inodes p = some ⟨n, .fat vol f⟩)
    (hv : s.fats vol = some v) : ∃ s', s.unmount p = .ok s' := by
  have hi' : ({ s with fats := Function.update s.fats vol (some v.sync) } : Vfs).inodes p = some ⟨n, .fat vol f⟩ := hi
  simp only [unmount, inode_eq hi, Res.bind, fat_eq hv, inodeUnref, inode_eq hi']
  by_cases hn : sub32 n 1 = 0
  · rw [if_pos hn]
    exact ⟨_, rfl⟩
  · rw [if_neg hn]
    exact ⟨_, rfl⟩

/-- **Unmount releases once** exactly on FAT32 with a FAT that reaches the disk. -/
theorem unmountRight_iff {s : Vfs} {root : Nat} (h : VolumeRoot s root) : UnmountRight s root ↔
    ∃ n vol f v, s.inodes root = some ⟨n, .fat vol f⟩ ∧ s.fats vol = some v ∧ v.SyncSafe := by
  cases h with
  | @fat n vol f v hi hv _ =>
    constructor
    · intro hr
      refine ⟨n, vol, f, v, hi, hv, v.onDisk_iff.1 ?_⟩
      exact hr.written _ hi v hv
    rintro ⟨n', vol', f', v', hi', hv', hsafe⟩
    rw [hi, Option.some.injEq] at hi'
    obtain ⟨rfl, rfl, rfl⟩ := hi'
    rw [hv, Option.some.injEq] at hv'
    subst hv'
    refine ⟨⟨_, unmountOps_fat hi hv, ?_⟩, unmount_fat hi hv, fun i hi' => ?_⟩
    · rw [syncOps, Fat32.syncOps, accesses_append, accesses_append, accesses_append]
      exact orderly_unref _ _
    rw [hi, Option.some.injEq] at hi'
    subst hi'
    intro w hw
    rw [hv, Option.some.injEq] at hw
    subst hw
    exact v.onDisk_iff.2 hsafe
  | @exfat n vol f v hi hv _ =>
    refine iff_of_false (fun hr => ?_) ?_
    · obtain ⟨ops, hops, ho⟩ := hr.orderly
      rw [unmountOps_exfat hi hv, Res.ok.injEq] at hops
      rw [← hops] at ho
      exact exfat_not_orderly v n ho
    · rintro ⟨n', vol', f', v', hi', -⟩
      rw [hi] at hi'
      cases hi'

def dirtyVol : Vfs :=
  { start with inodes := Function.update start.inodes 0 (some ⟨1, .fat 0 Fat32.smallRoot⟩)
               fats := Function.update start.fats 0 (some Fat32.smallVol) }

theorem smallVol_syncSafe : Fat32.smallVol.SyncSafe := fun _ o ho => by
  refine ⟨fun hin => absurd hin.2.2 (not_lt.2 ?_), fun _ => .inl ⟨by decide, ho⟩⟩
  exact (show 512 * 1 + 512 ≤ 512 * 32 by decide).trans (Nat.le_add_right _ o)

theorem dirtyVol_unmountRight : VolumeRoot dirtyVol 0 ∧ Fat32.smallVol.dirty = true ∧ UnmountRight dirtyVol 0 :=
  ⟨.fat rfl rfl rfl, rfl, (unmountRight_iff (.fat rfl rfl rfl)).2 ⟨_, _, _, _, rfl, rfl, smallVol_syncSafe⟩⟩

/-- An exFAT volume is mounted and the reference that the VFS took for its root is given back: with the last reference
`vfs_unmount` releases the private data a second time, after `exfat_sync` has read it. -/
theorem exfat_double_free : ∃ d s s' ops, Exfat.format hundredSectors = some d ∧
    start.mount (some FsDriver.exfat.name) d = .ok (s, some 0) ∧ s.inodeUnref (some 0) = .ok s' ∧ s'.refs 0 = 1 ∧
    s'.unmountOps 0 = .ok ops ∧ ops.count (.free .priv) = 2 ∧ ¬ UnmountRight s' 0 := by
  refine ⟨_, _, _, _, rfl, rfl, rfl, rfl, rfl, by decide, fun h => ?_⟩
  obtain ⟨ops, hops, ho⟩ := h.orderly
  cases hops
  exact exfat_not_orderly _ _ ho

end Vfs

end OS64
