import OS64.FatFile
/-!
# FatDir — the directory operations of `fs/fat32.c`

A result `none` stands for the return value `-1`.  `fat32_create` and `fat32_rename` may give the directory its first
cluster, so they return its inode too.  `vfs_alloc_inode` and `malloc` are taken to succeed, as the code does.
-/
namespace OS64

namespace Fat32

def slotCount (v : Fat32) : Nat := v.bytesPerCluster / 32

/-- The inode `fat32_lookup` makes of slot `i` of a directory's cluster, the directory's slot number `index`. -/
def inodeAt (dir : Inode) (cluster : Nat) (buf : Mem) (i index : Nat) : Inode :=
  { mode := if entAttr buf (32 * i) &&& attrDirectory = 0 then ftRegFile else ftDir
    size := entSize buf (32 * i)
    firstCluster := entCluster buf (32 * i)
    dirCluster := cluster
    dirEntry := index
    parentCluster := dir.firstCluster
    entryOffset := 32 * i }

def lookupSlot (dir : Inode) (name : Name) (cluster : Nat) (buf : Mem) (i index : Nat) : Nat × Flow (Option Inode) :=
  if buf (32 * i) = 0#8 then (index, .ret none)
  else if buf (32 * i) = deleted then (index + 1, .next)
  else if entAttr buf (32 * i) = attrLfn then (index + 1, .next)
  else if nameFromEntry (entName buf (32 * i)) = name then (index, .ret (some (inodeAt dir cluster buf i index)))
  else (index + 1, .next)

def lookupCluster (v : Fat32) (dir : Inode) (name : Name) (cluster index : Nat) : Nat × Flow (Option Inode) :=
  match v.readCluster cluster with
  | none => (index, .ret none)
  | some buf =>
    match forLoop (lookupSlot dir name cluster buf) v.slotCount 0 index with
    | (index, none) => (index, .next)
    | (index, some r) => (index, .ret r)

def lookup (v : Fat32) (dir : Inode) (name : Name) : Res (Option Inode) :=
  (trailLoop v.nextCluster offChain (v.lookupCluster dir name) v.turns dir.firstCluster 0).bind
    (fun r => .ok (r.2.2.getD none))

/-! ## Room for new slots -/

def freeSlot (v : Fat32) (buf : Mem) : Option Nat :=
  (List.range v.slotCount).find? (fun i => decide (buf (32 * i) = 0#8 ∨ buf (32 * i) = deleted))

structure Search where
  buf : Mem
  index : Nat
  slot : Option Nat

/-- One cluster of the search for a free slot; `strict` when a failed read ends it, as in `fat32_create`. -/
def searchCluster (v : Fat32) (strict : Bool) (cluster : Nat) (s : Search) : Search × Flow Unit :=
  match v.readCluster cluster, strict with
  | none, true => (s, .ret ())
  | r, _ =>
    let buf := r.getD s.buf
    match v.freeSlot buf with
    | some i => ({ buf := buf, index := s.index + i, slot := some i }, .brk)
    | none => ({ buf := buf, index := s.index + v.slotCount, slot := none }, .next)

def searchDir (v : Fat32) (strict : Bool) (dir : Inode) : Res (Search × Nat × Option Unit) :=
  trailLoop v.nextCluster offChain (v.searchCluster strict) v.turns dir.firstCluster
    { buf := blank, index := 0, slot := none }

/-- `while ((next = fat32_next_cluster(fat, last)) && next < FAT32_EOC) last = next;` -/
def lastCluster (v : Fat32) : Nat → Nat → Res Nat
  | 0, last => if offChain (v.nextCluster last) then .ok last else .hang
  | turns + 1, last => if offChain (v.nextCluster last) then .ok last else lastCluster v turns (v.nextCluster last)

def linkLast (v : Fat32) (dir : Inode) (new : Nat) : Res (Fat32 × Inode) :=
  if dir.firstCluster = 0 then .ok (v, { dir with firstCluster := new })
  else (v.lastCluster v.turns dir.firstCluster).bind (fun last => .ok (v.setNext last new, dir))

/-! ## `fat32_create` -/

def putEntry (t : Rtc) (buf : Mem) (o : Nat) (short : Name) (mode : Nat) : Mem :=
  let buf := setName (fill buf o 32 0#8) o short
  let buf := store buf (o + 11) 1 (if mode = ftDir then attrDirectory else attrArchive)
  let buf := setWritten (setCreated buf o t) o t
  store buf (o + 18) 2 t.fatDate

/-- The entry `.` (`dots = 1`) or `..` (`dots = 2`) of a directory, without times. -/
def putDots (buf : Mem) (o dots cluster : Nat) : Mem :=
  let buf := setName buf o (List.replicate dots dot ++ List.replicate (11 - dots) space)
  setCluster (store buf (o + 11) 1 attrDirectory) o cluster

def newDir (t : Rtc) (cluster parent : Nat) : Mem :=
  setCreated (putDots (setCreated (putDots blank 0 1 cluster) 0 t) 32 2 parent) 32 t

def lfnEntries (name : Name) : Nat := if 12 < name.length then lfnCount name else 0

/-- The content of a cluster with the slots of a new entry from `slot` on: those of the long name, and the main one. -/
def newSlots (t : Rtc) (buf : Mem) (name : Name) (mode slot : Nat) : Mem :=
  let short := nameToEntry name
  let buf := if lfnEntries name = 0 then buf else (createLfnEntries buf (32 * slot) name (checksum short)).1
  putEntry t buf (32 * (slot + lfnEntries name)) short mode

def createAt (t : Rtc) (v : Fat32) (dir : Inode) (name : Name) (mode : Nat) (buf : Mem) (cluster slot index : Nat) :
    Fat32 × Option Inode :=
  if v.slotCount < slot + (1 + lfnEntries name) then (v, none)
  else
    let o := 32 * (slot + lfnEntries name)
    let buf := newSlots t buf name mode slot
    let inode (buf : Mem) : Inode :=
      { mode := mode, size := 0, firstCluster := entCluster buf o, dirCluster := cluster, dirEntry := index,
        parentCluster := dir.firstCluster, entryOffset := o }
    if mode = ftDir then
      match v.allocCluster with
      | (v, 0) => (v, none)
      | (v, first + 1) =>
        let buf := setCluster buf o (first + 1)
        let v := v.writeCluster (first + 1) (newDir t (first + 1) dir.firstCluster)
        (v.writeCluster cluster buf, some (inode buf))
    else (v.writeCluster cluster buf, some (inode buf))

def create (t : Rtc) (v : Fat32) (dir : Inode) (name : Name) (mode : Nat) : Res (Fat32 × Inode × Option Inode) :=
  (v.lookup dir name).bind (fun existing =>
    match existing with
    | some _ => .ok (v, dir, none)
    | none => (v.searchDir true dir).bind (fun r =>
      match r with
      | (_, _, some ()) => .ok (v, dir, none)
      | ({ buf, index, slot := some i }, cluster, none) =>
        let r := createAt t v dir name mode buf cluster i index
        .ok (r.1, dir, r.2)
      | ({ buf := _, index, slot := none }, _, none) =>
        match v.allocCluster with
        | (v, 0) => .ok (v, dir, none)
        | (v, new + 1) => (v.linkLast dir (new + 1)).bind (fun (v, dir) =>
          let v := v.writeCluster (new + 1) blank
          let r := createAt t v dir name mode ((v.readCluster (new + 1)).getD blank) (new + 1) 0 index
          .ok (r.1, dir, r.2))))

/-! ## `fat32_unlink` and `fat32_rename` -/

/-- The long-name slots right before slot `i` that the backward scan counts: it stops at the one marked `0x40`. -/
def lfnBefore (buf : Mem) : Nat → Nat
  | 0 => 0
  | i + 1 =>
    if entAttr buf (32 * i) = attrLfn then
      if (buf (32 * i)).toNat &&& 0x40 = 0 then lfnBefore buf i + 1 else 0
    else 0

def markDeleted (buf : Mem) (start : Nat) : Nat → Mem
  | 0 => buf
  | k + 1 => store (markDeleted buf start k) (32 * (start + k)) 1 deleted.toNat

def unlink (v : Fat32) (dir : Inode) (name : Name) : Res (Fat32 × Bool) :=
  (v.lookup dir name).bind (fun r =>
    match r with
    | none => .ok (v, false)
    | some inode =>
      (if inode.firstCluster = 0 then .ok v else v.freeClusterChain inode.firstCluster).bind (fun v =>
        let buf := (v.readCluster inode.dirCluster).getD blank
        let num := inode.entryOffset / 32
        let lfn := lfnBefore buf num
        .ok (v.writeCluster inode.dirCluster (markDeleted buf (num - lfn) (lfn + 1)), true)))

def setChecksums (data : Mem) (sum : BitVec 8) : Nat → Mem
  | 0 => data
  | k + 1 => store (setChecksums data sum k) (32 * k + 13) 1 sum.toNat

/-- The saved slots of a renamed entry with the new name: `lfn` long-name slots and the main one. -/
def renamed (data : Mem) (lfn : Nat) (name : Name) : Mem :=
  setChecksums (setName data (32 * lfn) (nameToEntry name)) (checksum (nameToEntry name)) lfn

def rename (v : Fat32) (oldDir : Inode) (oldName : Name) (newDir : Inode) (newName : Name) :
    Res (Fat32 × Inode × Bool) :=
  (v.lookup oldDir oldName).bind (fun r =>
    match r with
    | none => .ok (v, newDir, false)
    | some file =>
      let oldBuf := (v.readCluster file.dirCluster).getD blank
      let num := file.entryOffset / 32
      let lfn := lfnBefore oldBuf num
      let data : Mem := fun o => oldBuf (32 * (num - lfn) + o)
      let marked := markDeleted oldBuf (num - lfn) (lfn + 1)
      let v := v.writeCluster file.dirCluster marked
      (v.searchDir false newDir).bind (fun r =>
        match r with
        | ({ buf, index := _, slot := some i }, cluster, _) =>
          -- nothing asks whether the slots fit behind the free one: the copy would leave `new_buf`
          if v.slotCount < i + (lfn + 1) then .panic "new_buf"
          else .ok (v.writeCluster cluster (blit buf (32 * i) (32 * (lfn + 1)) (renamed data lfn newName)),
            newDir, true)
        | ({ buf := _, index := _, slot := none }, _, _) =>
          match v.allocCluster with
          | (v, 0) =>
            .ok (v.writeCluster file.dirCluster (blit marked (32 * (num - lfn)) (32 * (lfn + 1)) data), newDir, false)
          | (v, extra + 1) => (v.linkLast newDir (extra + 1)).bind (fun (v, newDir) =>
            .ok (v.writeCluster (extra + 1) (blit blank 0 (32 * (lfn + 1)) (renamed data lfn newName)), newDir, true))))

end Fat32

end OS64
