import OS64.FatEntry
/-!
# Exfat — a mounted exFAT volume (`fs/exfat.c`): clusters, directories and files

Buffers are as in `Fat`.  No caller of `exfat_read_cluster` here looks at its result, so a read that fails leaves the
buffer as it was.  Slots are numbered from the start of a buffer.  A read behind the end of a directory buffer, a name
that does not fit `ascii_name` and a write outside of `fat_cache` are a `panic`; what is written behind the end of a
directory buffer never reaches the device.
-/
namespace OS64

/-- `struct exfat`, with the fields of the VBR that are used once the volume is mounted. -/
structure Exfat where
  dev : BlockDev
  fatOffset : Nat
  fatLength : Nat
  bytesPerSector : Nat
  sectorsPerCluster : Nat
  bytesPerCluster : Nat
  clusterHeapStart : Nat
  rootCluster : Nat
  fatCache : Nat → Nat
  fatEntries : Nat

/-- The exFAT part of a `vfs_inode_t` and of its private data. -/
structure ExInode where
  mode : Nat
  size : Nat
  firstCluster : Nat
  dataLength : Nat
  dirCluster : Nat
  dirEntry : Nat
  parentCluster : Nat

namespace Exfat

open Fat32 (ftDir ftRegFile lfnUnit)

def fatFree : Nat := 0
def fatEnd : Nat := 0xFFFFFFFF
def entryFile : BitVec 8 := 0x85#8
def entryStream : BitVec 8 := 0xC0#8
def entryName : BitVec 8 := 0xC1#8
def attrDirectory : Nat := 0x10

def offChain (cluster : Nat) : Bool := decide (cluster < 2) || cluster == fatEnd

def sectorOf (v : Exfat) (cluster : Nat) : Nat :=
  u64 (v.clusterHeapStart / v.bytesPerSector + u32 ((cluster - 2) * v.sectorsPerCluster))

def readCluster (v : Exfat) (cluster : Nat) (buf : Mem) : Mem :=
  if cluster < 2 then buf
  else
    match v.dev.read (v.sectorOf cluster) v.sectorsPerCluster with
    | none => buf
    | some data => blit buf 0 (v.dev.sectorSize * v.sectorsPerCluster) data

def writeCluster (v : Exfat) (cluster : Nat) (buf : Mem) : Exfat :=
  if cluster < 2 then v else { v with dev := v.dev.write (v.sectorOf cluster) v.sectorsPerCluster buf }

def nextCluster (v : Exfat) (cluster : Nat) : Nat := if v.fatEntries ≤ cluster then 0 else v.fatCache cluster

def turns (v : Exfat) : Nat := v.fatEntries + 2

def setNext (v : Exfat) (cluster next : Nat) : Exfat := { v with fatCache := Function.update v.fatCache cluster next }

def markDirty (v : Exfat) : Exfat := v.setNext 0 (v.fatCache 0 ||| 1)

def newCluster (v : Exfat) : Nat :=
  ((List.range' 2 (v.fatEntries - 2)).find? (fun i => decide (v.fatCache i = fatFree))).getD 0

/-! ## Directories -/

def findStream (v : Exfat) (buf : Mem) : Nat → Nat → Res (Option Nat)
  | 0, _ => .ok none
  | n + 1, p =>
    if v.bytesPerCluster ≤ 32 * p then .panic "buf"
    else if buf (32 * p) = entryStream then .ok (some p)
    else findStream v buf n (p + 1)

/-- The characters of the name entry in slot `p` that `exfat_lookup` keeps. -/
def nameChars (buf : Mem) (p : Nat) : Name :=
  ((((List.range 15).map (fun j => load buf (32 * p + 2 + 2 * j) 2)).takeWhile (fun c => decide (c ≠ 0))).filter
    (fun c => decide (c < 128))).map (BitVec.ofNat 8)

def readName (v : Exfat) (buf : Mem) : Nat → Nat → Name → Res Name
  | 0, _, name => .ok name
  | n + 1, p, name =>
    if 255 ≤ name.length then .ok name
    else if v.bytesPerCluster ≤ 32 * p then .panic "buf"
    else
      let name := if buf (32 * p) = entryName then name ++ nameChars buf p else name
      if 255 < name.length then .panic "ascii_name" else readName v buf n (p + 1) name

/-- What `exfat_lookup` makes of the file entry in slot `p`: the slot of its stream entry, and its name. -/
def fileAt (v : Exfat) (buf : Mem) (p : Nat) : Res (Option (Nat × Name)) :=
  let count := (buf (32 * p + 1)).toNat
  (findStream v buf count (p + 1)).bind (fun r =>
    match r with
    | none => .ok none
    | some stream => (readName v buf (count - 1) (stream + 1) []).bind (fun name => .ok (some (stream, name))))

/-- The scan of one cluster from slot `p` on: the slots of the file entry with the name and of its stream entry.  The
eight bits of `ptr[1] + 1` may be 0, and then `ptr` never moves on. -/
def scan (v : Exfat) (buf : Mem) (name : Name) : Nat → Nat → Res (Option (Nat × Nat))
  | 0, p => if v.bytesPerCluster ≤ 32 * p ∨ buf (32 * p) = 0#8 then .ok none else .hang
  | turns + 1, p =>
    let count := (buf (32 * p + 1)).toNat
    let next := if (count + 1) % 256 = 0 then .hang else scan v buf name turns (p + (count + 1) % 256)
    if v.bytesPerCluster ≤ 32 * p ∨ buf (32 * p) = 0#8 then .ok none
    else if buf (32 * p) = entryFile then
      (fileAt v buf p).bind (fun r =>
        match r with
        | none => scan v buf name turns (p + (count + 1))
        | some (stream, asciiName) => if asciiName = name then .ok (some (p, stream)) else next)
    else next

def slotCount (v : Exfat) : Nat := v.bytesPerCluster / 32

def fileAttributes (buf : Mem) (p : Nat) : Nat := load buf (32 * p + 4) 2
def streamCluster (buf : Mem) (p : Nat) : Nat := load buf (32 * p + 20) 4
def streamLength (buf : Mem) (p : Nat) : Nat := load buf (32 * p + 24) 8

def foundInode (dir : ExInode) (cluster : Nat) (buf : Mem) (p stream : Nat) : ExInode :=
  { mode := if fileAttributes buf p &&& attrDirectory = 0 then ftRegFile else ftDir
    size := streamLength buf stream
    firstCluster := streamCluster buf stream
    dataLength := streamLength buf stream
    dirCluster := cluster
    dirEntry := p
    parentCluster := dir.firstCluster }

def lookupTurn (v : Exfat) (dir : ExInode) (name : Name) (cluster : Nat) (buf : Mem) : Mem × Flow (Res ExInode) :=
  let buf := v.readCluster cluster buf
  match scan v buf name (v.slotCount + 1) 0 with
  | .ok none => (buf, .next)
  | .ok (some (p, stream)) => (buf, .ret (.ok (foundInode dir cluster buf p stream)))
  | .panic msg => (buf, .ret (.panic msg))
  | .hang => (buf, .ret .hang)

def lookup (v : Exfat) (dir : ExInode) (name : Name) : Res (Option ExInode) :=
  if dir.mode ≠ ftDir then .ok none
  else
    (trailLoop v.nextCluster offChain (v.lookupTurn dir name) v.turns dir.firstCluster blank).bind (fun r =>
      match r with
      | (_, _, none) => .ok none
      | (_, _, some found) => found.bind (fun inode => .ok (some inode)))

def freeEntry (v : Exfat) (buf : Mem) : Option Nat :=
  (List.range v.slotCount).find? (fun i => decide (buf (32 * i) = 0#8))

def entrySet (name : Name) (attributes cluster : Nat) : Mem :=
  let m := store (store (store blank 0 1 entryFile.toNat) 1 1 2) 4 2 attributes
  let m := store (store (store m 32 1 entryStream.toNat) 35 1 name.length) 52 4 cluster
  Fat32.storeUnits (store m 64 1 entryName.toNat) 66 name 0 15

/-- What `exfat_create_file` and `exfat_mkdir` have in common; `zeroed` is whether the new cluster is written first. -/
def newEntry (v : Exfat) (dir : ExInode) (name : Name) (attributes mode : Nat) (zeroed : Bool) :
    Res (Exfat × Option ExInode) :=
  if dir.mode ≠ ftDir then .ok (v, none)
  else
    (v.lookup dir name).bind (fun existing =>
      if existing.isSome then .ok (v, none)
      else
        let new := v.newCluster
        if new = 0 then .ok (v, none)
        else
          let v := v.setNext new fatEnd
          let v := if zeroed then v.writeCluster new blank else v
          let parent := dir.firstCluster
          let buf := v.readCluster parent blank
          match v.freeEntry buf with
          | none => .ok (v, none)
          | some p =>
            let v := (v.writeCluster parent (blit buf (32 * p) 96 (entrySet name attributes new))).markDirty
            .ok (v, some
              { mode := mode, size := 0, firstCluster := new, dataLength := 0, dirCluster := parent, dirEntry := p,
                parentCluster := dir.firstCluster }))

def createFile (v : Exfat) (dir : ExInode) (name : Name) : Res (Exfat × Option ExInode) :=
  v.newEntry dir name 0 ftRegFile false

def mkdir (v : Exfat) (dir : ExInode) (name : Name) (mode : Nat) : Res (Exfat × Option ExInode) :=
  v.newEntry dir name (if mode = ftDir then attrDirectory else 0) mode true

def create (v : Exfat) (dir : ExInode) (name : Name) (mode : Nat) : Res (Exfat × Option ExInode) :=
  if mode = ftDir then v.mkdir dir name mode else v.createFile dir name

def freeChain : Nat → Exfat → Nat → Res Exfat
  | 0, v, cluster => if offChain cluster then .ok v else .hang
  | turns + 1, v, cluster =>
    if offChain cluster then .ok v
    else if v.fatEntries ≤ cluster then .panic "fat_cache"
    else freeChain turns (v.setNext cluster fatFree) (v.nextCluster cluster)

def clearTypes (buf : Mem) (p count : Nat) : Mem :=
  fun o => if o % 32 = 0 ∧ p ≤ o / 32 ∧ o / 32 < p + count then 0#8 else buf o

def unlink (v : Exfat) (dir : ExInode) (name : Name) : Res (Exfat × Bool) :=
  if dir.mode ≠ ftDir then .ok (v, false)
  else
    (v.lookup dir name).bind (fun r =>
      match r with
      | none => .ok (v, false)
      | some file =>
        (freeChain v.turns v file.firstCluster).bind (fun v =>
          let buf := v.readCluster dir.firstCluster blank
          let count := ((buf (32 * file.dirEntry + 1)).toNat + 1) % 256
          .ok ((v.writeCluster dir.firstCluster (clearTypes buf file.dirEntry count)).markDirty, true)))

/-! ## Files -/

def skipClusters (v : Exfat) : Nat → Nat → Nat
  | 0, cluster => cluster
  | n + 1, cluster => if cluster < 2 then cluster else skipClusters v n (v.nextCluster cluster)

structure ReadState where
  buffer : Mem
  temp : Mem
  done : Nat
  clusterOffset : Nat

def readTurn (v : Exfat) (toRead cluster : Nat) (s : ReadState) : ReadState × Flow Unit :=
  if toRead ≤ s.done then (s, .brk)
  else
    let temp := v.readCluster cluster s.temp
    let copy := min (v.bytesPerCluster - s.clusterOffset) (toRead - s.done)
    ({ buffer := blit s.buffer s.done copy (fun o => temp (s.clusterOffset + o))
       temp := temp
       done := s.done + copy
       clusterOffset := 0 }, .next)

/-- `exfat_read`: the buffer afterwards and `*read`, `none` for `-1`; `stack` is what `temp_buf` holds at first. -/
def read (v : Exfat) (stack : Mem) (inode : ExInode) (offset : Nat) (buf : Mem) (size : Nat) :
    Res (Mem × Option Nat) :=
  if inode.size ≤ offset then .ok (buf, some 0)
  else
    let toRead := if inode.size < u64 (offset + size) then u32 (inode.size - offset) else size
    let cluster := skipClusters v (u32 (offset / v.bytesPerCluster)) inode.firstCluster
    if cluster < 2 then .ok (buf, none)
    else
      (trailLoop v.nextCluster offChain (v.readTurn toRead) (v.turns + toRead) cluster
        { buffer := buf, temp := stack, done := 0, clusterOffset := offset % v.bytesPerCluster }).bind (fun r =>
          .ok (r.1.buffer, some r.1.done))

structure Collect where
  vol : Exfat
  inode : ExInode
  clusters : List Nat
  cluster : Nat

/-- A new cluster is linked to the one collected before it; as the first one collected it becomes the first of the file,
`cluster_idx` being 0 all the time. -/
def Collect.link (s : Collect) (new : Nat) : Collect :=
  match s.clusters.getLast? with
  | none =>
    { s with
      vol := s.vol.setNext new fatEnd, inode := { s.inode with firstCluster := new }, clusters := s.clusters ++ [new] }
  | some prev => { s with vol := (s.vol.setNext prev new).setNext new fatEnd, clusters := s.clusters ++ [new] }

def collectTurn (s : Collect) : Collect × Flow Unit :=
  if offChain s.cluster then
    if s.vol.newCluster = 0 then (s, .ret ()) else (s.link s.vol.newCluster, .next)
  else ({ s with clusters := s.clusters ++ [s.cluster], cluster := s.vol.nextCluster s.cluster }, .next)

/-- The cluster of one turn of the loop that writes the data: whole, or read first and changed in part. -/
def putData (v : Exfat) (current clusterOffset writeSize : Nat) (data : Mem) : Exfat :=
  if writeSize = v.bytesPerCluster then v.writeCluster current data
  else v.writeCluster current (blit (v.readCluster current blank) clusterOffset writeSize data)

def writeData (buf : Mem) (size : Nat) : List Nat → Exfat → Nat → Nat → Exfat × Nat
  | [], v, _, done => (v, done)
  | current :: rest, v, clusterOffset, done =>
    let writeSize := min (v.bytesPerCluster - clusterOffset) (size - done)
    writeData buf size rest (v.putData current clusterOffset writeSize (fun o => buf (done + o))) 0 (done + writeSize)

def growEntry (v : Exfat) (inode : ExInode) : Exfat :=
  let dirBuf := v.readCluster inode.dirCluster blank
  let stream := 32 * inode.dirEntry + 32
  v.writeCluster inode.dirCluster (store (store dirBuf (stream + 24) 8 inode.size) (stream + 8) 8 inode.size)

def writeFrom (v : Exfat) (inode : ExInode) (offset : Nat) (buf : Mem) (size clustersNeeded cluster : Nat) :
    Exfat × ExInode × Option Nat :=
  match forLoop (fun _ s => collectTurn s) clustersNeeded 0 ⟨v, inode, [], cluster⟩ with
  | (s, some ()) => (s.vol, s.inode, none)
  | (s, none) =>
    let w := writeData buf size s.clusters s.vol (offset % v.bytesPerCluster) 0
    if s.inode.size < u64 (offset + w.2) then
      let inode := { s.inode with size := u64 (offset + w.2) }
      ((growEntry w.1 inode).markDirty, inode, some w.2)
    else (w.1.markDirty, s.inode, some w.2)

/-- `exfat_write`: the volume and the inode afterwards, and `*written`, `none` for `-1`. -/
def write (v : Exfat) (inode : ExInode) (offset : Nat) (buf : Mem) (size : Nat) : Exfat × ExInode × Option Nat :=
  if size = 0 then (v, inode, some 0)
  else
    let firstIdx := u32 (offset / v.bytesPerCluster)
    let lastIdx := u32 (sub64 (offset + size) 1 / v.bytesPerCluster)
    writeFrom v inode offset buf size (u32 (sub32 lastIdx firstIdx + 1)) (skipClusters v firstIdx inode.firstCluster)

end Exfat

end OS64
