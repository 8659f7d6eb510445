import OS64.FatEntry
/-!
# FatFile — `fat32_read` and `fat32_write`

The caller's buffer is a `Mem`; a result `none` stands for the return value `-1`.  The array of clusters that
`fat32_write` allocates on the heap is a list.
-/
namespace OS64

namespace Fat32

def skipClusters (v : Fat32) : Nat → Nat → Nat
  | 0, cluster => cluster
  | n + 1, cluster => if offChain cluster then cluster else skipClusters v n (v.nextCluster cluster)

structure ReadState where
  buffer : Mem
  done : Nat
  clusterOffset : Nat

def readTurn (v : Fat32) (toRead cluster : Nat) (s : ReadState) : ReadState × Flow Unit :=
  if toRead ≤ s.done then (s, .brk)
  else
    match v.readCluster cluster with
    | none => (s, .ret ())
    | some temp =>
      let copy := min (v.bytesPerCluster - s.clusterOffset) (toRead - s.done)
      ({ buffer := blit s.buffer s.done copy (fun o => temp (s.clusterOffset + o))
         done := s.done + copy
         clusterOffset := 0 }, .next)

/-- `fat32_read`: the buffer afterwards and `*read`.  A turn that is not the last copies a byte at least, so the loop is
over after `to_read` turns on any chain. -/
def read (v : Fat32) (inode : Inode) (offset : Nat) (buf : Mem) (size : Nat) : Res (Mem × Option Nat) :=
  if inode.size ≤ offset then .ok (buf, some 0)
  else
    let toRead := if inode.size < u64 (offset + size) then u32 (inode.size - offset) else size
    let cluster := skipClusters v (u32 (offset / v.bytesPerCluster)) inode.firstCluster
    if offChain cluster then .ok (buf, none)
    else
      (trailLoop v.nextCluster offChain (v.readTurn toRead) (v.turns + toRead) cluster
        { buffer := buf, done := 0, clusterOffset := offset % v.bytesPerCluster }).bind (fun r =>
          match r with
          | (s, _, none) => .ok (s.buffer, some s.done)
          | (s, _, some ()) => .ok (s.buffer, none))

/-- The loop that skips to the first cluster to write; `none` for `-1`. -/
def writeSkip : Nat → Fat32 → Inode → Nat → Res (Fat32 × Inode × Option Nat)
  | 0, v, inode, cluster => .ok (v, inode, some cluster)
  | n + 1, v, inode, cluster =>
    if offChain cluster then
      if inode.firstCluster = 0 then
        (v.allocClusters 1).bind (fun r =>
          match r with
          | (v, first, 0) => .ok (v, { inode with firstCluster := first }, none)
          | (v, first, _ + 1) => writeSkip n v { inode with firstCluster := first } first)
      else .ok (v, inode, none)
    else writeSkip n v inode (v.nextCluster cluster)

structure Collect where
  vol : Fat32
  inode : Inode
  clusters : List Nat
  cluster : Nat

/-- A new cluster is linked to the one collected before it; the first one collected is the first of an empty file. -/
def Collect.link (s : Collect) (v : Fat32) (new : Nat) : Collect :=
  match s.clusters.getLast? with
  | none =>
    { vol := v
      inode := if s.inode.firstCluster = 0 then { s.inode with firstCluster := new } else s.inode
      clusters := s.clusters ++ [new]
      cluster := new }
  | some prev => { s with vol := v.setNext prev new, clusters := s.clusters ++ [new], cluster := new }

def collectTurn (s : Collect) : Collect × Flow Unit :=
  if offChain s.cluster then
    match s.vol.allocCluster with
    | (v, 0) => ({ s with vol := v }, .ret ())
    | (v, new + 1) => (s.link v (new + 1), .next)
  else ({ s with clusters := s.clusters ++ [s.cluster], cluster := s.vol.nextCluster s.cluster }, .next)

def putData (v : Fat32) (current clusterOffset writeSize : Nat) (data : Mem) : Fat32 :=
  if writeSize = v.bytesPerCluster then v.writeCluster current data
  else v.writeCluster current (blit ((v.readCluster current).getD blank) clusterOffset writeSize data)

def writeData (buf : Mem) (size : Nat) : List Nat → Fat32 → Nat → Nat → Fat32 × Nat
  | [], v, _, done => (v, done)
  | current :: rest, v, clusterOffset, done =>
    let writeSize := min (v.bytesPerCluster - clusterOffset) (size - done)
    writeData buf size rest (v.putData current clusterOffset writeSize (fun o => buf (done + o))) 0 (done + writeSize)

def growEntry (t : Rtc) (v : Fat32) (inode : Inode) : Fat32 :=
  let dirBuf := (v.readCluster inode.dirCluster).getD blank
  v.writeCluster inode.dirCluster
    (setWritten (store dirBuf (inode.entryOffset + 28) 4 inode.size) inode.entryOffset t)

def writeFrom (t : Rtc) (v : Fat32) (inode : Inode) (offset : Nat) (buf : Mem) (size clustersNeeded cluster : Nat) :
    Fat32 × Inode × Option Nat :=
  match forLoop (fun _ s => collectTurn s) clustersNeeded 0 ⟨v, inode, [], cluster⟩ with
  | (s, some ()) => (s.vol, s.inode, none)
  | (s, none) =>
    let w := writeData buf size s.clusters s.vol (offset % v.bytesPerCluster) 0
    if s.inode.size < u64 (offset + w.2) then
      let inode := { s.inode with size := u64 (offset + w.2) }
      (growEntry t w.1 inode, inode, some w.2)
    else (w.1, s.inode, some w.2)

/-- `fat32_write`: the volume and the inode afterwards, and `*written`. -/
def write (t : Rtc) (v : Fat32) (inode : Inode) (offset : Nat) (buf : Mem) (size : Nat) :
    Res (Fat32 × Inode × Option Nat) :=
  if size = 0 then .ok (v, inode, some 0)
  else
    let firstIdx := u32 (offset / v.bytesPerCluster)
    let lastIdx := u32 (sub64 (offset + size) 1 / v.bytesPerCluster)
    (writeSkip firstIdx v inode inode.firstCluster).bind (fun r =>
      match r with
      | (v, inode, none) => .ok (v, inode, none)
      | (v, inode, some cluster) =>
          .ok (writeFrom t v inode offset buf size (u32 (sub32 lastIdx firstIdx + 1)) cluster))

end Fat32

end OS64
