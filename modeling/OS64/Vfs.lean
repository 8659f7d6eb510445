import OS64.FatMount
import OS64.ExfatMount
/-!
# Vfs — inodes, mount points and paths

The inodes lie in a table: a pointer is a number, and the number of an inode that was freed is not used again.  An
access to a freed inode, to a freed node of devfs or past the end of a buffer is undefined and ends in `panic`.
`malloc` is taken to succeed.  Of the file systems FAT32, exFAT and devfs are modelled; each keeps its own private data.
`none` stands for the return value `-1`.
-/
namespace OS64

def slash : BitVec 8 := 0x2F#8

def pathMax : Nat := 4096
def nameMax : Nat := 255

namespace Fat32

def getName (v : Fat32) (inode : Inode) : Option Name :=
  if inode.firstCluster = v.rootCluster then some []
  else (v.readCluster inode.dirCluster).map (fun buf => nameFromEntry (entName buf inode.entryOffset))

def parentInode (v : Fat32) (inode : Inode) : Inode :=
  { mode := ftDir, size := 0, firstCluster := inode.parentCluster, dirCluster := 0, dirEntry := 0,
    parentCluster := v.rootCluster, entryOffset := 0 }

end Fat32

namespace Exfat

/-- The loop of `exfat_get_name`: `n` slots from slot `p` on, into a buffer of `maxLen` bytes. -/
def nameLoop (v : Exfat) (buf : Mem) (maxLen : Nat) : Nat → Nat → Name → Res Name
  | 0, _, name => .ok name
  | n + 1, p, name =>
    if maxLen - 1 ≤ name.length then .ok name
    else if v.bytesPerCluster ≤ 32 * p then .panic "buf"
    else
      let name := if buf (32 * p) = entryName then name ++ nameChars buf p else name
      if maxLen - 1 < name.length then .panic "name" else nameLoop v buf maxLen n (p + 1) name

def getName (v : Exfat) (inode : ExInode) (maxLen : Nat) : Res (Option Name) :=
  if inode.firstCluster = v.rootCluster then .ok (some [])
  else if inode.dirCluster < 2 then .ok none
  else if (v.dev.read (v.sectorOf inode.dirCluster) v.sectorsPerCluster).isNone then .ok none
  else
    let buf := v.readCluster inode.dirCluster blank
    if buf (32 * inode.dirEntry) ≠ entryFile then .ok none
    else
      (nameLoop v buf maxLen ((buf (32 * inode.dirEntry + 1)).toNat - 1) (inode.dirEntry + 2) []).bind
        (fun name => .ok (some name))

def parentInode (v : Exfat) (inode : ExInode) : ExInode :=
  { mode := Fat32.ftDir, size := 0, firstCluster := inode.parentCluster, dataLength := 0, dirCluster := 0,
    dirEntry := 0, parentCluster := v.rootCluster }

end Exfat

/-- The driver of an inode with its private data; of a devfs inode that is a node shared with the directory it is in. -/
inductive VNode where
  | fat (vol : Nat) (inode : Inode)
  | exfat (vol : Nat) (inode : ExInode)
  | devfs (mode node : Nat)

def VNode.mode : VNode → Nat
  | fat _ inode => inode.mode
  | exfat _ inode => inode.mode
  | devfs mode _ => mode

structure VInode where
  refcount : Nat
  node : VNode

/-- `devfs_node_t`: `list` is the list of a directory, by the nodes of its entries. -/
structure DevNode where
  name : Name
  type : Nat
  inode : Option Nat
  parentInode : Option Nat
  list : Option (List Nat)

inductive FsDriver where
  | fat32
  | exfat
deriving DecidableEq

structure Vfs where
  inodes : Nat → Option VInode
  nextInode : Nat
  nodes : Nat → Option DevNode
  fats : Nat → Option Fat32
  exfats : Nat → Option Exfat
  nextVol : Nat
  rootInode : Option Nat
  mounts : List (Name × Nat)
  fsList : List FsDriver

namespace Vfs

/-! ## References -/

def inode (s : Vfs) (p : Nat) : Res VInode :=
  match s.inodes p with
  | none => .panic "freed inode"
  | some i => .ok i

def devNode (s : Vfs) (e : Nat) : Res DevNode :=
  match s.nodes e with
  | none => .panic "freed node"
  | some n => .ok n

def fat (s : Vfs) (vol : Nat) : Res Fat32 :=
  match s.fats vol with
  | none => .panic "freed volume"
  | some v => .ok v

def exfat (s : Vfs) (vol : Nat) : Res Exfat :=
  match s.exfats vol with
  | none => .panic "freed volume"
  | some v => .ok v

def setInode (s : Vfs) (p : Nat) (i : Option VInode) : Vfs := { s with inodes := Function.update s.inodes p i }

/-- `vfs_alloc_inode` and the assignments after it: the new inode is `s.nextInode`. -/
def allocInode (s : Vfs) (node : VNode) : Vfs :=
  { s with inodes := Function.update s.inodes s.nextInode (some ⟨1, node⟩), nextInode := s.nextInode + 1 }

def inodeRef (s : Vfs) : Option Nat → Res Vfs
  | none => .ok s
  | some p => (s.inode p).bind (fun i => .ok (s.setInode p (some { i with refcount := u32 (i.refcount + 1) })))

def freePrivate (s : Vfs) : VNode → Res Vfs
  | .devfs _ e => (s.devNode e).bind (fun _ => .ok { s with nodes := Function.update s.nodes e none })
  | _ => .ok s

def inodeUnref (s : Vfs) : Option Nat → Res Vfs
  | none => .ok s
  | some p =>
    (s.inode p).bind (fun i =>
      if sub32 i.refcount 1 = 0 then (s.freePrivate i.node).bind (fun s => .ok (s.setInode p none))
      else .ok (s.setInode p (some { i with refcount := sub32 i.refcount 1 })))

/-! ## The operations of the drivers -/

/-- The loop of `devfs_lookup`; an inode made for an entry is kept in it. -/
def devfsSearch (s : Vfs) (name : Name) : List Nat → Res (Vfs × Option Nat)
  | [] => .ok (s, none)
  | e :: rest =>
    (s.devNode e).bind (fun entry =>
      if entry.name = name then
        match entry.inode with
        | some p => .ok (s, some p)
        | none =>
          .ok ({ s.allocInode (.devfs entry.type e) with
                  nodes := Function.update s.nodes e (some { entry with inode := some s.nextInode }) },
                    some s.nextInode)
      else s.devfsSearch name rest)

def devfsLookup (s : Vfs) (node : Nat) (name : Name) : Res (Vfs × Option Nat) :=
  (s.devNode node).bind (fun parent =>
    if parent.type ≠ Fat32.ftDir then .ok (s, none)
    else
      match parent.list with
      | none => .ok (s, none)
      | some entries => s.devfsSearch name entries)

def lookupOp (s : Vfs) (dir : Nat) (name : Name) : Res (Vfs × Option Nat) :=
  (s.inode dir).bind (fun i =>
    match i.node with
    | .fat vol inode =>
      (s.fat vol).bind (fun v => (v.lookup inode name).bind (fun r =>
        match r with
        | none => .ok (s, none)
        | some found => .ok (s.allocInode (.fat vol found), some s.nextInode)))
    | .exfat vol inode =>
      (s.exfat vol).bind (fun v => (v.lookup inode name).bind (fun r =>
        match r with
        | none => .ok (s, none)
        | some found => .ok (s.allocInode (.exfat vol found), some s.nextInode)))
    | .devfs _ node => s.devfsLookup node name)

/-- `i_op->parent`: the inode itself, a new one, or one that devfs knows; no reference is taken. -/
def parentOp (s : Vfs) (p : Nat) : Res (Vfs × Option Nat) :=
  (s.inode p).bind (fun i =>
    match i.node with
    | .fat vol inode =>
      (s.fat vol).bind (fun v =>
        if inode.firstCluster = v.rootCluster then .ok (s, some p)
        else .ok (s.allocInode (.fat vol (v.parentInode inode)), some s.nextInode))
    | .exfat vol inode =>
      (s.exfat vol).bind (fun v =>
        if inode.firstCluster = v.rootCluster then .ok (s, some p)
        else .ok (s.allocInode (.exfat vol (v.parentInode inode)), some s.nextInode))
    | .devfs _ node => (s.devNode node).bind (fun n => .ok (s, n.parentInode.or s.rootInode)))

def getName (s : Vfs) (p maxLen : Nat) : Res (Option Name) :=
  (s.inode p).bind (fun i =>
    match i.node with
    | .fat vol inode => (s.fat vol).bind (fun v => .ok (v.getName inode))
    | .exfat vol inode => (s.exfat vol).bind (fun v => v.getName inode maxLen)
    | .devfs _ node => (s.devNode node).bind (fun n => .ok (some (n.name.take (maxLen - 1)))))

/-! ## Paths -/

def parent (s : Vfs) (p : Nat) : Res (Vfs × Option Nat) :=
  if s.rootInode = some p then .ok (s, some p) else s.parentOp p

/-- The loop of `vfs_build_path` that collects the components, the outermost first in the end. -/
def climb : Nat → Vfs → Option Nat → List Name → Res (Vfs × List Name)
  | turns, s, some p, comps =>
    if some p = s.rootInode ∨ 256 ≤ comps.length then .ok (s, comps)
    else
      match turns with
      | 0 => .hang
      | turns + 1 =>
        (s.getName p nameMax).bind (fun name =>
          let comps := if name.getD [] = [] then comps else name.getD [] :: comps
          (s.parent p).bind (fun r => if r.2 = some p then .ok (r.1, comps) else climb turns r.1 r.2 comps))
  | _, s, none, comps => .ok (s, comps)

def joinPath (maxLen : Nat) : List Name → Name → Option Name
  | [], buffer => some buffer
  | c :: rest, buffer =>
    if maxLen ≤ buffer.length + c.length + 1 then none
    else joinPath maxLen rest (buffer ++ c ++ if rest = [] then [] else [slash])

/-- As many turns as `climb` can take: an inode met again without a name found in between is met for ever. -/
def climbTurns (s : Vfs) : Nat := 257 * (s.nextInode + 3)

/-- `vfs_build_path`: the path, `none` for `-1`.  The parents made up on the way are not released. -/
def buildPath (s : Vfs) (p maxLen : Nat) : Res (Vfs × Option Name) :=
  if s.rootInode = some p then .ok (s, some [slash])
  else (climb s.climbTurns s (some p) []).bind (fun r => .ok (r.1, joinPath maxLen r.2 [slash]))

def getParentInode (s : Vfs) : Option Nat → Res (Vfs × Option (Option Nat))
  | none => .ok (s, none)
  | some p =>
    if s.rootInode = some p then (s.inodeRef s.rootInode).bind (fun s => .ok (s, some s.rootInode))
    else if s.mounts.any (fun m => m.2 == p) then (s.parent p).bind (fun r => .ok (r.1, some r.2))
    else (s.parentOp p).bind (fun r => .ok (r.1, some r.2))

def checkMountPoints (s : Vfs) (path : Name) : Option Nat :=
  (s.mounts.find? (fun m => decide (m.1 = path))).map Prod.snd

/-- The calls of `strtok_r` with a slash, at most `n` of them. -/
def tokens : Nat → Name → List Name
  | 0, _ => []
  | n + 1, path =>
    let start := path.dropWhile (fun b => decide (b = slash))
    if start = [] then []
    else
      start.takeWhile (fun b => decide (b ≠ slash)) :: tokens n (start.dropWhile (fun b => decide (b ≠ slash))).tail

def components (path : Name) : List Name := tokens 256 (path.take (pathMax - 1))

/-- `current_path_buf` for a component, empty when the path of the directory is not known. -/
def currentPath (s : Vfs) (current : Option Nat) (comp : Name) : Res (Vfs × Name) :=
  if current = s.rootInode then .ok (s, (slash :: comp).take (pathMax - 1))
  else
    match current with
    | none => .ok (s, [])
    | some p =>
      (s.buildPath p pathMax).bind (fun r =>
        match r.2 with
        | none => .ok (r.1, [])
        | some base =>
          let path := (if base.getLast? = some slash then base else base ++ [slash]) ++ comp
          if pathMax ≤ path.length then .panic "current_path_buf" else .ok (r.1, path))

def enter (s : Vfs) (current : Option Nat) (comp : Name) : Res (Vfs × Option (Option Nat)) :=
  match current with
  | none => .panic "no inode"
  | some p =>
    (s.lookupOp p comp).bind (fun r => (r.1.inodeUnref current).bind (fun s => .ok (s, r.2.map some)))

def dotName : Name := Name.ofString "."
def dotDotName : Name := Name.ofString ".."

/-- A component that is a name: the mount point at its path, or the regular lookup. -/
def walkName (s : Vfs) (current : Option Nat) (comp : Name) : Res (Vfs × Option (Option Nat)) :=
  (s.currentPath current comp).bind (fun r =>
    match if r.2 = [] then none else r.1.checkMountPoints r.2 with
    | some m => (r.1.inodeUnref current).bind (fun s => (s.inodeRef (some m)).bind (fun s => .ok (s, some (some m))))
    | none => r.1.enter current comp)

def walkStep (s : Vfs) (current : Option Nat) (comp : Name) : Res (Vfs × Option (Option Nat)) :=
  if comp = dotName then .ok (s, some current)
  else if comp = dotDotName then
    (s.getParentInode current).bind (fun r => (r.1.inodeUnref current).bind (fun s => .ok (s, r.2)))
  else s.walkName current comp

def walkComps : List Name → Vfs → Option Nat → Res (Vfs × Option (Option Nat))
  | [], s, current => .ok (s, some current)
  | comp :: rest, s, current =>
    (s.walkStep current comp).bind (fun r =>
      match r.2 with
      | none => .ok (r.1, none)
      | some next => walkComps rest r.1 next)

def walk (s : Vfs) (dir : Nat) (path : Name) : Res (Vfs × Option (Option Nat)) :=
  if path = [] ∨ path = [slash] then
    let result := (s.checkMountPoints [slash]).or s.rootInode
    (s.inodeRef result).bind (fun s => .ok (s, some result))
  else (s.inodeRef (some dir)).bind (fun s => walkComps (components path) s (some dir))

def lookup (s : Vfs) (dir : Nat) (name : Name) : Res (Vfs × Option Nat) :=
  (s.inode dir).bind (fun i =>
    if i.node.mode ≠ Fat32.ftDir then .ok (s, none)
    else
      (s.lookupOp dir name).bind (fun r =>
        match r.2 with
        | none => .ok (r.1, none)
        | some p => (r.1.inodeRef (some p)).bind (fun s => .ok (s, some p))))

end Vfs

end OS64
