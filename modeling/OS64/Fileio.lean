import OS64.VfsSpot
/-!
# Fileio — open files, `write_to_file` and `read_file`

A file descriptor is passed by value: no two of them share it.  The flag `i_dirty` of the inodes is kept beside the
inode table, and an inode that has just been made has it clear.  The nodes of devfs have no driver here, so reading and
writing them fails.  A C string is the list of its bytes, without the NUL.  `none` stands for the return value `-1`.
-/
namespace OS64

def oRead : Nat := 1
def oWrite : Nat := 2
def oCreat : Nat := 4
def oTrunc : Nat := 8
def oAppend : Nat := 16

def VNode.size : VNode → Nat
  | fat _ inode => inode.size
  | exfat _ inode => inode.size
  | devfs _ _ => 0

def VNode.setSize (size : Nat) : VNode → VNode
  | fat vol inode => fat vol { inode with size := size }
  | exfat vol inode => exfat vol { inode with size := size }
  | devfs mode node => devfs mode node

structure VFile where
  inode : Option Nat
  pos : Nat
  flags : Nat

namespace Vfs

/-! ## The operations of the drivers on files -/

def setFat (s : Vfs) (vol : Nat) (v : Fat32) : Vfs := { s with fats := Function.update s.fats vol (some v) }

def setExfat (s : Vfs) (vol : Nat) (v : Exfat) : Vfs := { s with exfats := Function.update s.exfats vol (some v) }

def createOp (t : Rtc) (s : Vfs) (dir : Nat) (name : Name) (mode : Nat) : Res (Vfs × Option Nat) :=
  (s.inode dir).bind (fun i =>
    match i.node with
    | .fat vol f =>
      (s.fat vol).bind (fun v => (v.create t f name mode).bind (fun (v, f, r) =>
        let s := (s.setFat vol v).setInode dir (some { i with node := .fat vol f })
        match r with
        | none => .ok (s, none)
        | some new => .ok (s.allocInode (.fat vol new), some s.nextInode)))
    | .exfat vol f =>
      (s.exfat vol).bind (fun v => (v.create f name mode).bind (fun (v, r) =>
        let s := s.setExfat vol v
        match r with
        | none => .ok (s, none)
        | some new => .ok (s.allocInode (.exfat vol new), some s.nextInode)))
    | .devfs _ _ => .ok (s, none))

/-- `i_fop->read`: the buffer afterwards and `*read`, `none` for `-1`; `stack` is what the driver's own buffer holds at
first. -/
def readOp (s : Vfs) (stack : Mem) (p offset : Nat) (buf : Mem) (size : Nat) : Res (Mem × Option Nat) :=
  (s.inode p).bind (fun i =>
    match i.node with
    | .fat vol f => (s.fat vol).bind (fun v => v.read f offset buf size)
    | .exfat vol f => (s.exfat vol).bind (fun v => v.read stack f offset buf size)
    | .devfs _ _ => .ok (buf, none))

def writeOp (t : Rtc) (s : Vfs) (p offset : Nat) (buf : Mem) (size : Nat) : Res (Vfs × Option Nat) :=
  (s.inode p).bind (fun i =>
    match i.node with
    | .fat vol f =>
      (s.fat vol).bind (fun v => (v.write t f offset buf size).bind (fun (v, f, r) =>
        .ok ((s.setFat vol v).setInode p (some { i with node := .fat vol f }), r)))
    | .exfat vol f =>
      (s.exfat vol).bind (fun v =>
        let (v, f, r) := v.write f offset buf size
        .ok ((s.setExfat vol v).setInode p (some { i with node := .exfat vol f }), r))
    | .devfs _ _ => .ok (s, none))

def sync (s : Vfs) (p : Nat) : Res (Vfs × Bool) :=
  (s.inode p).bind (fun i =>
    match i.node with
    | .fat vol _ => (s.fat vol).bind (fun v => .ok (s.setFat vol v.sync, true))
    | .exfat vol _ => (s.exfat vol).bind (fun v => .ok (s.setExfat vol v.sync, true))
    | .devfs _ _ => .ok (s, false))

/-! ## `vfs_open` -/

/-- `parent_path` of `vfs_walk_parent`: the components but the last. -/
def parentPath (comps : List Name) : Name :=
  comps.dropLast.foldl (fun path c => (if 1 < path.length then path ++ [slash] else path) ++ c) [slash]

def walkParent (s : Vfs) (dir : Nat) (path : Name) : Res (Vfs × Option (Option Nat × Name)) :=
  match (components path).getLast? with
  | none => .ok (s, none)
  | some last =>
    let name := last.take (nameMax - 1)
    if (components path).length = 1 then
      (s.inodeRef (some dir)).bind (fun s => .ok (s, some (some dir, name)))
    else (s.walk dir (parentPath (components path))).bind (fun r => .ok (r.1, r.2.map (fun parent => (parent, name))))

def openInode (s : Vfs) (inode : Option Nat) (flags : Nat) : Res VFile :=
  if flags &&& oAppend = 0 then .ok { inode := inode, pos := 0, flags := flags }
  else
    match inode with
    | none => .panic "no inode"
    | some p => (s.inode p).bind (fun i => .ok { inode := inode, pos := i.node.size, flags := flags })

/-- `vfs_open`, `none` for `-1`; `O_TRUNC` is not looked at. -/
def vfsOpen (t : Rtc) (s : Vfs) (dir : Nat) (path : Name) (flags : Nat) : Res (Vfs × Option VFile) :=
  (s.walk dir path).bind (fun r =>
    match r with
    | (s, some inode) => (s.openInode inode flags).bind (fun file => .ok (s, some file))
    | (s, none) =>
      if flags &&& oCreat = 0 then .ok (s, none)
      else
        (s.walkParent dir path).bind (fun r =>
          match r with
          | (s, none) => .ok (s, none)
          | (_, some (none, _)) => .panic "no inode"
          | (s, some (some parent, name)) =>
            (s.createOp t parent name Fat32.ftRegFile).bind (fun r =>
              (r.1.inodeUnref (some parent)).bind (fun s =>
                match r.2 with
                | none => .ok (s, none)
                | some p => (s.openInode (some p) flags).bind (fun file => .ok (s, some file))))))

end Vfs

structure Io where
  vfs : Vfs
  dirty : Nat → Bool

namespace Io

def vfsClose (io : Io) (file : VFile) : Res Io :=
  match file.inode with
  | none => .ok io
  | some p =>
    (io.vfs.inode p).bind (fun _ =>
      (if io.dirty p then
        (io.vfs.sync p).bind (fun r =>
          .ok { vfs := r.1, dirty := if r.2 then Function.update io.dirty p false else io.dirty })
      else .ok io).bind (fun io => (io.vfs.inodeUnref (some p)).bind (fun s => .ok { io with vfs := s })))

def vfsRead (io : Io) (stack : Mem) (file : VFile) (buf : Mem) (size : Nat) : Res (Mem × VFile × Option Nat) :=
  match file.inode with
  | none => .ok (buf, file, none)
  | some p =>
    (io.vfs.readOp stack p file.pos buf size).bind (fun (buf, r) =>
      .ok (buf, match r with
        | none => file
        | some n => { file with pos := u64 (file.pos + n) }, r))

def vfsWrite (t : Rtc) (io : Io) (file : VFile) (buf : Mem) (size : Nat) : Res (Io × VFile × Option Nat) :=
  match file.inode with
  | none => .ok (io, file, none)
  | some p =>
    (io.vfs.writeOp t p file.pos buf size).bind (fun (s, r) =>
      match r with
      | none => .ok ({ io with vfs := s }, file, none)
      | some n =>
        let pos := u64 (file.pos + n)
        (s.inode p).bind (fun i =>
          let node := if i.node.size < pos then i.node.setSize pos else i.node
          .ok ({ vfs := s.setInode p (some { i with node := node }), dirty := Function.update io.dirty p true },
            { file with pos := pos }, some n)))

/-! ## `kernel/fileio.c` -/

def bytes (content : Name) : Mem := fun i => content.getD i 0#8

def writeToFile (t : Rtc) (io : Io) (root : Nat) (path content : Name) : Res (Io × Int) :=
  (io.vfs.vfsOpen t root path (oWrite ||| oCreat ||| oTrunc)).bind (fun r =>
    match r with
    | (s, none) => .ok ({ io with vfs := s }, -1)
    | (s, some file) =>
      (vfsWrite t { io with vfs := s } file (bytes content) (u32 content.length)).bind (fun (io, file, r) =>
        (io.vfsClose file).bind (fun io => .ok (io, if r.isSome then 0 else -1))))

/-- `read_file`: the string returned, `none` for `NULL`.  The buffer from `malloc` holds `heap` at first.  When
`vfs_read` fails, `read` is the index of a byte nobody has chosen. -/
def readFile (t : Rtc) (stack heap : Mem) (io : Io) (root : Nat) (path : Name) : Res (Io × Option Name) :=
  (io.vfs.vfsOpen t root path oRead).bind (fun r =>
    match r with
    | (s, none) => .ok ({ io with vfs := s }, none)
    | (s, some file) =>
      let io := { io with vfs := s }
      match file.inode with
      | none => (io.vfsClose file).bind (fun io => .ok (io, none))
      | some p =>
        (s.inode p).bind (fun i =>
          (io.vfsRead stack file heap (u32 i.node.size)).bind (fun (buf, file, r) =>
            match r with
            | none => .panic "read"
            | some n =>
              (io.vfsClose file).bind (fun io => .ok (io, some (cString ((List.range n).map buf)))))))

end Io

end OS64
