import OS64.Geometry
import OS64.Vfs
/-!
# VfsMount — `vfs_mount`, `vfs_mount_point` and `vfs_unmount`

`vfs_mount` makes every volume it mounts the root of the VFS, and `vfs_unmount` leaves the VFS without one.  So mounting
a volume at a path always changes what a walk outside that path finds (`mount_not_frame`).
-/
namespace OS64

open Function List Option Nat Res

def FsDriver.name : FsDriver → Name
  | fat32 => Name.ofString "fat32"
  | exfat => Name.ofString "exfat"

namespace Vfs

def detectFilesystem (dev : BlockDev) : Option FsDriver :=
  match dev.read 0 1 with
  | none => none
  | some sector =>
    let fsType := (List.range 5).map (fun k => sector (82 + k))
    if sector 510 ≠ 0x55#8 ∨ sector 511 ≠ 0xAA#8 then none
    else if (Bpb.ofSector sector).Accepted ∧ (fsType = Name.ofString "FAT32" ∨ fsType = Name.ofString "FAT16") then
      some .fat32
    else if (Vbr.ofSector sector).fsName = Exfat.volumeName then some .exfat
    else none

/-- `root_inode = *root; vfs_inode_ref(root_inode);`, the inode `*root` being new. -/
def newRoot (s : Vfs) (node : VNode) : Vfs :=
  { s with
    inodes := update s.inodes s.nextInode (some ⟨2, node⟩)
    nextInode := s.nextInode + 1
    nextVol := s.nextVol + 1
    rootInode := some s.nextInode }

/-- `fs->mount` and what follows when it returns 0. -/
def mountWith (s : Vfs) (dev : BlockDev) : FsDriver → Res (Vfs × Option Nat)
  | .fat32 => (Fat32.mount dev).bind (fun r =>
      match r with
      | none => .ok (s, none)
      | some (_, v, root) =>
        .ok ({ s.newRoot (.fat s.nextVol root) with fats := update s.fats s.nextVol (some v) },
          some s.nextInode))
  | .exfat => (Exfat.mount dev).bind (fun r =>
      match r with
      | none => .ok (s, none)
      | some (v, root) =>
        .ok ({ s.newRoot (.exfat s.nextVol root) with exfats := update s.exfats s.nextVol (some v) },
          some s.nextInode))

/-- `vfs_mount`: `*root`, `none` for `-1`.  A name that was detected is not used afterwards. -/
def mount (s : Vfs) (fsName : Option Name) (dev : BlockDev) : Res (Vfs × Option Nat) :=
  if fsName.getD [] = [] ∧ detectFilesystem dev = none then .ok (s, none)
  else
    match fsName with
    | none => if s.fsList = [] then .ok (s, none) else .panic "fs_name"
    | some fsName =>
      match s.fsList.find? (fun fs => decide (fs.name = fsName)) with
      | none => .ok (s, none)
      | some fs => s.mountWith dev fs

def mountPoint (s : Vfs) (path : Name) (inode : Nat) : Res Vfs :=
  if pathMax ≤ path.length then .panic "path" else .ok { s with mounts := (path, inode) :: s.mounts }

/-- `vfs_unmount`.  What `exfat_unmount_fs` frees is read again by `exfat_sync`. -/
def unmount (s : Vfs) (root : Nat) : Res Vfs :=
  (s.inode root).bind (fun i =>
    match i.node with
    | .fat vol _ =>
      (s.fat vol).bind (fun v =>
        (inodeUnref { s with fats := update s.fats vol (some v.sync) } (some root)).bind (fun s =>
          .ok { s with rootInode := none }))
    | .exfat vol _ => (s.exfat vol).bind (fun _ => .panic "freed private data")
    | .devfs _ _ => (s.inodeUnref (some root)).bind (fun s => .ok { s with rootInode := none }))

end Vfs

/-! ## What a walk finds -/

/-- What an inode stands for: a directory of a volume by its first cluster, a file by its directory entry, a device by
its node. -/
inductive Object where
  | fatDir (vol cluster : Nat)
  | fatFile (vol dirCluster entryOffset : Nat)
  | exfatDir (vol cluster : Nat)
  | exfatFile (vol dirCluster dirEntry : Nat)
  | device (node : Nat)
deriving DecidableEq

def VNode.object : VNode → Object
  | fat vol inode =>
    if inode.mode = Fat32.ftDir then .fatDir vol inode.firstCluster
    else .fatFile vol inode.dirCluster inode.entryOffset
  | exfat vol inode =>
    if inode.mode = Fat32.ftDir then .exfatDir vol inode.firstCluster
    else .exfatFile vol inode.dirCluster inode.dirEntry
  | devfs _ node => .device node

def Object.volume : Object → Option (FsDriver × Nat)
  | fatDir vol _ => some (.fat32, vol)
  | fatFile vol _ _ => some (.fat32, vol)
  | exfatDir vol _ => some (.exfat, vol)
  | exfatFile vol _ _ => some (.exfat, vol)
  | device _ => none

theorem volume_fat (vol : Nat) (f : Inode) : (VNode.fat vol f).object.volume = some (.fat32, vol) := by
  simp only [VNode.object]
  split <;> rfl

theorem volume_exfat (vol : Nat) (f : ExInode) : (VNode.exfat vol f).object.volume = some (.exfat, vol) := by
  simp only [VNode.object]
  split <;> rfl

namespace Vfs

def objectAt (s : Vfs) (p : Option Nat) : Option Object := (p.bind s.inodes).map (fun i => i.node.object)

/-- Two walks end the same way: both fail, both reach the same object, or both go wrong at the same access. -/
def SameEnd : Res (Vfs × Option (Option Nat)) → Res (Vfs × Option (Option Nat)) → Prop
  | .ok (_, none), .ok (_, none) => True
  | .ok (s, some r), .ok (s', some r') => (r = none ∧ r' = none) ∨ ∃ o, s.objectAt r = some o ∧ s'.objectAt r' = some o
  | .panic msg, .panic msg' => msg = msg'
  | .hang, .hang => True
  | _, _ => False

def resolve (comps : List Name) : List Name :=
  comps.foldl (fun dir c => if c = dotName then dir else if c = dotDotName then dir.dropLast else dir ++ [c]) []

def AtOrBelow (m path : Name) : Prop := resolve (components m) <+: resolve (components path)

inductive VolumeRoot (s : Vfs) (p : Nat) : Prop where
  | fat {n vol : Nat} {inode : Inode} {v : Fat32} (at_ : s.inodes p = some ⟨n, .fat vol inode⟩)
      (vol_ : s.fats vol = some v) (root : inode.firstCluster = v.rootCluster)
  | exfat {n vol : Nat} {inode : ExInode} {v : Exfat} (at_ : s.inodes p = some ⟨n, .exfat vol inode⟩)
      (vol_ : s.exfats vol = some v) (root : inode.firstCluster = v.rootCluster)

/-- A root file system is mounted: the root of the VFS is the root of a volume.  New inodes and volumes get numbers of
their own. -/
structure Rooted (s : Vfs) (root : Nat) : Prop where
  isRoot : s.rootInode = some root
  volume : VolumeRoot s root
  fresh : root < s.nextInode
  freshFat : ∀ vol, s.nextVol ≤ vol → s.fats vol = none
  freshExfat : ∀ vol, s.nextVol ≤ vol → s.exfats vol = none

/-- A walk from `root` outside `m` ends in `s'` as it does in `s`. -/
def Keeps (s s' : Vfs) (root : Nat) (m : Name) : Prop :=
  ∀ path, ¬ AtOrBelow m path → SameEnd (s.walk root path) (s'.walk root path)

/-! ### The nodes of volumes -/

def nodeName (s : Vfs) : VNode → Res (Option Name)
  | .fat vol f => (s.fat vol).bind (fun v => .ok (v.getName f))
  | .exfat vol f => (s.exfat vol).bind (fun v => v.getName f nameMax)
  | .devfs _ _ => .ok none

def nodeLookup (s : Vfs) (c : Name) : VNode → Res (Option VNode)
  | .fat vol f => (s.fat vol).bind (fun v => (v.lookup f c).bind (fun r => .ok (r.map (.fat vol))))
  | .exfat vol f => (s.exfat vol).bind (fun v => (v.lookup f c).bind (fun r => .ok (r.map (.exfat vol))))
  | .devfs _ _ => .ok none

/-- `i_op->parent` by the node, `none` for the inode itself. -/
def nodeParent (s : Vfs) : VNode → Res (Option VNode)
  | .fat vol f => (s.fat vol).bind (fun v =>
      .ok (if f.firstCluster = v.rootCluster then none else some (.fat vol (v.parentInode f))))
  | .exfat vol f => (s.exfat vol).bind (fun v =>
      .ok (if f.firstCluster = v.rootCluster then none else some (.exfat vol (v.parentInode f))))
  | .devfs _ _ => .ok none

inductive VolumeNode (s : Vfs) : VNode → Prop where
  | fat {vol : Nat} {v : Fat32} {f : Inode} (hv : s.fats vol = some v) : VolumeNode s (.fat vol f)
  | exfat {vol : Nat} {v : Exfat} {f : ExInode} (hv : s.exfats vol = some v) : VolumeNode s (.exfat vol f)

end Vfs

/-! ## Where the lookups go wrong -/

abbrev Elsewhere (msg : String) : Prop := msg ≠ "current_path_buf"

theorem trailLoop_panics {σ α : Type} {next : Nat → Nat} {stop : Nat → Bool} {body : Nat → σ → σ × Flow α}
    {P : String → Prop} : ∀ (turns c : Nat) (s : σ), (trailLoop next stop body turns c s).Panics P
  | 0, c, s => by
    unfold trailLoop
    split
    · exact .ok _
    · exact .hang
  | turns + 1, c, s => by
    unfold trailLoop
    split
    · exact .ok _
    · split
      · exact trailLoop_panics turns _ _
      · exact .ok _
      · exact .ok _

theorem trailLoop_ret {σ α : Type} {next : Nat → Nat} {stop : Nat → Bool} {body : Nat → σ → σ × Flow α} {a : α} :
    ∀ {turns c e : Nat} {s s' : σ}, trailLoop next stop body turns c s = .ok (s', e, some a) →
      ∃ d t t', body d t = (t', .ret a)
  | 0, c, e, s, s', h => by
    unfold trailLoop at h
    split at h <;> cases h
  | turns + 1, c, e, s, s', h => by
    unfold trailLoop at h
    split at h
    · cases h
    split at h
    · exact trailLoop_ret h
    · cases h
    · cases h
      exact ⟨_, _, _, ‹_›⟩

theorem Fat32.lookup_panics {v : Fat32} {dir : Inode} {name : Name} {P : String → Prop} :
    (v.lookup dir name).Panics P := by
  exact .bind (trailLoop_panics _ _ _) (fun _ _ => .ok _)

namespace Exfat
variable {v : Exfat} {buf : Mem}

theorem findStream_panics : ∀ (n p : Nat), (findStream v buf n p).Panics Elsewhere
  | 0, _ => .ok _
  | n + 1, p => by
    unfold findStream
    split
    · exact .panic (by decide)
    · split
      · exact .ok _
      · exact findStream_panics n _

theorem readName_panics : ∀ (n p : Nat) (name : Name), (readName v buf n p name).Panics Elsewhere
  | 0, _, _ => .ok _
  | n + 1, p, name => by
    unfold readName
    split
    · exact .ok _
    split
    · exact .panic (by decide)
    simp only
    generalize (if buf (32 * p) = entryName then name ++ nameChars buf p else name) = name'
    split
    · exact .panic (by decide)
    · exact readName_panics n _ _

theorem fileAt_panics (p : Nat) : (fileAt v buf p).Panics Elsewhere := by
  refine .bind (findStream_panics _ _) (fun r _ => ?_)
  cases r with
  | none => exact .ok _
  | some stream => exact .bind (readName_panics _ _ _) (fun _ _ => .ok _)

theorem scan_panics {name : Name} : ∀ (turns p : Nat), (scan v buf name turns p).Panics Elsewhere
  | 0, p => by
    unfold scan
    split
    · exact .ok _
    · exact .hang
  | turns + 1, p => by
    have hnext : ∀ (q : Nat), (if ((buf (32 * p + 1)).toNat + 1) % 256 = 0 then Res.hang
        else scan v buf name turns q).Panics Elsewhere := fun q => by
      split
      · exact .hang
      · exact scan_panics turns q
    unfold scan
    split
    · exact .ok _
    split
    · refine .bind (fileAt_panics p) (fun r _ => ?_)
      rcases r with _ | ⟨stream, asciiName⟩
      · exact scan_panics turns _
      · simp only
        split
        · exact .ok _
        · exact hnext _
    · exact hnext _

theorem lookup_panics {dir : ExInode} {name : Name} : (v.lookup dir name).Panics Elsewhere := by
  unfold lookup
  split
  · exact .ok _
  refine .bind (trailLoop_panics _ _ _) (fun r hl => ?_)
  rcases r with ⟨s, c, _ | found⟩
  · exact .ok _
  refine .bind (fun msg hm => ?_) (fun _ _ => .ok _)
  obtain ⟨d, t, t', hbody⟩ := trailLoop_ret hl
  unfold lookupTurn at hbody
  simp only at hbody
  split at hbody
  · cases hbody
  · cases hbody
    cases hm
  · cases hbody
    cases hm
    exact scan_panics _ _ _ ‹_›
  · cases hbody
    cases hm

end Exfat

namespace Vfs
variable {s : Vfs} {p root : Nat}

variable {i : VInode} {c : Name} {msg : String} {s' : Vfs} {r n : Nat} {node : VNode}

theorem inode_eq (h : s.inodes p = some i) : s.inode p = .ok i := by
  unfold inode
  rw [h]

theorem fat_eq {vol : Nat} {v : Fat32} (h : s.fats vol = some v) : s.fat vol = .ok v := by
  unfold fat
  rw [h]

theorem exfat_eq {vol : Nat} {v : Exfat} (h : s.exfats vol = some v) : s.exfat vol = .ok v := by
  unfold exfat
  rw [h]

theorem inode_ok (h : s.inode p = .ok i) : s.inodes p = some i := by
  unfold Vfs.inode at h
  split at h
  · cases h
  · cases h
    assumption

theorem devNode_ok {e : Nat} {d : DevNode} (h : s.devNode e = .ok d) : s.nodes e = some d := by
  unfold devNode at h
  split at h
  · cases h
  · cases h
    assumption

theorem fat_ok {vol : Nat} {v : Fat32} (h : s.fat vol = .ok v) : s.fats vol = some v := by
  unfold Vfs.fat at h
  split at h
  · cases h
  · cases h
    assumption

theorem exfat_ok {vol : Nat} {v : Exfat} (h : s.exfat vol = .ok v) : s.exfats vol = some v := by
  unfold Vfs.exfat at h
  split at h
  · cases h
  · cases h
    assumption

theorem VolumeNode.not_devfs (h : VolumeNode s node) (mode e : Nat) : node ≠ .devfs mode e := by
  rintro rfl
  cases h

section
variable (hi : s.inodes p = some ⟨n, node⟩) (hon : VolumeNode s node)
include hi hon

theorem getName_node : s.getName p nameMax = s.nodeName node := by
  unfold Vfs.getName nodeName
  rw [inode_eq hi]
  cases hon with
  | fat hv => rfl
  | exfat hv => rfl

theorem lookupOp_node (c : Name) : s.lookupOp p c = (s.nodeLookup c node).bind (fun r => .ok (match r with
      | none => (s, none)
      | some found => (s.allocInode found, some s.nextInode))) := by
  unfold lookupOp nodeLookup
  rw [inode_eq hi]
  cases hon with
  | @fat vol v f hv =>
    simp only [Res.bind, fat_eq hv]
    rcases v.lookup f c with (_ | _) | _ | _ <;> rfl
  | @exfat vol v f hv =>
    simp only [Res.bind, exfat_eq hv]
    rcases v.lookup f c with (_ | _) | _ | _ <;> rfl

theorem parentOp_node : s.parentOp p = (s.nodeParent node).bind (fun r => .ok (match r with
      | none => (s, some p)
      | some found => (s.allocInode found, some s.nextInode))) := by
  unfold Vfs.parentOp nodeParent
  rw [inode_eq hi]
  cases hon with
  | fat hv =>
    simp only [Res.bind, fat_eq hv]
    split <;> rfl
  | exfat hv =>
    simp only [Res.bind, exfat_eq hv]
    split <;> rfl

theorem volumeRoot_iff : VolumeRoot s p ↔ s.nodeParent node = .ok none := by
  constructor
  · rintro (⟨at_, vol_, root⟩ | ⟨at_, vol_, root⟩) <;> rw [hi] at at_ <;> cases at_
    · simp only [nodeParent, fat_eq vol_, Res.bind, if_pos root]
    · simp only [nodeParent, exfat_eq vol_, Res.bind, if_pos root]
  intro h
  cases hon with
  | fat hv =>
    simp only [nodeParent, fat_eq hv, Res.bind, Res.ok.injEq, ite_eq_left_iff, reduceCtorEq, imp_false, not_not] at h
    exact .fat hi hv h
  | exfat hv =>
    simp only [nodeParent, exfat_eq hv, Res.bind, Res.ok.injEq, ite_eq_left_iff, reduceCtorEq, imp_false, not_not] at h
    exact .exfat hi hv h

end

section
variable (h : VolumeRoot s p)
include h

theorem VolumeRoot.nodeAt : ∃ n node, s.inodes p = some ⟨n, node⟩ ∧ VolumeNode s node ∧
    s.nodeName node = .ok (some []) := by
  cases h with
  | fat at_ vol_ root =>
    exact ⟨_, _, at_, .fat vol_, by simp only [nodeName, fat_eq vol_, Res.bind, Fat32.getName, if_pos root]⟩
  | exfat at_ vol_ root =>
    exact ⟨_, _, at_, .exfat vol_, by simp only [nodeName, exfat_eq vol_, Res.bind, Exfat.getName, if_pos root]⟩

theorem VolumeRoot.alive : ∃ i, s.inodes p = some i := by
  obtain ⟨n, node, hi, -⟩ := h.nodeAt
  exact ⟨_, hi⟩

theorem VolumeRoot.not_devfs (hi : s.inodes p = some ⟨n, node⟩) : ∀ mode e, node ≠ .devfs mode e := by
  obtain ⟨m, node', hi', hon, -⟩ := h.nodeAt
  rw [hi] at hi'
  cases hi'
  exact hon.not_devfs

theorem VolumeRoot.getName : s.getName p nameMax = .ok (some []) := by
  obtain ⟨n, node, hi, hon, hn⟩ := h.nodeAt
  rw [getName_node hi hon, hn]

theorem VolumeRoot.parentOp : s.parentOp p = .ok (s, some p) := by
  obtain ⟨n, node, hi, hon, -⟩ := h.nodeAt
  rw [parentOp_node hi hon, (volumeRoot_iff hi hon).1 h]
  rfl

theorem VolumeRoot.parent : s.parent p = .ok (s, some p) := by
  unfold Vfs.parent
  rw [h.parentOp]
  split <;> rfl

theorem VolumeRoot.climb {turns : Nat} (ht : 0 < turns) (comps : List Name) :
    climb turns s (some p) comps = .ok (s, comps) := by
  obtain ⟨turns, rfl⟩ := exists_eq_succ_of_ne_zero ht.ne'
  unfold Vfs.climb
  split
  · rfl
  · simp only [h.getName, h.parent, Res.bind, getD_some, if_true]

end

theorem climbTurns_pos (s : Vfs) : 0 < s.climbTurns := Nat.mul_pos (by omega) (Nat.succ_pos _)

theorem VolumeRoot.buildPath (h : VolumeRoot s p) (maxLen : Nat) : s.buildPath p maxLen = .ok (s, some [slash]) := by
  unfold Vfs.buildPath
  rw [h.climb s.climbTurns_pos]
  split <;> rfl

theorem inodeRef_eq (h : s.inodes p = some i) :
    s.inodeRef (some p) = .ok (s.setInode p (some { i with refcount := u32 (i.refcount + 1) })) := by
  simp only [inodeRef, inode_eq h, Res.bind]

theorem setInode_same (i : Option VInode) : (s.setInode p i).inodes p = i := update_self ..

theorem setInode_other {q : Nat} (i : Option VInode) (h : q ≠ p) : (s.setInode p i).inodes q = s.inodes q :=
  update_of_ne h ..

/-! ## Components -/

theorem tokens_nil : ∀ n, tokens n [] = []
  | 0 => rfl
  | _ + 1 => rfl

theorem tokens_slash (path : Name) : ∀ n, tokens n (slash :: path) = tokens n path
  | 0 => rfl
  | n + 1 => by
    unfold tokens
    rw [dropWhile_cons_of_pos (by simp)]

theorem tokens_single (hc : c ≠ []) (hs : slash ∉ c) (n : Nat) : tokens (n + 1) c = [c] := by
  have hall : ∀ b ∈ c, b ≠ slash := fun b hb he => hs (he ▸ hb)
  have hdrop : c.dropWhile (fun b => decide (b = slash)) = c := by
    cases c with
    | nil => rfl
    | cons b c => exact dropWhile_cons_of_neg (by simpa using hall b (.head _))
  have htake : c.takeWhile (fun b => decide (b ≠ slash)) = c :=
    takeWhile_eq_self_iff.2 (fun b hb => decide_eq_true (hall b hb))
  have hrest : c.dropWhile (fun b => decide (b ≠ slash)) = [] :=
    dropWhile_eq_nil_iff.2 (fun b hb => decide_eq_true (hall b hb))
  unfold tokens
  simp only [hdrop, if_neg hc, htake, hrest, tail_nil, tokens_nil]

theorem length_of_mem_tokens : ∀ {n : Nat} {path : Name}, c ∈ tokens n path → c.length ≤ path.length
  | 0, path, h => by cases h
  | n + 1, path, h => by
    have hstart := (dropWhile_suffix (fun b => decide (b = slash)) (l := path)).length_le
    unfold tokens at h
    simp only at h
    generalize path.dropWhile (fun b => decide (b = slash)) = start at h hstart
    split at h
    · cases h
    rcases mem_cons.1 h with rfl | h
    · exact le_trans ( takeWhile_prefix _).length_le hstart
    · have h1 := length_of_mem_tokens h
      have h2 := (dropWhile_suffix (fun b => decide (b ≠ slash)) (l := start)).length_le
      rw [length_tail] at h1
      omega

theorem mem_of_mem_resolve {comps : List Name} (h : c ∈ resolve comps) : c ∈ comps := by
  have hfold : ∀ (comps dir : List Name), c ∈ comps.foldl (fun dir c => if c = dotName then dir
      else if c = dotDotName then dir.dropLast else dir ++ [c]) dir → c ∈ dir ∨ c ∈ comps := fun comps => by
    induction comps with
    | nil => exact fun dir h => .inl h
    | cons d comps ih =>
      intro dir h
      rcases ih _ h with h | h
      · simp only at h
        split at h
        · exact .inl h
        split at h
        · exact .inl (dropLast_subset _ h)
        · rcases mem_append.1 h with h | h
          · exact .inl h
          · rw [mem_singleton] at h
            exact .inr (h ▸ mem_cons_self ..)
      · exact .inr (.tail _ h)
  rcases hfold comps [] h with h | h
  · cases h
  · exact h

def longName : Name := List.replicate (pathMax - 1) 0x61#8

theorem length_longName : longName.length = 4095 := length_replicate

theorem components_longName : components longName = [longName] := by
  have htake : longName.take (pathMax - 1) = longName := take_of_length_le (le_of_eq length_longName)
  have hnil : longName ≠ [] := fun h => by
    have := congrArg List.length h
    rw [length_longName] at this
    cases this
  have hslash : slash ∉ longName := fun h => absurd (eq_of_mem_replicate h) (by decide)
  unfold components
  rw [htake]
  exact tokens_single hnil hslash 255

theorem longName_ne (h : c.length < 4095) : longName ≠ c := by
  rintro rfl
  rw [length_longName] at h
  exact absurd h (lt_irrefl _)

theorem not_atOrBelow_root {m : Name} (hm : resolve (components m) ≠ []) : ¬ AtOrBelow m [slash] := by
  intro h
  have : resolve (components [slash]) = [] := rfl
  unfold AtOrBelow at h
  rw [this, prefix_nil] at h
  exact hm h

theorem not_atOrBelow_longName {m : Name} (habs : m.head? = some slash) (hm : resolve (components m) ≠ []) :
    ¬ AtOrBelow m longName := fun h => by
  obtain ⟨rest, rfl⟩ : ∃ rest, m = slash :: rest := by
    cases m with
    | nil => cases habs
    | cons b rest => exact ⟨rest, by rw [Option.some.inj habs]⟩
  have hlong : resolve (components longName) = [longName] := by
    rw [components_longName]
    show (if longName = dotName then [] else if longName = dotDotName then [] else [longName]) = _
    rw [if_neg (longName_ne (by decide)), if_neg (longName_ne (by decide))]
  unfold AtOrBelow at h
  rw [hlong] at h
  have hmem : longName ∈ components (slash :: rest) := by
    refine mem_of_mem_resolve ?_
    cases hr : resolve (components (slash :: rest)) with
    | nil => exact absurd hr hm
    | cons c cs =>
      rw [hr] at h
      rw [(cons_prefix_cons.1 h).1]
      exact .head _
  have hlen : longName.length ≤ (rest.take 4094).length := by
    refine @length_of_mem_tokens _ 256 _ ?_
    exact hmem
  rw [length_longName, length_take] at hlen
  omega

/-! ## The buffer of the current path -/

theorem VolumeRoot.ref (h : VolumeRoot s p) (hi : s.inodes p = some i) (n : Nat) :
    VolumeRoot (s.setInode p (some { i with refcount := n })) p := by
  cases h with
  | fat at_ vol_ root =>
    rw [at_, Option.some.injEq] at hi
    subst hi
    exact .fat (setInode_same _) vol_ root
  | exfat at_ vol_ root =>
    rw [at_, Option.some.injEq] at hi
    subst hi
    exact .exfat (setInode_same _) vol_ root

theorem walkStep_name {current : Option Nat} {comp : Name} (h1 : comp ≠ dotName) (h2 : comp ≠ dotDotName) :
    s.walkStep current comp = s.walkName current comp := by
  unfold walkStep
  rw [if_neg h1, if_neg h2]

/-- From the root of a volume that is not the root of the VFS, a component that fills the copy of the path does not fit
`current_path_buf`. -/
theorem walk_longName_overrun (h : VolumeRoot s root) (hr : s.rootInode ≠ some root) :
    s.walk root longName = .panic "current_path_buf" := by
  obtain ⟨i, hi⟩ := h.alive
  have hne : some root ≠ (s.setInode root (some { i with refcount := u32 (i.refcount + 1) })).rootInode :=
    fun hc => hr hc.symm
  have hover : (s.setInode root (some { i with refcount := u32 (i.refcount + 1) })).currentPath (some root) longName =
      .panic "current_path_buf" := by
    unfold currentPath
    rw [if_neg hne]
    simp only [(h.ref hi _).buildPath, Res.bind]
    rw [if_pos]
    rw [length_append, length_longName]
    decide
  unfold walk
  rw [inodeRef_eq hi, components_longName]
  simp only [Res.bind, walkComps]
  rw [walkStep_name (longName_ne (by decide)) (longName_ne (by decide))]
  unfold walkName
  rw [hover]
  rfl

theorem inode_panics : (s.inode p).Panics Elsewhere := by
  unfold inode
  split
  · exact .panic (by decide)
  · exact .ok _

theorem devNode_panics : (s.devNode p).Panics Elsewhere := by
  unfold devNode
  split
  · exact .panic (by decide)
  · exact .ok _

theorem fat_panics : (s.fat p).Panics Elsewhere := by
  unfold fat
  split
  · exact .panic (by decide)
  · exact .ok _

theorem exfat_panics : (s.exfat p).Panics Elsewhere := by
  unfold exfat
  split
  · exact .panic (by decide)
  · exact .ok _

theorem inodeRef_panics {q : Option Nat} : (s.inodeRef q).Panics Elsewhere := by
  cases q with
  | none => exact .ok _
  | some q => exact .bind inode_panics (fun _ _ => .ok _)

theorem inodeUnref_panics {q : Option Nat} : (s.inodeUnref q).Panics Elsewhere := by
  cases q with
  | none => exact .ok _
  | some q =>
    refine .bind inode_panics (fun i _ => ?_)
    split
    · refine .bind ?_ (fun _ _ => .ok _)
      unfold freePrivate
      split
      · exact .bind devNode_panics (fun _ _ => .ok _)
      · exact .ok _
    · exact .ok _

theorem VolumeRoot.lookupOp_panics (h : VolumeRoot s p) {name : Name} : (s.lookupOp p name).Panics Elsewhere := by
  obtain ⟨n, node, hi, hon, -⟩ := h.nodeAt
  rw [lookupOp_node hi hon]
  refine .bind ?_ (fun _ _ => .ok _)
  cases hon with
  | fat hv => exact .bind fat_panics (fun _ _ => .bind Fat32.lookup_panics (fun _ _ => .ok _))
  | exfat hv => exact .bind exfat_panics (fun _ _ => .bind Exfat.lookup_panics (fun _ _ => .ok _))

theorem walk_longName_root (h : VolumeRoot s root) (hr : s.rootInode = some root) :
    s.walk root longName ≠ .panic "current_path_buf" := by
  have hwalk : (s.walk root longName).Panics Elsewhere := by
    obtain ⟨i, hi⟩ := h.alive
    unfold walk
    rw [components_longName, inodeRef_eq hi]
    simp only [walkComps, walkStep_name (longName_ne (by decide : dotName.length < 4095))
      (longName_ne (by decide : dotDotName.length < 4095))]
    refine .bind ?_ (fun r _ => ?_)
    · unfold walkName currentPath
      rw [if_pos (show some root = (s.setInode root _).rootInode from hr.symm)]
      simp only [Res.bind]
      split
      · exact .bind inodeUnref_panics (fun _ _ => .bind inodeRef_panics (fun _ _ => .ok _))
      · exact .bind (h.ref hi _).lookupOp_panics (fun _ _ => .bind inodeUnref_panics (fun _ _ => .ok _))
    · split <;> exact .ok _
  exact fun h => hwalk _ h rfl

/-! ## Mounting -/

structure Mounted (s s' : Vfs) (r : Nat) (node : VNode) : Prop where
  new : r = s.nextInode
  inodes : s'.inodes = update s.inodes r (some ⟨2, node⟩)
  root : s'.rootInode = some r
  mounts : s'.mounts = s.mounts
  fats : ∀ vol, vol ≠ s.nextVol → s'.fats vol = s.fats vol
  exfats : ∀ vol, vol ≠ s.nextVol → s'.exfats vol = s.exfats vol
  volume : (∃ inode, node = .fat s.nextVol inode) ∨ ∃ inode, node = .exfat s.nextVol inode

theorem mountWith_mounted {dev : BlockDev} {fs : FsDriver}
    (h : s.mountWith dev fs = .ok (s', some r)) : ∃ node, Mounted s s' r node := by
  cases fs with
  | fat32 =>
    obtain ⟨_ | ⟨b, v, inode⟩, -, h⟩ := bind_ok h
    · cases h
    · cases h
      exact ⟨_, rfl, rfl, rfl, rfl, fun vol hv => update_of_ne hv .., fun _ _ => rfl, .inl ⟨inode, rfl⟩⟩
  | exfat =>
    obtain ⟨_ | ⟨v, inode⟩, -, h⟩ := bind_ok h
    · cases h
    · cases h
      exact ⟨_, rfl, rfl, rfl, rfl, fun _ _ => rfl, fun vol hv => update_of_ne hv .., .inr ⟨inode, rfl⟩⟩

theorem mount_mounted {fsName : Option Name} {dev : BlockDev}
    (h : s.mount fsName dev = .ok (s', some r)) : ∃ node, Mounted s s' r node := by
  unfold mount at h
  split at h
  · cases h
  cases fsName with
  | none =>
    simp only at h
    split at h <;> cases h
  | some fsName =>
    simp only at h
    split at h
    · cases h
    · exact mountWith_mounted h

structure Unmounted (s s' : Vfs) (r : Nat) (node : VNode) : Prop where
  root : s'.rootInode = none
  mounts : s'.mounts = s.mounts
  inodes : ∀ q, q ≠ r → s'.inodes q = s.inodes q
  fats : ∀ vol, (∀ inode, node ≠ .fat vol inode) → s'.fats vol = s.fats vol
  exfats : s'.exfats = s.exfats

theorem inodeUnref_cases (h : s.inodeUnref (some p) = .ok s') : ∃ i, s.inodes p = some i ∧
    ((sub32 i.refcount 1 ≠ 0 ∧ s' = s.setInode p (some { i with refcount := sub32 i.refcount 1 })) ∨
      (sub32 i.refcount 1 = 0 ∧ ∃ t, s.freePrivate i.node = .ok t ∧ s' = t.setInode p none)) := by
  obtain ⟨i, hi, h⟩ := bind_ok h
  refine ⟨i, inode_ok hi, ?_⟩
  split at h
  · obtain ⟨t, ht, h⟩ := bind_ok h
    cases h
    exact .inr ⟨‹_›, t, ht, rfl⟩
  · cases h
    exact .inl ⟨‹_›, rfl⟩

theorem freePrivate_inodes {node : VNode} {t : Vfs} (h : s.freePrivate node = .ok t) :
    t.inodes = s.inodes ∧ t.mounts = s.mounts ∧ t.fats = s.fats ∧ t.exfats = s.exfats ∧ t.rootInode = s.rootInode ∧
      t.nextInode = s.nextInode := by
  unfold freePrivate at h
  split at h
  · obtain ⟨n, -, h⟩ := bind_ok h
    cases h
    exact ⟨rfl, rfl, rfl, rfl, rfl, rfl⟩
  · cases h
    exact ⟨rfl, rfl, rfl, rfl, rfl, rfl⟩

theorem inodeUnref_frame (h : s.inodeUnref (some p) = .ok s') :
    (∀ q, q ≠ p → s'.inodes q = s.inodes q) ∧ s'.mounts = s.mounts ∧ s'.fats = s.fats ∧ s'.exfats = s.exfats ∧
      s'.rootInode = s.rootInode ∧ s'.nextInode = s.nextInode := by
  obtain ⟨i, -, ⟨-, rfl⟩ | ⟨-, t, ht, rfl⟩⟩ := inodeUnref_cases h
  · exact ⟨fun q hq => setInode_other _ hq, rfl, rfl, rfl, rfl, rfl⟩
  · obtain ⟨h1, h2, h3, h4, h5, h6⟩ := freePrivate_inodes ht
    exact ⟨fun q hq => (setInode_other _ hq).trans (congrFun h1 q), h2, h3, h4, h5, h6⟩

theorem unmount_unmounted (hi : s.inodes p = some i) (h : s.unmount p = .ok s') : Unmounted s s' p i.node := by
  obtain ⟨n, node⟩ := i
  unfold unmount at h
  rw [inode_eq hi] at h
  simp only [Res.bind] at h
  cases node with
  | fat vol inode =>
    obtain ⟨v, -, h⟩ := bind_ok h
    obtain ⟨t, ht, h⟩ := bind_ok h
    cases h
    obtain ⟨h1, h2, h3, h4, -, -⟩ := inodeUnref_frame ht
    refine ⟨rfl, h2, h1, fun vol' hv => (congrFun h3 vol').trans (update_of_ne ?_ ..), h4⟩
    rintro rfl
    exact hv inode rfl
  | exfat vol inode =>
    obtain ⟨v, -, h⟩ := bind_ok h
    cases h
  | devfs mode node =>
    obtain ⟨t, ht, h⟩ := bind_ok h
    cases h
    obtain ⟨h1, h2, h3, h4, -, -⟩ := inodeUnref_frame ht
    exact ⟨rfl, h2, h1, fun vol' _ => congrFun h3 vol', h4⟩

theorem Mounted.object_ne {node : VNode} (h : Mounted s s' r node)
    (hs : Rooted s root) (hi : s.inodes root = some i) : i.node.object ≠ node.object := fun hc => by
  have hc := congrArg Object.volume hc
  rcases h.volume with ⟨inode, rfl⟩ | ⟨inode, rfl⟩ <;> rcases hs.volume with ⟨at_, vol_, -⟩ | ⟨at_, vol_, -⟩ <;>
    rw [at_] at hi <;> cases hi <;> simp only [volume_fat, volume_exfat, Option.some.injEq, Prod.mk.injEq, reduceCtorEq,
      false_and, true_and] at hc
  · rw [hc, hs.freshFat _ le_rfl] at vol_
    cases vol_
  · rw [hc, hs.freshExfat _ le_rfl] at vol_
    cases vol_

theorem SameEnd.of_panic {x : Res (Vfs × Option (Option Nat))} (h : SameEnd x (.panic msg)) : x = .panic msg := by
  rcases x with ⟨t, _ | r⟩ | m | _
  · cases h
  · cases h
  · exact congrArg Res.panic h
  · cases h

theorem VolumeRoot.congr (h : VolumeRoot s p) (hi : s'.inodes p = s.inodes p)
    (hf : ∀ vol, (s.fats vol).isSome → s'.fats vol = s.fats vol)
    (he : ∀ vol, (s.exfats vol).isSome → s'.exfats vol = s.exfats vol) : VolumeRoot s' p := by
  cases h with
  | fat at_ vol_ root => exact .fat (hi.trans at_) ((hf _ (by rw [vol_]; rfl)).trans vol_) root
  | exfat at_ vol_ root => exact .exfat (hi.trans at_) ((he _ (by rw [vol_]; rfl)).trans vol_) root

theorem walk_root (hm : s.checkMountPoints [slash] = none) (hr : s.rootInode = some root)
    (hi : s.inodes root = some i) (dir : Nat) :
    ∃ t, s.walk dir [slash] = .ok (t, some (some root)) ∧ t.objectAt (some root) = some i.node.object := by
  refine ⟨s.setInode root (some { i with refcount := u32 (i.refcount + 1) }), ?_, ?_⟩
  · unfold walk
    rw [if_pos (.inr rfl), hm, hr]
    simp only [none_or, inodeRef_eq hi, Res.bind]
  · unfold objectAt
    simp only [bind_some, setInode_same, map_some]

theorem walk_noRoot (hm : s.checkMountPoints [slash] = none) (hr : s.rootInode = none) (dir : Nat) :
    s.walk dir [slash] = .ok (s, some none) := by
  unfold walk
  rw [hm, hr]
  rfl

/-- **Mounting is never local**: after `vfs_mount` and `vfs_mount_point` on any path other than the root, some walk from
the root of the file system outside that path ends differently; and so it does after `vfs_unmount`. -/
theorem mount_not_frame {s s₁ s' : Vfs} {root r : Nat} {fsName : Option Name} {dev : BlockDev} {m : Name}
    (hs : Rooted s root) (habs : m.head? = some slash) (hm : resolve (components m) ≠ [])
    (hmount : s.mount fsName dev = .ok (s₁, some r)) (hpoint : s₁.mountPoint m r = .ok s') :
    ¬ Keeps s s' root m ∧ ∀ s'', s'.unmount r = .ok s'' → ¬ Keeps s s'' root m := by
  obtain ⟨node, hn⟩ := mount_mounted hmount
  obtain ⟨i, hi⟩ := hs.volume.alive
  have hpt : s' = { s₁ with mounts := (m, r) :: s₁.mounts } := by
    unfold mountPoint at hpoint
    split at hpoint
    · cases hpoint
    · cases hpoint
      rfl
  have hne : root ≠ r := by
    rw [hn.new]
    exact Nat.ne_of_lt hs.fresh
  have hr' : s'.rootInode = some r := by rw [hpt]; exact hn.root
  have hi' : ∀ q, q ≠ r → s'.inodes q = s.inodes q := fun q hq => by
    rw [hpt, hn.inodes, update_of_ne hq]
  have hrr : s'.inodes r = some ⟨2, node⟩ := by
    rw [hpt]
    rw [hn.inodes, update_self]
  have hslash : m ≠ [slash] := by
    rintro rfl
    exact hm rfl
  have hcheck : s'.checkMountPoints [slash] = s.checkMountPoints [slash] := by
    unfold checkMountPoints
    rw [hpt, hn.mounts, List.find?_cons_of_neg (by simpa using hslash)]
  have hf' : ∀ vol, (s.fats vol).isSome → s'.fats vol = s.fats vol := fun vol hv => by
    rw [hpt]
    refine hn.fats vol (fun hc => ?_)
    rw [hc, hs.freshFat _ le_rfl] at hv
    cases hv
  have he' : ∀ vol, (s.exfats vol).isSome → s'.exfats vol = s.exfats vol := fun vol hv => by
    rw [hpt]
    refine hn.exfats vol (fun hc => ?_)
    rw [hc, hs.freshExfat _ le_rfl] at hv
    cases hv
  have hvol' : VolumeRoot s' root := hs.volume.congr (hi' root hne) hf' he'
  have hlong := walk_longName_root hs.volume hs.isRoot
  have houtside := not_atOrBelow_longName habs hm
  constructor
  · intro hk
    cases hc : s.checkMountPoints [slash] with
    | none =>
      -- the walk of the root itself ends in the volume just mounted
      obtain ⟨t, ht, ho⟩ := walk_root hc hs.isRoot hi root
      obtain ⟨t', ht', ho'⟩ := walk_root (hcheck.trans hc) hr' hrr root
      have hsame := hk [slash] (not_atOrBelow_root hm)
      rw [ht, ht'] at hsame
      rcases hsame with ⟨hcontra, -⟩ | ⟨o, h1, h2⟩
      · cases hcontra
      · rw [ho] at h1
        rw [ho'] at h2
        exact hn.object_ne hs hi (Option.some.inj (h1.trans h2.symm))
    | some x =>
      have hsame := hk longName houtside
      rw [walk_longName_overrun hvol' (by rw [hr']; exact fun hc => hne (Option.some.inj hc).symm)] at hsame
      exact hlong hsame.of_panic
  · intro s'' hun hk
    have hu := unmount_unmounted hrr hun
    have hvol'' : VolumeRoot s'' root := by
      refine hs.volume.congr ((hu.inodes root hne).trans (hi' root hne)) (fun vol hv => ?_) (fun vol hv => ?_)
      · refine (hu.fats vol ?_).trans (hf' vol hv)
        rintro inode (rfl : node = _)
        rcases hn.volume with ⟨f, hc⟩ | ⟨f, hc⟩
        · cases hc
          rw [hs.freshFat _ le_rfl] at hv
          cases hv
        · cases hc
      · rw [hu.exfats]
        exact he' vol hv
    cases hc : s.checkMountPoints [slash] with
    | none =>
      obtain ⟨t, ht, ho⟩ := walk_root hc hs.isRoot hi root
      have hsame := hk [slash] (not_atOrBelow_root hm)
      have hcheck'' : s''.checkMountPoints [slash] = none := by
        unfold checkMountPoints at hcheck hc ⊢
        rw [hu.mounts, hcheck, hc]
      rw [ht, walk_noRoot hcheck'' hu.root] at hsame
      rcases hsame with ⟨hcontra, -⟩ | ⟨o, -, h2⟩
      · cases hcontra
      · cases h2
    | some x =>
      have hsame := hk longName houtside
      rw [walk_longName_overrun hvol'' (by rw [hu.root]; exact nofun)] at hsame
      exact hlong hsame.of_panic

def start : Vfs :=
  { inodes := fun _ => none, nextInode := 0, nodes := fun _ => none, fats := fun _ => none, exfats := fun _ => none,
    nextVol := 0, rootInode := none, mounts := [], fsList := [.fat32, .exfat] }

def withFat32 (s : Vfs) (dev : BlockDev) : Vfs :=
  match s.mountWith dev .fat32 with
  | .ok (s, _) => s
  | _ => s

def newDisk : BlockDev := (Fat32.format hundredSectors).getD hundredSectors

def mnt : Name := Name.ofString "/mnt"

theorem start_rooted : Rooted (start.withFat32 newDisk) 0 :=
  ⟨rfl, .fat rfl rfl rfl, by decide, fun vol hv => update_of_ne (ne_of_gt hv) .., fun _ _ => rfl⟩

theorem newDisk_mount_not_frame : ∃ s₁ s' : Vfs, (start.withFat32 newDisk).mount (some FsDriver.fat32.name) newDisk =
    .ok (s₁, some 1) ∧ s₁.mountPoint mnt 1 = .ok s' ∧ ¬ Keeps (start.withFat32 newDisk) s' 0 mnt ∧
      ∀ s'', s'.unmount 1 = .ok s'' → ¬ Keeps (start.withFat32 newDisk) s'' 0 mnt :=
  ⟨_, _, rfl, rfl, mount_not_frame start_rooted rfl (by decide) (rfl : (start.withFat32 newDisk).mount
    (some FsDriver.fat32.name) newDisk = _) rfl⟩

/-- A second volume is mounted at `/mnt`: the walk of `/` ends in it, and nowhere once it is unmounted. -/
theorem second_mount_moves_root : ∃ s₁ s' s'' : Vfs,
    (start.withFat32 newDisk).mount (some FsDriver.fat32.name) newDisk = .ok (s₁, some 1) ∧
      s₁.mountPoint mnt 1 = .ok s' ∧ s'.unmount 1 = .ok s'' ∧ ¬ AtOrBelow mnt [slash] ∧
      (∃ t, (start.withFat32 newDisk).walk 0 [slash] = .ok (t, some (some 0))) ∧
      (∃ t, s'.walk 0 [slash] = .ok (t, some (some 1))) ∧ s''.walk 0 [slash] = .ok (s'', some none) ∧
      ¬ Keeps (start.withFat32 newDisk) s' 0 mnt := by
  refine ⟨_, _, _, rfl, rfl, rfl, not_atOrBelow_root (by decide), ⟨_, rfl⟩, ⟨_, rfl⟩, rfl, fun h => ?_⟩
  rcases h [slash] (not_atOrBelow_root (by decide)) with ⟨hc, -⟩ | ⟨o, h1, h2⟩
  · cases hc
  · cases h1
    cases h2

end Vfs

end OS64
