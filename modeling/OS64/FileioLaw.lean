import OS64.Fileio
import OS64.FatReopen
import OS64.ExfatReopen
/-!
# FileioLaw — `write_to_file` followed by `read_file`

`vfs_open` does not look at `O_TRUNC`, so a text that is shorter than the file leaves the end of the old one behind it.
The second walk finds the same entry with its new size (`carries_fat`, `carries_exfat`), and the text that is read is
the text written exactly when the volume holds no more and no less (`overwrite_iff`).
-/
namespace OS64

open Function Option Res Fat32

open Fat32 (ftDir ftRegFile)

variable {w v : Fat32} {f : Inode} {file : VFile} {io io' : Io}

/-- The node with a new size, if its entry is that of `file`. -/
def VNode.resize (file : VNode) (size : Nat) (node : VNode) : VNode :=
  match file, node with
  | fat vol f, fat vol' i => fat vol' (if vol' = vol then Fat32.resize f size i else i)
  | exfat vol f, exfat vol' i => exfat vol' (if vol' = vol then Exfat.resize f size i else i)
  | _, node => node

def VNode.Apart (file node : VNode) : Prop :=
  match file, node with
  | fat vol _, fat vol' _ => vol' ≠ vol
  | exfat vol _, exfat vol' _ => vol' ≠ vol
  | _, _ => True

namespace Vfs

/-! ## The file and the directories on the way to it -/

def FileNode (s : Vfs) (l : List Nat) : VNode → Prop
  | .fat vol f => ∃ v, s.fats vol = some v ∧ v.geom.Sound ∧ Fat32.Layout v ∧ Fat32.FileOk v f l
  | .exfat vol f => ∃ v, s.exfats vol = some v ∧ Exfat.Sound v.geom ∧ Exfat.Layout v ∧ f.mode = ftRegFile ∧
      Exfat.FileOk v f l
  | .devfs _ _ => False

/-- A directory of the volume of `file` that is in order and has none of the clusters `l`. -/
def OwnDir (s : Vfs) (file : VNode) (l : List Nat) (node : VNode) : Prop :=
  match file, node with
  | .fat vol _, .fat vol' d => vol' = vol ∧ ∃ v dl, s.fats vol = some v ∧ Fat32.DirOk v d dl ∧ ∀ x ∈ dl, x ∉ l
  | .exfat vol _, .exfat vol' d => vol' = vol ∧ ∃ v dl, s.exfats vol = some v ∧ Exfat.DirOk v d dl ∧ ∀ x ∈ dl, x ∉ l
  | _, _ => False

/-- A node of the volume of `file` that a walk can be at: the root or a parent made up, or one with an entry outside of
the clusters `l`. -/
def OwnEntry (s : Vfs) (file : VNode) (l : List Nat) (node : VNode) : Prop :=
  match file, node with
  | .fat vol _, .fat vol' i => vol' = vol ∧ ∃ v, s.fats vol = some v ∧
      ((i.mode = ftDir ∧ (i.firstCluster = v.rootCluster ∨ i.dirCluster = 0)) ∨ (Fat32.EntryOf v i ∧ i.dirCluster ∉ l))
  | .exfat vol _, .exfat vol' i => vol' = vol ∧ ∃ v, s.exfats vol = some v ∧
      ((i.mode = ftDir ∧ (i.firstCluster = v.rootCluster ∨ i.dirCluster < 2)) ∨ (Exfat.EntryOf v i ∧ i.dirCluster ∉ l))
  | _, _ => False

def DirNode (s : Vfs) (file : VNode) (l : List Nat) (node : VNode) : Prop :=
  node.mode = ftDir ∧ (file.Apart node ∨ OwnDir s file l node)

def EntryNode (s : Vfs) (file : VNode) (l : List Nat) (node : VNode) : Prop :=
  file.Apart node ∨ OwnEntry s file l node

section
variable {s s' : Vfs} {file node found : VNode} {l : List Nat} {c : Name} {size n vol root start m : Nat}

theorem resize_dir (h : node.mode = ftDir) (file : VNode) (size : Nat) : VNode.resize file size node = node := by
  cases file <;> cases node <;> try rfl
  · simp only [VNode.resize, resize_dir h, ite_self]
  · simp only [VNode.resize, Exfat.resize_dir h, ite_self]

theorem resize_apart (h : VNode.Apart file node) (size : Nat) : VNode.resize file size node = node := by
  cases file <;> cases node <;> try rfl
  · exact congrArg _ (if_neg h)
  · exact congrArg _ (if_neg h)

theorem nodeParent_resize (file : VNode) (size : Nat) (node : VNode) :
    s.nodeParent (VNode.resize file size node) = s.nodeParent node := by
  cases file <;> cases node <;> try rfl
  all_goals
    simp only [VNode.resize]
    split
    · first | rw [resize_eq] | rw [Exfat.resize_eq]
      rfl
    · rfl

theorem nodeLookup_apart (h : VNode.Apart file node) (hl : s.nodeLookup c node = .ok (some found)) :
    VNode.Apart file found := by
  cases nodeLookup_found hl <;> cases file <;> exact h

theorem nodeParent_apart (h : VNode.Apart file node) (hp : s.nodeParent node = .ok (some found)) :
    VNode.Apart file found := by
  cases nodeParent_madeUp hp <;> cases file <;> exact h

theorem OwnDir.lookup (h : OwnDir s file l node) (hl : s.nodeLookup c node = .ok (some found)) :
    OwnEntry s file l found := by
  cases nodeLookup_found hl with
  | fat hv hr =>
    cases file <;> try exact h.elim
    obtain ⟨rfl, v, dl, hv', hd, hap⟩ := h
    obtain rfl := Option.some.inj (hv.symm.trans hv')
    obtain ⟨hent, hmem⟩ := lookup_entry hd hr
    exact ⟨rfl, _, hv, .inr ⟨hent, hap _ hmem⟩⟩
  | exfat hv hr =>
    cases file <;> try exact h.elim
    obtain ⟨rfl, v, dl, hv', hd, hap⟩ := h
    obtain rfl := Option.some.inj (hv.symm.trans hv')
    obtain ⟨hent, hmem⟩ := Exfat.lookup_entry hd hr
    exact ⟨rfl, _, hv, .inr ⟨hent, hap _ hmem⟩⟩

theorem OwnEntry.parent (h : OwnEntry s file l node) (hp : s.nodeParent node = .ok (some found)) :
    OwnEntry s file l found := by
  cases nodeParent_madeUp hp with
  | fat _ =>
    cases file <;> try exact h.elim
    obtain ⟨rfl, v, hv, -⟩ := h
    exact ⟨rfl, v, hv, .inl ⟨rfl, .inr rfl⟩⟩
  | exfat _ =>
    cases file <;> try exact h.elim
    obtain ⟨rfl, v, hv, -⟩ := h
    exact ⟨rfl, v, hv, .inl ⟨rfl, .inr (show 0 < 2 by decide)⟩⟩

theorem DirNode.lookup (h : DirNode s file l node) (hl : s.nodeLookup c node = .ok (some found)) :
    EntryNode s file l found :=
  h.2.imp (fun ha => nodeLookup_apart ha hl) (fun ho => ho.lookup hl)

theorem EntryNode.parent (h : EntryNode s file l node) (hp : s.nodeParent node = .ok (some found)) :
    EntryNode s file l found :=
  h.imp (fun ha => nodeParent_apart ha hp) (fun ho => ho.parent hp)

theorem Fixtures.entry (hr : Fixtures s root start) (hm : Fixture s start m) (file : VNode) (l : List Nat) :
    ∀ node, (s.spotAt m).node = some node → EntryNode s file l node := by
  obtain ⟨i, hi, hmode, -, -, hnode⟩ := hr.kept m hm
  intro node hn
  unfold spotAt at hn
  rcases hnode with ⟨mode, e, hdev⟩ | hvol
  · obtain ⟨count, inode⟩ := i
    cases hdev
    rw [hi] at hn
    cases hn
  -- the root of a volume, on the volume of `file` or on another
  cases hvol <;> rename_i count vol r v hat hv hroot
  all_goals
    rw [hat] at hi hn
    cases hi
    cases hn
    cases file <;> try exact .inl trivial
    rename_i vol' f
    by_cases hvol : vol = vol'
    · subst hvol
      exact .inr ⟨rfl, v, hv, .inl ⟨hmode, .inl hroot⟩⟩
    · exact .inl hvol

/-! ## The second walk -/

/-- The inodes, the root and the mount points of `s` are in `s'` again. -/
structure Back (s s' : Vfs) : Prop where
  root : s'.rootInode = s.rootInode
  mounts : s'.mounts = s.mounts
  next : s.nextInode ≤ s'.nextInode
  old : ∀ q, q < s.nextInode → s'.inodes q = s.inodes q
  fresh : ∀ q, s'.nextInode ≤ q → s'.inodes q = none

structure Others (s s' : Vfs) (file : VNode) : Prop where
  lookup : ∀ node c, VNode.Apart file node → s'.nodeLookup c node = s.nodeLookup c node
  name : ∀ node, VNode.Apart file node → s'.nodeName node = s.nodeName node

structure SameRoots (s s' : Vfs) : Prop where
  fats : ∀ vol, (s'.fats vol).map Fat32.rootCluster = (s.fats vol).map Fat32.rootCluster
  exfats : ∀ vol, (s'.exfats vol).map Exfat.rootCluster = (s.exfats vol).map Exfat.rootCluster

theorem SameRoots.nodeParent (h : SameRoots s s') (node : VNode) : s'.nodeParent node = s.nodeParent node := by
  cases node with
  | fat vol f =>
    have hv := h.fats vol
    simp only [Vfs.nodeParent, Vfs.fat]
    revert hv
    cases s.fats vol <;> cases s'.fats vol <;> intro hv
    · rfl
    · cases hv
    · cases hv
    · simp only [Res.bind, Fat32.parentInode, Option.some.inj hv]
  | exfat vol f =>
    have hv := h.exfats vol
    simp only [Vfs.nodeParent, Vfs.exfat]
    revert hv
    cases s.exfats vol <;> cases s'.exfats vol <;> intro hv
    · rfl
    · cases hv
    · cases hv
    · simp only [Res.bind, Exfat.parentInode, Option.some.inj hv]
  | devfs mode e => rfl

theorem SameRoots.volumeRoot (h : SameRoots s s') (hi : s'.inodes m = s.inodes m) (hv : VolumeRoot s m) :
    VolumeRoot s' m := by
  cases hv with
  | @fat _ vol _ v at_ vol_ root =>
    obtain ⟨v', hv', hroot⟩ := map_eq_some_iff.1 ((h.fats vol).trans (congrArg (Option.map _) vol_))
    exact .fat (hi.trans at_) hv' (root.trans hroot.symm)
  | @exfat _ vol _ v at_ vol_ root =>
    obtain ⟨v', hv', hroot⟩ := map_eq_some_iff.1 ((h.exfats vol).trans (congrArg (Option.map _) vol_))
    exact .exfat (hi.trans at_) hv' (root.trans hroot.symm)

theorem Back.spotAt (h : Back s s') (hr : Fixtures s root start) (hm : Fixture s start m) :
    s'.spotAt m = s.spotAt m := by
  unfold Vfs.spotAt
  rw [h.old m (hr.kept_lt hm)]

theorem Fixtures.spotStart (hr : Fixtures s root start) (path : Name) :
    ∃ m, Fixture s start m ∧ s.spotStart start path = s.spotAt m := by
  unfold Vfs.spotStart
  split
  · cases hc : s.checkMountPoints [slash] with
    | none =>
      rw [hr.isRoot]
      exact ⟨root, .inr (.inl hr.isRoot), rfl⟩
    | some m => exact ⟨m, .inr (.inr (checkMountPoints_mem hc)), rfl⟩
  · exact ⟨start, .inl rfl, rfl⟩

theorem Back.spotStart (h : Back s s') (hr : Fixtures s root start) (path : Name) :
    s'.spotStart start path = s.spotStart start path := by
  have hcheck : s'.checkMountPoints [slash] = s.checkMountPoints [slash] := by
    unfold checkMountPoints
    rw [h.mounts]
  unfold Vfs.spotStart
  rw [hcheck, h.root, hr.isRoot, h.spotAt hr (.inl rfl)]
  split
  · cases hc : s.checkMountPoints [slash] with
    | none => exact h.spotAt hr (.inr (.inl hr.isRoot))
    | some m => exact h.spotAt hr (.inr (.inr (checkMountPoints_mem hc)))
  · rfl

theorem Back.kept (h : Back s s') : Fixture s' start m ↔ Fixture s start m := by
  unfold Fixture
  rw [h.root, h.mounts]

theorem fat_update (h : s'.fats = update s.fats vol (some w)) : s'.fat vol = .ok w :=
  fat_eq (by rw [h, update_self])

theorem exfat_update {w : Exfat} (h : s'.exfats = update s.exfats vol (some w)) : s'.exfat vol = .ok w :=
  exfat_eq (by rw [h, update_self])

theorem others_of (hfat : ∀ vol i, VNode.Apart file (.fat vol i) → s'.fat vol = s.fat vol)
    (hexf : ∀ vol i, VNode.Apart file (.exfat vol i) → s'.exfat vol = s.exfat vol) : Others s s' file := by
  refine ⟨fun node c h => ?_, fun node h => ?_⟩
  · cases node with
    | fat vol i => simp only [nodeLookup, hfat vol i h]
    | exfat vol i => simp only [nodeLookup, hexf vol i h]
    | devfs mode e => rfl
  · cases node with
    | fat vol i => simp only [nodeName, hfat vol i h]
    | exfat vol i => simp only [nodeName, hexf vol i h]
    | devfs mode e => rfl

theorem others_fat (hfats : s'.fats = update s.fats vol (some w))
    (hex : s'.exfats = s.exfats) : Others s s' (.fat vol f) := by
  refine others_of (fun vol' i h => ?_) (fun vol' i _ => ?_)
  · unfold Vfs.fat
    rw [hfats, update_of_ne h]
  · unfold Vfs.exfat
    rw [hex]

theorem others_exfat {w : Exfat} {f : ExInode} (hexs : s'.exfats = update s.exfats vol (some w))
    (hfats : s'.fats = s.fats) : Others s s' (.exfat vol f) := by
  refine others_of (fun vol' i _ => ?_) (fun vol' i h => ?_)
  · unfold Vfs.fat
    rw [hfats]
  · unfold Vfs.exfat
    rw [hexs, update_of_ne h]

theorem sameRoots_fat (hv : s.fats vol = some v) (hfats : s'.fats = update s.fats vol (some w))
    (hex : s'.exfats = s.exfats) (hroot : w.rootCluster = v.rootCluster) : SameRoots s s' := by
  refine ⟨fun x => ?_, fun x => by rw [hex]⟩
  by_cases hx : x = vol
  · rw [hfats, hx, update_self, hv, map_some, hroot, map_some]
  · rw [hfats, update_of_ne hx]

theorem sameRoots_exfat {v w : Exfat} (hv : s.exfats vol = some v)
    (hexs : s'.exfats = update s.exfats vol (some w)) (hfats : s'.fats = s.fats)
    (hroot : w.rootCluster = v.rootCluster) : SameRoots s s' := by
  refine ⟨fun x => by rw [hfats], fun x => ?_⟩
  by_cases hx : x = vol
  · rw [hexs, hx, update_self, hv, map_some, hroot, map_some]
  · rw [hexs, update_of_ne hx]

theorem Carries.again {P : VNode → Prop} {f : VNode → VNode} {path : Name} (h : Carries s s' P f)
    (hr : Fixtures s root start) (hb : Back s s') (hp : Passes P s (components path) (s.spotStart start path))
    (hw : s.spotPath start path = .ok (some (.live node))) : s'.spotPath start path = .ok (some (.live (f node))) := by
  have hwalk := h.walk (components path) hp
  obtain ⟨m, -, hspot⟩ := hr.spotStart path
  have hmap : (s.spotStart start path).map f = s'.spotStart start path := by rw [hb.spotStart hr, hspot, spotAt_map]
  unfold spotPath at hw ⊢
  rw [hmap, hw] at hwalk
  exact hwalk

section
variable (hr : Fixtures s root start) (hb : Back s s')
include hr hb

theorem carries_of (ho : Others s s' file) (hroots : SameRoots s s') (hlook : ∀ node c, OwnDir s file l node →
      s'.nodeLookup c node = (s.nodeLookup c node).bind (fun r => .ok (r.map (VNode.resize file size))))
    (hname : ∀ node, OwnDir s file l node → OwnEntry s file l node → s'.nodeName node = s.nodeName node) :
    Carries s s' (fun node => DirNode s file l node ∧ EntryNode s file l node) (VNode.resize file size) where
  root := hb.root
  mounts := hb.mounts
  spots x hx := hb.spotAt hr (.inr (.inr ⟨x, hx, rfl⟩))
  fixed node h := resize_dir h.1.1 _ _
  lookup node c h := by
    rcases h.1.2 with ha | hown
    · rw [ho.lookup node c ha]
      rcases hl : s.nodeLookup c node with (_ | found) | _ | _
      · rfl
      · simp only [Res.bind, map_some, resize_apart (nodeLookup_apart ha hl)]
      · rfl
      · rfl
    · exact hlook node c hown
  name node h := by
    rcases h.1.2 with ha | hown
    · exact ho.name node ha
    · rcases h.2 with ha | hent
      · exact ho.name node ha
      · exact hname node hown hent
  parent node := by
    rw [hroots.nodeParent, nodeParent_resize]
    rcases hp : s.nodeParent node with (_ | up) | _ | _
    · rfl
    · have hdir : up.mode = ftDir := by cases nodeParent_madeUp hp <;> rfl
      simp only [Res.bind, map_some, resize_dir hdir]
    · rfl
    · rfl

/-- **On FAT32**: what is found after the write is what was found before, with the new size. -/
theorem carries_fat (hv : s.fats vol = some v)
    (hfats : s'.fats = update s.fats vol (some w)) (hex : s'.exfats = s.exfats)
    (hrew : v.Rewritten w f l n) (hs : v.geom.Sound) (hf : v.EntryOf f) (hmode : f.mode = ftRegFile) :
    Carries s s' (fun node => DirNode s (.fat vol f) l node ∧ EntryNode s (.fat vol f) l node)
      (VNode.resize (.fat vol f) (max f.size n)) := by
  have hroots := sameRoots_fat hv hfats hex (congrArg Fat32.Geom.rootCluster hrew.geom)
  refine carries_of hr hb (others_fat hfats hex) hroots (fun node c h => ?_) (fun node _ hent => ?_)
  · cases node <;> try exact h.elim
    obtain ⟨rfl, v', dl, hv', hd, hap⟩ := h
    cases hv.symm.trans hv'
    simp only [nodeLookup, fat_update hfats, fat_eq hv, Res.bind, hrew.lookup hf hmode hd hap c]
    rcases v.lookup _ c with (_ | i) | _ | _
    · rfl
    · simp only [map_some, VNode.resize, if_true]
    · rfl
    · rfl
  · cases node <;> try exact hent.elim
    obtain ⟨rfl, v', hv', hent⟩ := hent
    cases hv.symm.trans hv'
    have hplace := or_assoc.1 (hent.imp_left And.right)
    simp only [nodeName, fat_update hfats, fat_eq hv, Res.bind, hrew.getName hs hf hplace]

/-- **On exFAT**: what is found after the write is what was found before, with the new size. -/
theorem carries_exfat {v w : Exfat} {f : ExInode}
    (hv : s.exfats vol = some v) (hexs : s'.exfats = update s.exfats vol (some w)) (hfats : s'.fats = s.fats)
    (hrew : v.Rewritten w f l n) (hs : Exfat.Sound v.geom) (hf : v.EntryOf f) (hmode : f.mode = ftRegFile) :
    Carries s s' (fun node => DirNode s (.exfat vol f) l node ∧ EntryNode s (.exfat vol f) l node)
      (VNode.resize (.exfat vol f) (max f.size n)) := by
  have hroots := sameRoots_exfat hv hexs hfats (congrArg Fat32.Geom.rootCluster hrew.geom)
  refine carries_of hr hb (others_exfat hexs hfats) hroots (fun node c h => ?_) (fun node hdir hent => ?_)
  · cases node <;> try exact h.elim
    obtain ⟨rfl, v', dl, hv', hd, hap⟩ := h
    cases hv.symm.trans hv'
    simp only [nodeLookup, exfat_update hexs, exfat_eq hv, Res.bind, hrew.lookup hf hmode hd hap c]
    rcases v.lookup _ c with (_ | i) | _ | _
    · rfl
    · simp only [map_some, VNode.resize, if_true]
    · rfl
    · rfl
  · cases node <;> try exact hent.elim
    obtain ⟨rfl, v', hv', hent⟩ := hent
    cases hv.symm.trans hv'
    obtain ⟨-, v', dl, hv', hd, -⟩ := hdir
    cases hv.symm.trans hv'
    have hplace := or_assoc.1 (hent.imp_left And.right)
    simp only [nodeName, exfat_update hexs, exfat_eq hv, Res.bind, hrew.getName hs hd.slots hf hplace]

end

end

/-! ## Opening, reading and closing -/

def nodeRead (s : Vfs) (stack : Mem) (node : VNode) (offset : Nat) (buf : Mem) (size : Nat) : Res (Mem × Option Nat) :=
  match node with
  | .fat vol f => (s.fat vol).bind (fun v => v.read f offset buf size)
  | .exfat vol f => (s.exfat vol).bind (fun v => v.read stack f offset buf size)
  | .devfs _ _ => .ok (buf, none)

section
variable {s u : Vfs} {node : VNode} {root start m p vol : Nat} {path content : Name} {stack heap : Mem} {t : Rtc}
  {dirty : Nat → Bool}

theorem readOp_node (he : Env s u root) (hp : u.inodes p = some ⟨m, node⟩) (hon : VolumeNode s node) (offset : Nat)
    (buf : Mem) (size : Nat) : u.readOp stack p offset buf size = s.nodeRead stack node offset buf size := by
  unfold readOp nodeRead
  rw [inode_eq hp]
  cases hon with
  | fat hv => simp only [Res.bind, he.fat]
  | exfat hv => simp only [Res.bind, he.exfat]

theorem walk_live (hr : Fixtures s root start) (hwalk : s.spotPath start path = .ok (some (.live node))) :
    ∃ u p, s.walk start path = .ok (u, some (some p)) ∧ Spotted s root start u (.live node) p := by
  have hfollow := walk_follows hr path
  rw [hwalk] at hfollow
  exact hfollow.resolve_left (nofun)

theorem Spotted.close (h : Spotted s root start u (.live node) p) (hr : Fixtures s root start)
    (hfile : file.inode = some p) : ∃ io, (Io.mk u dirty).vfsClose file = .ok io := by
  obtain ⟨i, hi, hon, hun⟩ := h.drop hr (nofun)
  unfold Io.vfsClose
  simp only [hfile, inode_eq hi]
  by_cases hd : dirty p = true
  · have hsync : ∃ u', u.sync p = .ok (u', true) ∧ u'.inodes = u.inodes := by
      unfold sync
      rw [inode_eq hi]
      obtain ⟨count, node'⟩ := i
      have hon' : VolumeNode s node' := hon
      cases hon' with
      | @fat vol v f hv =>
        have hfat : u.fat vol = .ok v := by rw [h.env.fat, fat_eq hv]
        exact ⟨u.setFat vol v.sync, by simp only [Res.bind, hfat], rfl⟩
      | @exfat vol v f hv =>
        have hexf : u.exfat vol = .ok v := by rw [h.env.exfat, exfat_eq hv]
        exact ⟨u.setExfat vol v.sync, by simp only [Res.bind, hexf], rfl⟩
    obtain ⟨u', hs, hsame⟩ := hsync
    have hdrop := hun u' (by rwa [hsame])
    simp only [if_pos hd, hs, Res.bind, hdrop]
    exact ⟨_, rfl⟩
  · simp only [if_neg hd, Res.bind, hun u hi]
    exact ⟨_, rfl⟩

/-- **`read_file`** gives the text that the driver reads of the node at the path. -/
theorem readFile_iff (hr : Fixtures s root start) (hwalk : s.spotPath start path = .ok (some (.live node))) :
    (∃ io, Io.readFile t stack heap ⟨s, dirty⟩ start path = .ok (io, some content)) ↔
      ReadsText (s.nodeRead stack node 0 heap (u32 node.size)) content := by
  obtain ⟨u, p, hu, hsp⟩ := walk_live hr hwalk
  obtain ⟨-, hi, hon⟩ := hsp.held
  have hclose : ∀ file : VFile, file.inode = some p → ∃ io, (Io.mk u dirty).vfsClose file = .ok io :=
    fun file hfile => hsp.close hr hfile
  have hflags : oRead &&& oAppend = 0 := by decide
  unfold Io.readFile vfsOpen openInode ReadsText
  simp only [hu, Res.bind, hflags, if_true, inode_eq hi, Io.vfsRead, readOp_node hsp.env hi hon]
  rcases s.nodeRead stack node 0 heap (u32 node.size) with ⟨m, _ | j⟩ | _ | _
  · simp
  · obtain ⟨io, hio⟩ := hclose { inode := some p, pos := u64 (0 + j), flags := oRead } rfl
    simp only [hio, Res.ok.injEq, Prod.mk.injEq, Option.some.injEq]
    constructor
    · rintro ⟨_, -, hc⟩
      exact ⟨m, j, ⟨rfl, rfl⟩, hc⟩
    · rintro ⟨m', j', ⟨rfl, rfl⟩, hc⟩
      exact ⟨io, rfl, hc⟩
  · simp
  · simp

theorem Spotted.released (h : Spotted s root start u (.live node) p) (hr : Fixtures s root start) {u' : Vfs}
    (hroot : u'.rootInode = u.rootInode) (hm : u'.mounts = u.mounts) (hnext : u'.nextInode = u.nextInode)
    (hin : u'.inodes = update u.inodes p none) : Back s u' := by
  obtain ⟨hnew, -, -⟩ := h.held
  have hold : ∀ q, q ≠ p → u'.inodes q = u.inodes q := fun q hq => by rw [hin, update_of_ne hq]
  refine ⟨(hroot.trans h.env.isRoot).trans hr.isRoot.symm, hm.trans h.env.mounts, hnext ▸ h.next, fun q hq => ?_,
    fun q hq => ?_⟩
  · have hne : q ≠ p := by omega
    exact (hold q hne).trans (h.old q hq hne)
  · by_cases hqp : q = p
    · rw [hin, hqp, update_self]
    · exact (hold q hqp).trans (h.env.fresh q (hnext ▸ hq))

theorem Fixtures.back {s' : Vfs} (hr : Fixtures s root start) (hb : Back s s') (hroots : SameRoots s s') :
    Fixtures s' root start := by
  refine ⟨hb.root.trans hr.isRoot, hb.fresh, fun m hm => ?_⟩
  have hm := hb.kept.1 hm
  have hold := hb.old m (hr.kept_lt hm)
  obtain ⟨i, hi, hmode, hpos, hroom, hnode⟩ := hr.kept m hm
  exact ⟨i, hold.trans hi, hmode, hpos, hroom, hnode.imp id (hroots.volumeRoot hold)⟩

/-- Closing an inode with one reference that was written: the volume is synced and the inode is freed. -/
theorem close_fat (hfile : file.inode = some p)
    (hi : u.inodes p = some ⟨1, .fat vol f⟩) (hw : u.fats vol = some w) (hd : dirty p = true) :
    (Io.mk u dirty).vfsClose file = .ok ⟨(u.setFat vol w.sync).setInode p none, update dirty p false⟩ := by
  have hzero : sub32 1 1 = 0 := by decide
  have hi' : (u.setFat vol w.sync).inodes p = some ⟨1, .fat vol f⟩ := hi
  unfold Io.vfsClose sync
  simp only [hfile, inode_eq hi, Res.bind, if_pos hd, fat_eq hw, inodeUnref, inode_eq hi', hzero, if_true, freePrivate]

theorem close_exfat {f : ExInode} {w : Exfat} (hfile : file.inode = some p)
    (hi : u.inodes p = some ⟨1, .exfat vol f⟩) (hw : u.exfats vol = some w) (hd : dirty p = true) :
    (Io.mk u dirty).vfsClose file = .ok ⟨(u.setExfat vol w.sync).setInode p none, update dirty p false⟩ := by
  have hzero : sub32 1 1 = 0 := by decide
  have hi' : (u.setExfat vol w.sync).inodes p = some ⟨1, .exfat vol f⟩ := hi
  unfold Io.vfsClose sync
  simp only [hfile, inode_eq hi, Res.bind, if_pos hd, exfat_eq hw, inodeUnref, inode_eq hi', hzero, if_true,
    freePrivate]

theorem writeToFile_ok (hu : io.vfs.walk start path = .ok (u, some (some p)))
    (h : Io.writeToFile t io start path content = .ok (io', 0)) : ∃ u₁ k i node,
      u.writeOp t p 0 (Io.bytes content) (u32 content.length) = .ok (u₁, some k) ∧ u₁.inodes p = some i ∧
      (node = i.node ∨ node = i.node.setSize (u64 (0 + k))) ∧ ∃ file : VFile, file.inode = some p ∧
      (Io.mk (u₁.setInode p (some { i with node := node })) (update io.dirty p true)).vfsClose file = .ok io' := by
  have hflags : (oWrite ||| oCreat ||| oTrunc) &&& oAppend = 0 := by decide
  unfold Io.writeToFile vfsOpen openInode at h
  simp only [hu, Res.bind] at h
  obtain ⟨⟨io₁, file, r⟩, hw, h⟩ := bind_ok h
  obtain ⟨⟨u₁, r'⟩, hwr, hw⟩ := bind_ok hw
  obtain ⟨io₂, hclose, h⟩ := bind_ok h
  cases r' with
  | none =>
    -- a failed write makes the result -1
    cases hw
    simp at h
  | some k =>
    obtain ⟨i, hi, hw⟩ := bind_ok hw
    cases hw
    cases h
    refine ⟨u₁, k, i, _, hwr, inode_ok hi, ?_, _, rfl, hclose⟩
    split
    · exact .inr rfl
    · exact .inl rfl

/-- **`write_to_file` on FAT32**, when it returns 0: the file is written from its start and the volume synced. -/
theorem writeToFile_fat (hr : Fixtures io.vfs root start)
    (hwalk : io.vfs.spotPath start path = .ok (some (.live (.fat vol f))))
    (hv : io.vfs.fats vol = some v) (h : Io.writeToFile t io start path content = .ok (io', 0)) :
    ∃ w f' k, v.write t f 0 (Io.bytes content) (u32 content.length) = .ok (w, f', some k) ∧
      io'.vfs.fats = update io.vfs.fats vol (some w.sync) ∧ io'.vfs.exfats = io.vfs.exfats ∧ Back io.vfs io'.vfs := by
  obtain ⟨u, p, hu, hsp⟩ := walk_live hr hwalk
  obtain ⟨u₁, k, i, node, hwr, hi, hnode, file, hfile, hclose⟩ := writeToFile_ok hu h
  have hfat : u.fat vol = .ok v := by rw [hsp.env.fat, fat_eq hv]
  simp only [writeOp, inode_eq hsp.held.2.1, hfat, Res.bind] at hwr
  obtain ⟨⟨w, f', r⟩, hwrite, hwr⟩ := bind_ok hwr
  cases hwr
  cases (setInode_same _).symm.trans hi
  obtain ⟨g, rfl⟩ : ∃ g, node = .fat vol g := by rcases hnode with rfl | rfl <;> exact ⟨_, rfl⟩
  cases hclose.symm.trans (close_fat hfile (setInode_same _) (update_self ..) (update_self ..))
  refine ⟨w, f', k, hwrite, ?_, hsp.env.exfats, hsp.released hr rfl rfl rfl ?_⟩
  · show update (update u.fats vol (some w)) vol (some w.sync) = _
    rw [update_idem, hsp.env.fats]
  · show update (update (update u.inodes p _) p _) p none = _
    rw [update_idem, update_idem]

/-- **`write_to_file` on exFAT**, when it returns 0. -/
theorem writeToFile_exfat {v : Exfat} {f : ExInode} (hr : Fixtures io.vfs root start)
    (hwalk : io.vfs.spotPath start path = .ok (some (.live (.exfat vol f))))
    (hv : io.vfs.exfats vol = some v) (h : Io.writeToFile t io start path content = .ok (io', 0)) :
    ∃ w f' k, v.write f 0 (Io.bytes content) (u32 content.length) = (w, f', some k) ∧
      io'.vfs.exfats = update io.vfs.exfats vol (some w.sync) ∧ io'.vfs.fats = io.vfs.fats ∧ Back io.vfs io'.vfs := by
  obtain ⟨u, p, hu, hsp⟩ := walk_live hr hwalk
  obtain ⟨u₁, k, i, node, hwr, hi, hnode, file, hfile, hclose⟩ := writeToFile_ok hu h
  have hexf : u.exfat vol = .ok v := by rw [hsp.env.exfat, exfat_eq hv]
  simp only [writeOp, inode_eq hsp.held.2.1, hexf, Res.bind] at hwr
  rcases hwrite : v.write f 0 (Io.bytes content) (u32 content.length) with ⟨w, f', r⟩
  rw [hwrite] at hwr
  cases hwr
  cases (setInode_same _).symm.trans hi
  obtain ⟨g, rfl⟩ : ∃ g, node = .exfat vol g := by rcases hnode with rfl | rfl <;> exact ⟨_, rfl⟩
  cases hclose.symm.trans (close_exfat hfile (setInode_same _) (update_self ..) (update_self ..))
  refine ⟨w, f', k, rfl, ?_, hsp.env.fats, hsp.released hr rfl rfl rfl ?_⟩
  · show update (update u.exfats vol (some w)) vol (some w.sync) = _
    rw [update_idem, hsp.env.exfats]
  · show update (update (update u.inodes p _) p _) p none = _
    rw [update_idem, update_idem]

end

/-! ## The whole file -/

/-- `vfs_walk` from `start` finds the regular file `node` with the clusters `l` at the path, without going astray; the
directories that it looks into are in order. -/
structure FileAt (s : Vfs) (root start : Nat) (path : Name) (node : VNode) (l : List Nat) : Prop where
  fixtures : Fixtures s root start
  found : ∃ t p m, s.walk start path = .ok (t, some (some p)) ∧ t.inodes p = some ⟨m, node⟩
  followed : s.spotPath start path ≠ .ok (some .astray)
  file : FileNode s l node
  dirs : Passes (DirNode s node l) s (components path) (s.spotStart start path)

/-- The text is all that the file holds once it is written from its start. -/
def Overwrites (s : Vfs) (l : List Nat) (content : Name) : VNode → Prop
  | .fat vol f => ∀ v, s.fats vol = some v → Fat32.Overwrites v f l content
  | .exfat vol f => ∀ v, s.exfats vol = some v → Exfat.Overwrites v f l content
  | .devfs _ _ => False

section
variable {s : Vfs} {node : VNode} {root start : Nat} {path content : Name} {stack heap : Mem} {t t' : Rtc}
  {l : List Nat}

theorem FileNode.mode (h : FileNode s l node) : node.mode = ftRegFile := by
  cases node with
  | fat vol f => exact h.choose_spec.2.2.2.mode
  | exfat vol f => exact h.choose_spec.2.2.2.1
  | devfs mode e => exact h.elim

theorem FileAt.walk (h : FileAt s root start path node l) : s.spotPath start path = .ok (some (.live node)) := by
  obtain ⟨u, p, m, hw, hi⟩ := h.found
  have hfollow := walk_follows h.fixtures path
  have hstay := h.followed
  rw [hw] at hfollow
  revert hfollow hstay
  rcases s.spotPath start path with (_ | sp) | _ | _
  · rintro ⟨u', hu'⟩
    cases hu'
  · rintro (rfl | ⟨u', p', hu', hsp⟩) hstay
    · exact absurd rfl hstay
    cases hu'
    have hheld := hsp.held
    cases sp with
    | kept q dir =>
      -- what the VFS keeps is a directory
      obtain ⟨rfl, -, n, -, hdir, -, -, hi'⟩ := hheld
      rw [hi'] at hi
      cases hi
      rw [h.file.mode] at hdir
      exact absurd hdir (by decide)
    | live found =>
      rw [hheld.2.1] at hi
      cases hi
      rfl
    | freed =>
      rw [hheld.2] at hi
      cases hi
    | astray => exact hheld.elim
  · intro hfollow
    cases hfollow
  · intro hfollow
    cases hfollow

theorem FileAt.entry (h : FileAt s root start path node l) : EntryNode s node l node ∧
    Passes (fun d => DirNode s node l d ∧ EntryNode s node l d) s (components path) (s.spotStart start path) := by
  have hlook : ∀ d c found, DirNode s node l d → s.nodeLookup c d = .ok (some found) → EntryNode s node l found :=
    fun _ _ _ hd hl => hd.lookup hl
  have hpar : ∀ d found, EntryNode s node l d → s.nodeParent d = .ok (some found) → EntryNode s node l found :=
    fun _ _ hd hp => hd.parent hp
  have hmount : ∀ x ∈ s.mounts, ∀ d, (s.spotAt x.2).node = some d → EntryNode s node l d :=
    fun x hx => h.fixtures.entry (.inr (.inr ⟨x, hx, rfl⟩)) node l
  have hstart : ∀ d, (s.spotStart start path).node = some d → EntryNode s node l d := by
    obtain ⟨m, hm, hspot⟩ := h.fixtures.spotStart path
    rw [hspot]
    exact h.fixtures.entry hm node l
  exact ⟨Passes.last hlook hpar hmount (components path) h.dirs hstart h.walk node rfl,
    Passes.and hlook hpar hmount (components path) h.dirs hstart⟩

theorem EntryNode.own (h : EntryNode s node l node) (hf : FileNode s l node) : OwnEntry s node l node := by
  refine h.resolve_left (fun ha => ?_)
  cases node with
  | fat vol f => exact ha rfl
  | exfat vol f => exact ha rfl
  | devfs mode e => exact hf

/-- **Whole-file overwrite**: what `write_to_file` has written is what `read_file` gives, exactly when the text is all
that the file holds then. -/
theorem overwrite_iff {io io' : Io} (h : FileAt io.vfs root start path node l) (hnul : 0#8 ∉ content)
    (hfit : content.length < 4294967296) (hw : Io.writeToFile t io start path content = .ok (io', 0)) :
    (∃ io'', Io.readFile t' stack heap io' start path = .ok (io'', some content)) ↔
      Overwrites io.vfs l content node := by
  have hu : u32 content.length = content.length := u32_of_lt hfit
  have hwalk := h.walk
  obtain ⟨hent, hpass⟩ := h.entry
  have hown := hent.own h.file
  cases node with
  | fat vol f =>
    obtain ⟨v, hv, hs, hlay, hf⟩ := h.file
    obtain ⟨w, f', k, hwr, hfats, hex, hback⟩ := writeToFile_fat h.fixtures hwalk hv hw
    rw [hu] at hwr
    have hf' : v.EntryOf f := by
      obtain ⟨-, v', hv', hplace⟩ := hown
      cases hv.symm.trans hv'
      rcases hplace with ⟨hdir, -⟩ | ⟨he, -⟩
      · rw [hf.mode] at hdir
        exact absurd hdir (by decide)
      · exact he
    obtain ⟨-, hrew, -⟩ := write_rewritten hs hf hfit hwr
    have hsync := hrew.sync hs hlay
    have hfix := h.fixtures.back hback (sameRoots_fat hv hfats hex (congrArg Fat32.Geom.rootCluster hsync.geom))
    have hcarry := carries_fat h.fixtures hback hv hfats hex hsync hs hf' hf.mode
    have hself : VNode.resize (.fat vol f) (max f.size content.length) (.fat vol f) =
        .fat vol { f with size := max f.size content.length } := by
      simp only [VNode.resize, if_true, resize_self hf.mode]
    have hagain := hcarry.again h.fixtures hback hpass hwalk
    rw [hself] at hagain
    have hmax : max f.size content.length < 4294967296 := Nat.max_lt.2 ⟨hf'.size_lt, hfit⟩
    rw [readFile_iff hfix hagain]
    simp only [nodeRead, VNode.size, fat_update hfats, Res.bind, u32_of_lt hmax]
    rw [text_iff hs hlay hf hf'.size_lt hnul hfit hwr heap]
    simp only [Overwrites, hv, Option.some.injEq, forall_eq']
  | exfat vol f =>
    obtain ⟨v, hv, hs, hlay, hmode, hf⟩ := h.file
    obtain ⟨w, f', k, hwr, hexs, hfats, hback⟩ := writeToFile_exfat h.fixtures hwalk hv hw
    rw [hu] at hwr
    have hf' : v.EntryOf f := by
      obtain ⟨-, v', hv', hplace⟩ := hown
      cases hv.symm.trans hv'
      rcases hplace with ⟨hdir, -⟩ | ⟨he, -⟩
      · rw [hmode] at hdir
        exact absurd hdir (by decide)
      · exact he
    obtain ⟨-, hrew, -⟩ := Exfat.write_rewritten hs hf hfit hwr
    have hsync := hrew.sync hs hlay
    have hfix := h.fixtures.back hback (sameRoots_exfat hv hexs hfats (congrArg Fat32.Geom.rootCluster hsync.geom))
    have hcarry := carries_exfat h.fixtures hback hv hexs hfats hsync hs hf' hmode
    have hself : VNode.resize (.exfat vol f) (max f.size content.length) (.exfat vol f) =
        .exfat vol { f with size := max f.size content.length, dataLength := max f.size content.length } := by
      simp only [VNode.resize, if_true, Exfat.resize_self hmode]
    have hagain := hcarry.again h.fixtures hback hpass hwalk
    rw [hself] at hagain
    rw [readFile_iff hfix hagain]
    simp only [nodeRead, VNode.size, exfat_update hexs, Res.bind]
    rw [Exfat.text_iff hs hlay hf hnul hfit hwr stack heap]
    simp only [Overwrites, hv, Option.some.injEq, forall_eq']
  | devfs mode e => exact h.file.elim

end

/-! ## A small volume -/

section
open Fat32 (smallVol smallRoot noTime)

def textVol : Fat32 :=
  { smallVol with
    dev := { smallVol.dev with
      data := blit
        (store (store (Fat32.setName blank 17408 (Fat32.nameToEntry (Name.ofString "a"))) 17434 2 3) 17436 4 3)
        17920 3 (Io.bytes (Name.ofString "abc")) } }

def textFile : Inode :=
  { mode := ftRegFile, size := 3, firstCluster := 3, dirCluster := 2, dirEntry := 0, parentCluster := 2,
    entryOffset := 0 }

def textIo : Io :=
  { vfs := { start with
      inodes := fun p => if p = 0 then some ⟨1, .fat 0 smallRoot⟩ else none
      nextInode := 1
      fats := fun vol => if vol = 0 then some textVol else none
      nextVol := 1
      rootInode := some 0 }
    dirty := fun _ => false }

def textPath : Name := Name.ofString "/a"

theorem textFile_ok : Fat32.FileOk textVol textFile [3] where
  mode := rfl
  chain := Fat32.Chain.congr (v := smallVol) rfl (fun _ _ => rfl) smallVol_chain
  onDevice := by decide
  covers := by decide
  dirIndex := (by decide : smallVol.geom.Index 2)
  dirUsed := (by decide : smallVol.fatCache 2 ≠ Fat32.free)
  dirApart := (by decide : 2 ∉ [3])

theorem textRoot_ok : Fat32.DirOk textVol smallRoot [2] := smallRoot_ok.congr rfl rfl

theorem textIo_fixtures : Fixtures textIo.vfs 0 0 where
  isRoot := rfl
  fresh _ hp := if_neg (Nat.ne_of_gt hp)
  kept m hm := by
    obtain rfl : m = 0 := by
      rcases hm with hm | hm | ⟨x, hx, -⟩
      · exact hm
      · exact (Option.some.inj hm).symm
      · cases hx
    exact ⟨_, rfl, rfl, by decide, by decide, .inr (.fat rfl rfl rfl)⟩

theorem textFile_at : FileAt textIo.vfs 0 0 textPath (.fat 0 textFile) [3] where
  fixtures := textIo_fixtures
  found := ⟨_, _, _, rfl, rfl⟩
  followed h := by cases h
  file := ⟨textVol, rfl, smallVol_sound, ⟨by decide, by decide⟩, textFile_ok⟩
  dirs := by
    refine ⟨fun _ _ node hn => ?_, fun _ _ => trivial⟩
    cases hn
    exact ⟨rfl, .inr ⟨rfl, textVol, [2], rfl, textRoot_ok, by decide⟩⟩

/-- A text of five bytes over one of three. -/
theorem hello_overwrite_iff : ∃ io', Io.writeToFile noTime textIo 0 textPath (Name.ofString "hello") = .ok (io', 0) ∧
    ((∃ io'', Io.readFile noTime blank blank io' 0 textPath = .ok (io'', some (Name.ofString "hello"))) ↔
      Overwrites textIo.vfs [3] (Name.ofString "hello") (.fat 0 textFile)) :=
  ⟨_, rfl, overwrite_iff textFile_at (by decide) (by decide) rfl⟩

/-- `x` written over `abc` is read back as `xbc`. -/
theorem short_text_keeps_tail : ∃ io' io'', Io.writeToFile noTime textIo 0 textPath (Name.ofString "x") = .ok (io', 0) ∧
    Io.readFile noTime blank blank io' 0 textPath = .ok (io'', some (Name.ofString "xbc")) ∧
    ¬ ∃ io'', Io.readFile noTime blank blank io' 0 textPath = .ok (io'', some (Name.ofString "x")) := by
  refine ⟨_, _, rfl, rfl, ?_⟩
  rintro ⟨io'', h⟩
  cases h

end

end Vfs

end OS64
