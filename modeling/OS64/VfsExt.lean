import OS64.VfsTree
/-!
# VfsExt — what lookups and paths leave alone

Building a path and going to a parent make inodes and change nothing else (`Ext`).
-/
namespace OS64

open Res

namespace Vfs

variable {s t : Vfs} {p : Nat} {q : Option Nat}

/-- `t` is `s` with more inodes of volumes, each with one reference. -/
structure Ext (s t : Vfs) : Prop where
  next : s.nextInode ≤ t.nextInode
  old : ∀ p, p < s.nextInode → t.inodes p = s.inodes p
  new : ∀ p i, s.nextInode ≤ p → t.inodes p = some i → s.inodes p = some i ∨
    (p < t.nextInode ∧ i.refcount = 1 ∧ ∀ mode e, i.node ≠ .devfs mode e)
  root : t.rootInode = s.rootInode
  mounts : t.mounts = s.mounts
  fats : t.fats = s.fats
  exfats : t.exfats = s.exfats
  nodes : t.nodes = s.nodes

theorem Ext.refl (s : Vfs) : Ext s s :=
  ⟨le_rfl, fun _ _ => rfl, fun _ _ _ h => .inl h, rfl, rfl, rfl, rfl, rfl⟩

theorem Ext.trans {u : Vfs} (h : Ext s t) (h' : Ext t u) : Ext s u where
  next := h.next.trans h'.next
  old p hp := (h'.old p (hp.trans_le h.next)).trans (h.old p hp)
  new p i hp hi := by
    by_cases hlt : p < t.nextInode
    · rw [h'.old p hlt] at hi
      rcases h.new p i hp hi with h1 | ⟨-, h2⟩
      · exact .inl h1
      · exact .inr ⟨hlt.trans_le h'.next, h2⟩
    rcases h'.new p i (not_lt.1 hlt) hi with h1 | h2
    · rcases h.new p i hp h1 with h3 | ⟨h4, -⟩
      · exact .inl h3
      · exact absurd h4 hlt
    · exact .inr h2
  root := h'.root.trans h.root
  mounts := h'.mounts.trans h.mounts
  fats := h'.fats.trans h.fats
  exfats := h'.exfats.trans h.exfats
  nodes := h'.nodes.trans h.nodes

theorem Ext.fresh (h : Ext s t) (hs : ∀ p, s.nextInode ≤ p → s.inodes p = none) (p : Nat)
    (hp : t.nextInode ≤ p) : t.inodes p = none := by
  cases hi : t.inodes p with
  | none => rfl
  | some i =>
    have hsp := h.next.trans hp
    rcases h.new p i hsp hi with h1 | ⟨h2, -⟩
    · rw [hs p hsp] at h1
      cases h1
    · exact absurd h2 (not_lt.2 hp)

theorem alloc_same (s : Vfs) (node : VNode) : (s.allocInode node).inodes s.nextInode = some ⟨1, node⟩ :=
  Function.update_self ..

theorem alloc_other (s : Vfs) (node : VNode) (h : p ≠ s.nextInode) :
    (s.allocInode node).inodes p = s.inodes p := Function.update_of_ne h ..

theorem ext_alloc (s : Vfs) {node : VNode} (hn : ∀ mode e, node ≠ .devfs mode e) : Ext s (s.allocInode node) where
  next := Nat.le_succ _
  old p hp := alloc_other s node hp.ne
  new p i hp hi := by
    by_cases he : p = s.nextInode
    · rw [he, alloc_same, Option.some.injEq] at hi
      subst hi
      exact .inr ⟨by rw [he]; exact Nat.lt_succ_self _, rfl, hn⟩
    · rw [alloc_other s node he] at hi
      exact .inl hi
  root := rfl
  mounts := rfl
  fats := rfl
  exfats := rfl
  nodes := rfl

/-- The node that a lookup of `c` in a directory finds. -/
inductive NodeFound (s : Vfs) (c : Name) : VNode → VNode → Prop where
  | fat {vol : Nat} {v : Fat32} {g f : Inode} (hv : s.fats vol = some v) (hl : v.lookup g c = .ok (some f)) :
      NodeFound s c (.fat vol g) (.fat vol f)
  | exfat {vol : Nat} {v : Exfat} {g f : ExInode} (hv : s.exfats vol = some v) (hl : v.lookup g c = .ok (some f)) :
      NodeFound s c (.exfat vol g) (.exfat vol f)

theorem nodeLookup_found {c : Name} {dir node : VNode} (h : s.nodeLookup c dir = .ok (some node)) :
    NodeFound s c dir node := by
  cases dir with
  | fat vol f =>
    obtain ⟨v, hv, h⟩ := bind_ok h
    obtain ⟨_ | g, hl, h⟩ := bind_ok h
    · cases h
    · cases h
      exact .fat (fat_ok hv) hl
  | exfat vol f =>
    obtain ⟨v, hv, h⟩ := bind_ok h
    obtain ⟨_ | g, hl, h⟩ := bind_ok h
    · cases h
    · cases h
      exact .exfat (exfat_ok hv) hl
  | devfs mode e => cases h

theorem NodeFound.volumeNode {c : Name} {dir node : VNode} (h : NodeFound s c dir node) : VolumeNode s node := by
  cases h with
  | fat hv _ => exact .fat hv
  | exfat hv _ => exact .exfat hv

/-- The node of a directory that `i_op->parent` makes up. -/
inductive MadeUp (s : Vfs) : VNode → VNode → Prop where
  | fat {vol : Nat} {v : Fat32} {f : Inode} (hv : s.fats vol = some v) :
      MadeUp s (.fat vol f) (.fat vol (v.parentInode f))
  | exfat {vol : Nat} {v : Exfat} {f : ExInode} (hv : s.exfats vol = some v) :
      MadeUp s (.exfat vol f) (.exfat vol (v.parentInode f))

theorem nodeParent_madeUp {node up : VNode} (h : s.nodeParent node = .ok (some up)) : MadeUp s node up := by
  cases node with
  | fat vol f =>
    obtain ⟨v, hv, h⟩ := bind_ok h
    split at h
    · cases h
    · cases h
      exact .fat (fat_ok hv)
  | exfat vol f =>
    obtain ⟨v, hv, h⟩ := bind_ok h
    split at h
    · cases h
    · cases h
      exact .exfat (exfat_ok hv)
  | devfs mode e => cases h

theorem MadeUp.volumeNode {node up : VNode} (h : MadeUp s node up) : VolumeNode s up := by
  cases h with
  | fat hv => exact .fat hv
  | exfat hv => exact .exfat hv

theorem lookupOp_cases {c : Name} (h : s.lookupOp p c = .ok (t, q)) :
    (∃ n node, s.inodes p = some ⟨n, node⟩ ∧ VolumeNode s node ∧ (q = none ∨
      ∃ found, NodeFound s c node found ∧ t = s.allocInode found ∧ q = some s.nextInode)) ∨
    ∃ n mode e, s.inodes p = some ⟨n, .devfs mode e⟩ ∧ s.devfsLookup e c = .ok (t, q) := by
  have hop := h
  obtain ⟨⟨n, node⟩, hi, hop⟩ := bind_ok hop
  have hi := inode_ok hi
  have hon : VolumeNode s node ∨ ∃ mode e, node = .devfs mode e := by
    cases node with
    | fat vol g =>
      obtain ⟨v, hv, -⟩ := bind_ok hop
      exact .inl (.fat (fat_ok hv))
    | exfat vol g =>
      obtain ⟨v, hv, -⟩ := bind_ok hop
      exact .inl (.exfat (exfat_ok hv))
    | devfs mode e => exact .inr ⟨mode, e, rfl⟩
  rcases hon with hon | ⟨mode, e, rfl⟩
  · rw [lookupOp_node hi hon] at h
    obtain ⟨_ | found, hf, h⟩ := bind_ok h
    · cases h
      exact .inl ⟨n, node, hi, hon, .inl rfl⟩
    · cases h
      exact .inl ⟨n, node, hi, hon, .inr ⟨found, nodeLookup_found hf, rfl, rfl⟩⟩
  · exact .inr ⟨n, mode, e, hi, hop⟩

theorem parentOp_cases (h : s.parentOp p = .ok (t, q)) : (VolumeRoot s p ∧ t = s ∧ q = some p) ∨
    (∃ n node up, s.inodes p = some ⟨n, node⟩ ∧ VolumeNode s node ∧ ¬ VolumeRoot s p ∧ MadeUp s node up ∧
      t = s.allocInode up ∧ q = some s.nextInode) ∨
    (∃ n mode e d, s.inodes p = some ⟨n, .devfs mode e⟩ ∧ s.nodes e = some d ∧ t = s ∧
      q = d.parentInode.or s.rootInode) := by
  have hop := h
  obtain ⟨⟨n, node⟩, hi, hop⟩ := bind_ok hop
  have hi := inode_ok hi
  have hon : VolumeNode s node ∨ ∃ mode e, node = .devfs mode e := by
    cases node with
    | fat vol g =>
      obtain ⟨v, hv, -⟩ := bind_ok hop
      exact .inl (.fat (fat_ok hv))
    | exfat vol g =>
      obtain ⟨v, hv, -⟩ := bind_ok hop
      exact .inl (.exfat (exfat_ok hv))
    | devfs mode e => exact .inr ⟨mode, e, rfl⟩
  rcases hon with hon | ⟨mode, e, rfl⟩
  · rw [parentOp_node hi hon] at h
    obtain ⟨_ | up, hf, h⟩ := bind_ok h
    · cases h
      exact .inl ⟨(volumeRoot_iff hi hon).2 hf, rfl, rfl⟩
    · cases h
      refine .inr (.inl ⟨n, node, up, hi, hon, fun hr => ?_, nodeParent_madeUp hf, rfl, rfl⟩)
      rw [(volumeRoot_iff hi hon).1 hr] at hf
      cases hf
  · obtain ⟨d, hd, hop⟩ := bind_ok hop
    cases hop
    exact .inr (.inr ⟨n, mode, e, d, hi, devNode_ok hd, rfl, rfl⟩)

theorem parentOp_ext (h : s.parentOp p = .ok (t, q)) : Ext s t := by
  rcases parentOp_cases h with ⟨-, rfl, -⟩ | ⟨n, node, up, -, -, -, hup, rfl, -⟩ | ⟨n, mode, e, d, -, -, rfl, -⟩
  · exact Ext.refl _
  · exact ext_alloc s hup.volumeNode.not_devfs
  · exact Ext.refl _

theorem parent_ext (h : s.parent p = .ok (t, q)) : Ext s t := by
  unfold parent at h
  split at h
  · cases h
    exact Ext.refl _
  · exact parentOp_ext h

theorem climb_ext {turns : Nat} {current : Option Nat} {comps comps' : List Name}
    (h : climb turns s current comps = .ok (t, comps')) : Ext s t :=
  climb_keeps (I := fun u _ => Ext s u) (fun hi _ _ hp => hi.trans (parent_ext hp)) (Ext.refl s) h

theorem buildPath_ext {maxLen : Nat} {path : Option Name} (h : s.buildPath p maxLen = .ok (t, path)) : Ext s t := by
  unfold buildPath at h
  split at h
  · cases h
    exact Ext.refl _
  · obtain ⟨⟨u, comps⟩, hc, h⟩ := bind_ok h
    cases h
    exact climb_ext hc

theorem currentPath_ext {current : Option Nat} {c path : Name}
    (h : s.currentPath current c = .ok (t, path)) : Ext s t := by
  unfold currentPath at h
  split at h
  · cases h
    exact Ext.refl _
  split at h
  · cases h
    exact Ext.refl _
  obtain ⟨⟨u, base⟩, hb, h⟩ := bind_ok h
  have hext := buildPath_ext hb
  cases base with
  | none =>
    cases h
    exact hext
  | some base =>
    simp only at h
    generalize (if base.getLast? = some slash then base else base ++ [slash]) ++ c = full at h
    split at h
    · cases h
    · cases h
      exact hext

end Vfs

end OS64
