import OS64.VfsPath
/-!
# VfsSpot — walks on volumes, without the inode table

A walk is at an inode that the VFS keeps (the start, the root or a mount point), at one that it holds the only reference
of, or at one that it has freed (`Spot`).  Where it gets to depends on the volumes and the mount points alone
(`spotWalk`): the inodes that `vfs_build_path` leaves behind and the numbers of the new ones do not matter
(`walk_follows`).  A walk that enters a devfs, or leaves the root of a mounted volume by dot-dot and so gives back a
reference that is not its own, is not followed any further.
-/
namespace OS64

open Res

namespace Vfs

/-! ## Nodes and spots -/

def namedPath (name : Option Name) : Option Name :=
  joinPath pathMax (if name.getD [] = [] then [] else [name.getD []]) [slash]

/-- `current_path_buf` for a component of a directory with that name. -/
def fitPath (name : Option Name) (c : Name) : Res Name :=
  match namedPath name with
  | none => .ok []
  | some base =>
    if pathMax ≤ ((if base.getLast? = some slash then base else base ++ [slash]) ++ c).length then
      .panic "current_path_buf"
    else .ok ((if base.getLast? = some slash then base else base ++ [slash]) ++ c)

def nodePath (s : Vfs) (node : VNode) (c : Name) : Res Name := (s.nodeName node).bind (fun name => fitPath name c)

/-- Where a walk is; of one that is `astray` nothing is known. -/
inductive Spot where
  | kept (m : Nat) (node : VNode)
  | live (node : VNode)
  | freed
  | astray

def spotAt (s : Vfs) (m : Nat) : Spot :=
  match s.inodes m with
  | some ⟨_, .fat vol f⟩ => .kept m (.fat vol f)
  | some ⟨_, .exfat vol f⟩ => .kept m (.exfat vol f)
  | _ => .astray

/-- The mount point at the path of a component, or the regular lookup. -/
def spotEnter (s : Vfs) (node : VNode) (c path : Name) : Res (Option Spot) :=
  match if path = [] then none else s.checkMountPoints path with
  | some m => .ok (some (s.spotAt m))
  | none => (s.nodeLookup c node).bind (fun r => .ok (r.map .live))

/-- One component: the spot reached, `none` for `-1`. -/
def spotStep (s : Vfs) (sp : Spot) (c : Name) : Res (Option Spot) :=
  if c = dotName then .ok (some sp)
  else if c = dotDotName then
    match sp with
    | .kept m _ => .ok (some (if s.rootInode = some m then sp else .astray))
    | .live node => (s.nodeParent node).bind (fun r => .ok (some (r.elim .freed .live)))
    | .freed => .panic "freed inode"
    | .astray => .ok (some .astray)
  else
    match sp with
    | .kept m node =>
      (if s.rootInode = some m then .ok ((slash :: c).take (pathMax - 1)) else s.nodePath node c).bind
        (s.spotEnter node c)
    | .live node => (s.nodePath node c).bind (s.spotEnter node c)
    | .freed => .panic "freed inode"
    | .astray => .ok (some .astray)

def spotWalk (s : Vfs) : List Name → Spot → Res (Option Spot)
  | [], sp => .ok (some sp)
  | c :: cs, sp => (s.spotStep sp c).bind (fun r =>
      match r with
      | none => .ok none
      | some next => spotWalk s cs next)

/-- Where the walk of a path from the directory `start` begins. -/
def spotStart (s : Vfs) (start : Nat) (path : Name) : Spot :=
  if path = [] ∨ path = [slash] then
    match (s.checkMountPoints [slash]).or s.rootInode with
    | none => .astray
    | some m => s.spotAt m
  else s.spotAt start

def spotPath (s : Vfs) (start : Nat) (path : Name) : Res (Option Spot) :=
  s.spotWalk (components path) (s.spotStart start path)

/-! ## The inode table of a walk -/

/-- The VFS keeps the inode: it is the start of the walk, the root or at a mount point. -/
def Fixture (s : Vfs) (start m : Nat) : Prop := m = start ∨ s.rootInode = some m ∨ ∃ x ∈ s.mounts, x.2 = m

/-- The inodes that the VFS keeps are directories, roots of volumes or of a devfs, and have references of its own. -/
structure Fixtures (s : Vfs) (root start : Nat) : Prop where
  isRoot : s.rootInode = some root
  fresh : ∀ p, s.nextInode ≤ p → s.inodes p = none
  kept : ∀ m, Fixture s start m → ∃ i, s.inodes m = some i ∧ i.node.mode = Fat32.ftDir ∧ 0 < i.refcount ∧
    i.refcount + 1 < 4294967296 ∧ ((∃ mode e, i.node = .devfs mode e) ∨ VolumeRoot s m)

/-- Inode `p` of `t` is what the walk holds at a spot; the other inodes of `s` are as they were. -/
structure Spotted (s : Vfs) (root start : Nat) (t : Vfs) (sp : Spot) (p : Nat) : Prop where
  env : Env s t root
  next : s.nextInode ≤ t.nextInode
  old : ∀ q, q < s.nextInode → q ≠ p → t.inodes q = s.inodes q
  held : match sp with
    | .kept m node => p = m ∧ VolumeNode s node ∧ ∃ n, s.inodes m = some ⟨n, node⟩ ∧ node.mode = Fat32.ftDir ∧ 0 < n ∧
        n + 1 < 4294967296 ∧ t.inodes m = some ⟨n + 1, node⟩
    | .live node => s.nextInode ≤ p ∧ t.inodes p = some ⟨1, node⟩ ∧ VolumeNode s node
    | .freed => s.nextInode ≤ p ∧ t.inodes p = none
    | .astray => False

/-- The result of a walk in the inode table is that of the walk over spots, unless that is astray. -/
def Follows (s : Vfs) (root start : Nat) (r : Res (Vfs × Option (Option Nat))) : Res (Option Spot) → Prop
  | .ok none => ∃ t, r = .ok (t, none)
  | .ok (some sp) => sp = .astray ∨ ∃ t p, r = .ok (t, some (some p)) ∧ Spotted s root start t sp p
  | .panic msg => r = .panic msg
  | .hang => r = .hang

section
variable {s t : Vfs} {root start p m : Nat} {node : VNode} {sp : Spot} {c : Name}

theorem Env.nodeLookup (he : Env s t root) (c : Name) (node : VNode) : t.nodeLookup c node = s.nodeLookup c node := by
  cases node <;> simp only [Vfs.nodeLookup, he.fat, he.exfat]

theorem Env.nodeParent (he : Env s t root) (node : VNode) : t.nodeParent node = s.nodeParent node := by
  cases node <;> simp only [Vfs.nodeParent, he.fat, he.exfat]

section
variable (he : Env s t root) (hp : t.inodes p = some ⟨m, node⟩) (hne : p ≠ root) (hon : VolumeNode s node)
include he hne

theorem currentPath_of_buildPath : t.currentPath (some p) c = (t.buildPath p pathMax).bind (fun r => match r.2 with
    | none => .ok (r.1, [])
    | some base =>
      let path := (if base.getLast? = some slash then base else base ++ [slash]) ++ c
      if pathMax ≤ path.length then .panic "current_path_buf" else .ok (r.1, path)) := by
  unfold currentPath
  rw [he.isRoot]
  exact if_neg (fun hc => hne (Option.some.inj hc))

include hp hon

theorem buildPath_node : ∃ f : Option Name → Vfs, t.buildPath p pathMax =
    (s.nodeName node).bind (fun name => .ok (f name, namedPath name)) := by
  have hont := hon.congr he.fats he.exfats
  obtain ⟨g, hg⟩ := buildPath_bind he hne pathMax
  rw [getName_node hp hont, he.nodeName] at hg
  rcases hn : s.nodeName node with name | msg | _
  · obtain ⟨t', ht'⟩ := hont.buildPath he hp hne ((he.nodeName node).trans hn)
    exact ⟨fun _ => t', ht'⟩
  · exact ⟨fun _ => t, by rw [hg, hn]; rfl⟩
  · exact ⟨fun _ => t, by rw [hg, hn]; rfl⟩

theorem currentPath_node : ∃ f : Name → Vfs, t.currentPath (some p) c =
    (s.nodePath node c).bind (fun path => .ok (f path, path)) := by
  obtain ⟨f, hb⟩ := buildPath_node he hp hne hon
  rw [currentPath_of_buildPath he hne, hb]
  unfold nodePath
  rcases s.nodeName node with name | msg | _
  · refine ⟨fun _ => f name, ?_⟩
    simp only [Res.bind, fitPath]
    cases namedPath name with
    | none => rfl
    | some base =>
      simp only
      generalize (if base.getLast? = some slash then base else base ++ [slash]) ++ c = path
      split <;> rfl
  · exact ⟨fun _ => t, rfl⟩
  · exact ⟨fun _ => t, rfl⟩

end

theorem Env.setInode (he : Env s t root) {q : Nat} (hq : q < t.nextInode) (i : Option VInode) :
    Env s (t.setInode q i) root := by
  refine ⟨he.isRoot, he.mounts, he.fats, he.exfats, fun x hx => ?_, he.lt⟩
  have hx : t.nextInode ≤ x := hx
  rw [setInode_other _ (by omega)]
  exact he.fresh x hx

theorem mem_of_mountAt {path : Name} (h : (if path = [] then none else s.checkMountPoints path) = some m) :
    ∃ x ∈ s.mounts, x.2 = m := by
  split at h
  · cases h
  · exact checkMountPoints_mem h

theorem Spotted.drop (h : Spotted s root start t sp p) (hr : Fixtures s root start) (hsp : sp ≠ .freed) :
    ∃ i, t.inodes p = some i ∧ VolumeNode s i.node ∧ ∀ u : Vfs, u.inodes p = some i →
      u.inodeUnref (some p) = .ok (u.setInode p (s.inodes p)) := by
  have hheld := h.held
  cases sp with
  | kept m node =>
    obtain ⟨rfl, hon, n, hs, -, hpos, hroom, hi⟩ := hheld
    refine ⟨_, hi, hon, fun u hu => ?_⟩
    have hcount : sub32 (n + 1) 1 = n := by
      rw [sub32_of_le (by omega) (by omega)]
      omega
    rw [inodeUnref_eq hu (show sub32 (n + 1) 1 ≠ 0 by omega), hs]
    simp only [hcount]
  | live node =>
    obtain ⟨hnew, hi, hon⟩ := hheld
    refine ⟨_, hi, hon, fun u hu => ?_⟩
    rw [hr.fresh p hnew]
    simp only [inodeUnref, inode_eq hu]
    cases hon with
    | fat _ => rfl
    | exfat _ => rfl
  | freed => exact absurd rfl hsp
  | astray => exact hheld.elim

structure Same (s : Vfs) (root : Nat) (t : Vfs) : Prop where
  env : Env s t root
  next : s.nextInode ≤ t.nextInode
  old : ∀ q, q < s.nextInode → t.inodes q = s.inodes q

theorem Spotted.same (h : Spotted s root start t sp p) {u : Vfs} (hext : Ext t u) (hlt : p < t.nextInode) :
    Same s root (u.setInode p (s.inodes p)) := by
  refine ⟨(h.env.ext hext).setInode (hlt.trans_le hext.next) _, h.next.trans hext.next, fun q hq => ?_⟩
  by_cases hqp : q = p
  · rw [hqp, setInode_same]
  · rw [setInode_other _ hqp, hext.old q (hq.trans_le h.next)]
    exact h.old q hq hqp

theorem Fixtures.kept_lt (hr : Fixtures s root start) (hm : Fixture s start m) : m < s.nextInode := by
  obtain ⟨i, hi, -⟩ := hr.kept m hm
  exact lt_of_fresh hr.fresh hi

theorem Fixtures.env (hr : Fixtures s root start) : Env s s root :=
  ⟨hr.isRoot, rfl, rfl, rfl, hr.fresh, hr.kept_lt (.inr (.inl hr.isRoot))⟩

theorem Same.ref (h : Same s root t) (hr : Fixtures s root start) (hm : Fixture s start m) :
    ∃ t', t.inodeRef (some m) = .ok t' ∧ (s.spotAt m = .astray ∨ Spotted s root start t' (s.spotAt m) m) := by
  obtain ⟨⟨n, node⟩, hi, hmode, hpos, hroom, hnode⟩ := hr.kept m hm
  have hlt := hr.kept_lt hm
  have hcount : u32 (n + 1) = n + 1 := u32_of_lt hroom
  refine ⟨_, inodeRef_eq ((h.old m hlt).trans hi), ?_⟩
  rcases hnode with ⟨mode, e, rfl⟩ | hvol
  · refine .inl ?_
    unfold spotAt
    rw [hi]
  have hplace : s.spotAt m = .kept m node ∧ VolumeNode s node := by
    obtain ⟨n', node', hi', hon, -⟩ := hvol.nodeAt
    rw [hi] at hi'
    cases hi'
    refine ⟨?_, hon⟩
    unfold spotAt
    rw [hi]
    cases hon <;> rfl
  rw [hplace.1]
  refine .inr ⟨h.env.setInode (hlt.trans_le h.next) _, h.next, fun q hq hne => ?_, rfl, hplace.2, n, hi, hmode,
    hpos, hroom, ?_⟩
  · rw [setInode_other _ hne]
    exact h.old q hq
  · rw [setInode_same]
    simp only [hcount]

section
variable (h : Spotted s root start t sp p)
include h

theorem Spotted.move {u : Vfs} (hext : Ext t u) (hlt : p < t.nextInode) {found : VNode} (hon : VolumeNode s found) :
    Spotted s root start ((u.allocInode found).setInode p (s.inodes p)) (.live found) u.nextInode := by
  have hpu : p < u.nextInode := hlt.trans_le hext.next
  have hsame := h.same (hext.trans (ext_alloc u hon.not_devfs)) hlt
  refine ⟨hsame.env, hsame.next, fun q hq _ => hsame.old q hq, h.next.trans hext.next, ?_, hon⟩
  rw [setInode_other _ hpu.ne']
  exact alloc_same u found

section
variable (hr : Fixtures s root start)
include hr

theorem Spotted.enter (hsp : sp ≠ .freed) {u : Vfs} (hext : Ext t u) {i : VInode} (hi : t.inodes p = some i) :
    Follows s root start (u.enter (some p) c) ((s.nodeLookup c i.node).bind (fun r => .ok (r.map .live))) := by
  obtain ⟨i', hi', hon, hun⟩ := h.drop hr hsp
  obtain rfl : i' = i := Option.some.inj (hi'.symm.trans hi)
  have heu := h.env.ext hext
  have hlt := h.env.alive_lt hi
  have hpu : u.inodes p = some i' := (hext.old p hlt).trans hi
  unfold Vfs.enter
  simp only
  rw [lookupOp_node hpu (hon.congr heu.fats heu.exfats), heu.nodeLookup]
  rcases hl : s.nodeLookup c i'.node with (_ | found) | msg | _
  · simp only [Res.bind, hun u hpu]
    exact ⟨_, rfl⟩
  · have hpa : (u.allocInode found).inodes p = some i' := by
      rwa [alloc_other u found (Nat.ne_of_lt (heu.alive_lt hpu))]
    simp only [Res.bind, hun _ hpa]
    exact .inr ⟨_, _, rfl, h.move hext hlt (nodeLookup_found hl).volumeNode⟩
  · rfl
  · rfl

theorem Spotted.name (hsp : sp ≠ .freed) {i : VInode}
    (hi : t.inodes p = some i) {u : Vfs} {path : Name} (hcur : t.currentPath (some p) c = .ok (u, path)) :
    Follows s root start (t.walkName (some p) c) (s.spotEnter i.node c path) := by
  have hext := currentPath_ext hcur
  have hcheck : u.checkMountPoints path = s.checkMountPoints path := by
    unfold checkMountPoints
    rw [hext.mounts, h.env.mounts]
  have hlt := h.env.alive_lt hi
  unfold walkName spotEnter
  simp only [hcur, Res.bind, hcheck]
  cases hm : if path = [] then none else s.checkMountPoints path with
  | none => exact h.enter hr hsp hext hi
  | some m =>
    have hkept : Fixture s start m := .inr (.inr (mem_of_mountAt hm))
    obtain ⟨i', hi', -, hun⟩ := h.drop hr hsp
    have hpu : u.inodes p = some i' := (hext.old p hlt).trans hi'
    obtain ⟨t', href, hspot⟩ := (h.same hext hlt).ref hr hkept
    simp only [hun u hpu, href]
    exact hspot.imp id (fun hs => ⟨t', m, rfl, hs⟩)

theorem Spotted.newParent (hnew : s.nextInode ≤ p) :
    t.getParentInode (some p) = (t.parentOp p).bind (fun r => .ok (r.1, some r.2)) := by
  have hold : ∀ m, Fixture s start m → m ≠ p := fun m hm hc => by
    have := hr.kept_lt hm
    omega
  have hroot : t.rootInode ≠ some p := by
    rw [h.env.isRoot]
    exact fun hc => hold root (.inr (.inl hr.isRoot)) (Option.some.inj hc)
  have hmount : t.mounts.any (fun m => m.2 == p) = false := by
    rw [h.env.mounts, List.any_eq_false]
    exact fun x hx hc => hold x.2 (.inr (.inr ⟨x, hx, rfl⟩)) (by simpa using hc)
  simp only [getParentInode, if_neg hroot, hmount, Bool.false_eq_true, if_false]

theorem Spotted.dotDot : Follows s root start (t.walkStep (some p) dotDotName) (s.spotStep sp dotDotName) := by
  have hheld := h.held
  unfold walkStep spotStep
  cases sp with
  | kept m node =>
    by_cases htop : s.rootInode = some m
    · -- a reference is taken and the old one given back
      obtain ⟨rfl, hon, n, hs, hmode, hpos, hroom, hi⟩ := hheld
      cases hr.isRoot.symm.trans htop
      have hback : sub32 (u32 (n + 1 + 1)) 1 = n + 1 := sub32_u32_succ hroom
      have hun : (t.setInode root (some ⟨u32 (n + 1 + 1), node⟩)).inodeUnref (some root) =
          .ok ((t.setInode root (some ⟨u32 (n + 1 + 1), node⟩)).setInode root (some ⟨n + 1, node⟩)) := by
        rw [inodeUnref_eq (setInode_same _) (show sub32 (u32 (n + 1 + 1)) 1 ≠ 0 by omega)]
        simp only [hback]
      have hsame : (t.setInode root (some ⟨u32 (n + 1 + 1), node⟩)).rootInode = some root := h.env.isRoot
      have hlt := h.env.lt
      simp only [if_pos htop, getParentInode, h.env.isRoot, if_true, inodeRef_eq hi, Res.bind, hun, hsame]
      refine .inr ⟨_, _, rfl, (h.env.setInode hlt _).setInode hlt _, h.next, fun q hq hne => ?_, rfl, hon, n, hs,
        hmode, hpos, hroom, setInode_same _⟩
      rw [setInode_other _ hne, setInode_other _ hne]
      exact h.old q hq hne
    · simp only [if_neg htop]
      exact .inl rfl
  | live node =>
    obtain ⟨i, hi, hon, hun⟩ := h.drop hr (by simp)
    obtain ⟨hnew, hi', -⟩ := hheld
    cases hi.symm.trans hi'
    have hlt := h.env.alive_lt hi
    simp only [h.newParent hr hnew, parentOp_node hi (hon.congr h.env.fats h.env.exfats), h.env.nodeParent]
    rcases hpar : s.nodeParent node with (_ | found) | msg | _
    · -- the inode is its own parent, and is freed
      have hsame := h.same (Ext.refl t) hlt
      simp only [Res.bind, hun t hi]
      exact .inr ⟨_, _, rfl, hsame.env, hsame.next, fun q hq _ => hsame.old q hq, hnew,
        (setInode_same _).trans (hr.fresh p hnew)⟩
    · have hpa : (t.allocInode found).inodes p = some ⟨1, node⟩ := by
        rwa [alloc_other t found hlt.ne]
      simp only [Res.bind, hun _ hpa]
      exact .inr ⟨_, _, rfl, h.move (Ext.refl t) hlt (nodeParent_madeUp hpar).volumeNode⟩
    · rfl
    · rfl
  | freed =>
    obtain ⟨hnew, hi⟩ := hheld
    have hfreed : t.parentOp p = .panic "freed inode" := by
      unfold Vfs.parentOp Vfs.inode
      rw [hi]
      rfl
    rw [h.newParent hr hnew, hfreed]
    rfl
  | astray => exact hheld.elim

/-- **One component in the inode table** does what it does over spots. -/
theorem Spotted.step (c : Name) : Follows s root start (t.walkStep (some p) c) (s.spotStep sp c) := by
  by_cases hdots : c = dotDotName
  · subst hdots
    exact h.dotDot hr
  unfold walkStep spotStep
  by_cases hdot : c = dotName
  · rw [if_pos hdot, if_pos hdot]
    exact .inr ⟨_, _, rfl, h⟩
  rw [if_neg hdot, if_neg hdot, if_neg hdots, if_neg hdots]
  have hheld := h.held
  -- the path of a component of an inode that is not the root
  have hnamed : ∀ {n node}, t.inodes p = some ⟨n, node⟩ → VolumeNode s node → p ≠ root → sp ≠ .freed →
      Follows s root start (t.walkName (some p) c) ((s.nodePath node c).bind (s.spotEnter node c)) := by
    intro n node hi hon hne hsp
    obtain ⟨f, hcur⟩ := currentPath_node h.env hi hne hon
    rcases hpath : s.nodePath node c with path | msg | _
    · rw [hpath] at hcur
      exact h.name hr hsp hi hcur
    · unfold walkName
      rw [hcur, hpath]
      rfl
    · unfold walkName
      rw [hcur, hpath]
      rfl
  cases sp with
  | kept m node =>
    obtain ⟨rfl, hon, n, -, -, -, -, hi⟩ := hheld
    by_cases htop : s.rootInode = some p
    · have hcur : t.currentPath (some p) c = .ok (t, (slash :: c).take (pathMax - 1)) := by
        unfold currentPath
        rw [if_pos (h.env.isRoot.trans (hr.isRoot.symm.trans htop)).symm]
      simp only [if_pos htop]
      exact h.name hr (nofun) hi hcur
    · simp only [if_neg htop]
      exact hnamed hi hon (fun hc => htop (hc ▸ hr.isRoot)) (nofun)
  | live node =>
    obtain ⟨hnew, hi, hon⟩ := hheld
    exact hnamed hi hon (fun hc => Nat.not_le_of_lt hr.env.lt (hc ▸ hnew)) (nofun)
  | freed =>
    obtain ⟨hnew, hi⟩ := hheld
    have hne : p ≠ root := fun hc => Nat.not_le_of_lt hr.env.lt (hc ▸ hnew)
    have hname : t.getName p nameMax = .panic "freed inode" := by
      unfold Vfs.getName Vfs.inode
      rw [hi]
      rfl
    obtain ⟨g, hg⟩ := buildPath_bind h.env hne pathMax
    unfold walkName
    rw [currentPath_of_buildPath h.env hne, hg, hname]
    rfl
  | astray => exact hheld.elim

end

end

theorem spotWalk_astray : ∀ (cs : List Name), s.spotWalk cs .astray = .ok (some .astray)
  | [] => rfl
  | c :: cs => by
    have hstep : s.spotStep .astray c = .ok (some .astray) := by
      unfold spotStep
      split
      · rfl
      · split <;> rfl
    unfold spotWalk
    rw [hstep]
    exact spotWalk_astray cs

theorem Spotted.comps (hr : Fixtures s root start) : ∀ (cs : List Name) {t : Vfs} {sp : Spot} {p : Nat},
    Spotted s root start t sp p → Follows s root start (walkComps cs t (some p)) (s.spotWalk cs sp)
  | [], t, sp, p, h => .inr ⟨t, p, rfl, h⟩
  | c :: cs, t, sp, p, h => by
    have hstep := h.step hr c
    unfold walkComps spotWalk
    revert hstep
    rcases s.spotStep sp c with (_ | next) | msg | _
    · rintro ⟨u, hu⟩
      rw [hu]
      exact ⟨u, rfl⟩
    · rintro (rfl | ⟨u, q, hu, hq⟩)
      · simp only [Res.bind, spotWalk_astray]
        exact .inl rfl
      · rw [hu]
        exact Spotted.comps hr cs hq
    · intro hu
      rw [hu]
      rfl
    · intro hu
      rw [hu]
      rfl

/-- **A walk in the inode table** gets to where it gets over spots. -/
theorem walk_follows (hr : Fixtures s root start) (path : Name) :
    Follows s root start (s.walk start path) (s.spotPath start path) := by
  have hsame : Same s root s := ⟨hr.env, le_rfl, fun _ _ => rfl⟩
  unfold spotPath spotStart
  by_cases htriv : path = [] ∨ path = [slash]
  · obtain ⟨m, hm, hkept⟩ : ∃ m, (s.checkMountPoints [slash]).or s.rootInode = some m ∧ Fixture s start m := by
      cases hc : s.checkMountPoints [slash] with
      | none => exact ⟨root, by rw [Option.none_or, hr.isRoot], .inr (.inl hr.isRoot)⟩
      | some m => exact ⟨m, rfl, .inr (.inr (checkMountPoints_mem hc))⟩
    have hcomps : components path = [] := by
      rcases htriv with rfl | rfl
      · rfl
      · rfl
    obtain ⟨t, href, hspot⟩ := hsame.ref hr hkept
    unfold walk
    simp only [if_pos htriv, hm, href, hcomps]
    exact hspot.imp id (fun hs => ⟨t, m, rfl, hs⟩)
  · obtain ⟨t, href, hspot⟩ := hsame.ref hr (.inl rfl)
    unfold walk
    simp only [if_neg htriv, href]
    rcases hspot with hspot | hspot
    · rw [hspot, spotWalk_astray]
      exact .inl rfl
    · exact Spotted.comps hr (components path) hspot

end

/-! ## The same walk in another state -/

def Spot.map (f : VNode → VNode) : Spot → Spot
  | kept m node => kept m node
  | live node => live (f node)
  | freed => freed
  | astray => astray

def Spot.node : Spot → Option VNode
  | kept _ node => some node
  | live node => some node
  | freed => none
  | astray => none

/-- Every node in which the walk looks up a component has the property `P`. -/
def Passes (P : VNode → Prop) (s : Vfs) : List Name → Spot → Prop
  | [], _ => True
  | c :: cs, sp => (c ≠ dotName → c ≠ dotDotName → ∀ node, sp.node = some node → P node) ∧
      ∀ next, s.spotStep sp c = .ok (some next) → Passes P s cs next

/-- What is found in `s'` is `f` of what is found in `s`, in the nodes with the property `P`; the mount points are the
same. -/
structure Carries (s s' : Vfs) (P : VNode → Prop) (f : VNode → VNode) : Prop where
  root : s'.rootInode = s.rootInode
  mounts : s'.mounts = s.mounts
  spots : ∀ x ∈ s.mounts, s'.spotAt x.2 = s.spotAt x.2
  fixed : ∀ node, P node → f node = node
  lookup : ∀ node c, P node → s'.nodeLookup c node = (s.nodeLookup c node).bind (fun r => .ok (r.map f))
  name : ∀ node, P node → s'.nodeName node = s.nodeName node
  parent : ∀ node, s'.nodeParent (f node) = (s.nodeParent node).bind (fun r => .ok (r.map f))

section
variable {s s' : Vfs} {P Q : VNode → Prop} {f : VNode → VNode} {node : VNode} {c path : Name} {sp : Spot}

theorem spotAt_map (m : Nat) : (s.spotAt m).map f = s.spotAt m := by
  unfold spotAt
  split <;> rfl

theorem Carries.enter (h : Carries s s' P f) (hp : P node) (path : Name) :
    s'.spotEnter node c path = (s.spotEnter node c path).bind (fun r => .ok (r.map (Spot.map f))) := by
  have hcheck : s'.checkMountPoints path = s.checkMountPoints path := by
    unfold checkMountPoints
    rw [h.mounts]
  unfold spotEnter
  rw [hcheck]
  cases hm : if path = [] then none else s.checkMountPoints path with
  | none =>
    simp only [h.lookup node c hp]
    rcases s.nodeLookup c node with (_ | _) | _ | _ <;> rfl
  | some m =>
    obtain ⟨x, hx, rfl⟩ := mem_of_mountAt hm
    simp only [h.spots x hx, Res.bind, Option.map_some, spotAt_map]

theorem Carries.step (h : Carries s s' P f) (hp : c ≠ dotName → c ≠ dotDotName → ∀ node, sp.node = some node → P node) :
    s'.spotStep (sp.map f) c = (s.spotStep sp c).bind (fun r => .ok (r.map (Spot.map f))) := by
  unfold spotStep
  by_cases hdot : c = dotName
  · rw [if_pos hdot, if_pos hdot]
    rfl
  rw [if_neg hdot, if_neg hdot]
  by_cases hdots : c = dotDotName
  · rw [if_pos hdots, if_pos hdots]
    cases sp with
    | kept m node =>
      simp only [Spot.map, h.root]
      split <;> rfl
    | live node =>
      simp only [Spot.map, h.parent]
      rcases s.nodeParent node with (_ | _) | _ | _ <;> rfl
    | freed => rfl
    | astray => rfl
  rw [if_neg hdots, if_neg hdots]
  have hnamed : ∀ {node : VNode}, P node → (s'.nodePath node c).bind (s'.spotEnter node c) =
      ((s.nodePath node c).bind (s.spotEnter node c)).bind (fun r => .ok (r.map (Spot.map f))) := by
    intro node hnode
    simp only [nodePath, h.name node hnode]
    rcases (s.nodeName node).bind (fun name => fitPath name c) with path | _ | _
    · exact h.enter hnode path
    · rfl
    · rfl
  cases sp with
  | kept m node =>
    have hnode := hp hdot hdots node rfl
    simp only [Spot.map, h.root]
    by_cases htop : s.rootInode = some m
    · simp only [if_pos htop]
      exact h.enter hnode _
    · simp only [if_neg htop]
      exact hnamed hnode
  | live node =>
    have hnode := hp hdot hdots node rfl
    simp only [Spot.map, h.fixed node hnode]
    exact hnamed hnode
  | freed => rfl
  | astray => rfl

/-- **The walk in `s'`** gets to `f` of where it gets in `s`. -/
theorem Carries.walk (h : Carries s s' P f) : ∀ (cs : List Name) {sp : Spot}, Passes P s cs sp →
    s'.spotWalk cs (sp.map f) = (s.spotWalk cs sp).bind (fun r => .ok (r.map (Spot.map f)))
  | [], _, _ => rfl
  | c :: cs, sp, hp => by
    have hstep := h.step hp.1
    unfold spotWalk
    rw [hstep]
    rcases hr : s.spotStep sp c with (_ | next) | _ | _
    · rfl
    · exact Carries.walk h cs (hp.2 next hr)
    · rfl
    · rfl

variable (hlook : ∀ node c found, P node → s.nodeLookup c node = .ok (some found) → Q found)
    (hpar : ∀ node found, Q node → s.nodeParent node = .ok (some found) → Q found)
    (hmount : ∀ x ∈ s.mounts, ∀ node, (s.spotAt x.2).node = some node → Q node)
include hlook hpar hmount

theorem spotStep_node {next : Spot} (hgo : c ≠ dotName → c ≠ dotDotName → ∀ node, sp.node = some node → P node)
    (hq : ∀ node, sp.node = some node → Q node) (hr : s.spotStep sp c = .ok (some next)) :
    ∀ node, next.node = some node → Q node := by
  unfold spotStep at hr
  by_cases hdot : c = dotName
  · rw [if_pos hdot] at hr
    cases hr
    exact hq
  rw [if_neg hdot] at hr
  by_cases hdots : c = dotDotName
  · rw [if_pos hdots] at hr
    cases sp with
    | kept m dir =>
      cases hr
      split
      · exact hq
      · exact fun node hn => by cases hn
    | live dir =>
      obtain ⟨q, hpq, hr⟩ := bind_ok hr
      cases q with
      | none =>
        cases hr
        exact fun node hn => by cases hn
      | some up =>
        cases hr
        intro node hn
        cases hn
        exact hpar dir _ (hq dir rfl) hpq
    | freed => cases hr
    | astray =>
      cases hr
      exact hq
  rw [if_neg hdots] at hr
  have henter : ∀ {dir : VNode} {path : Name}, P dir → s.spotEnter dir c path = .ok (some next) →
      ∀ node, next.node = some node → Q node := by
    intro dir path hdir he
    unfold spotEnter at he
    cases hm : if path = [] then none else s.checkMountPoints path with
    | none =>
      rw [hm] at he
      obtain ⟨q, hlq, he⟩ := bind_ok he
      cases q with
      | none => cases he
      | some sub =>
        cases he
        intro node hn
        cases hn
        exact hlook dir c _ hdir hlq
    | some m =>
      rw [hm] at he
      cases he
      obtain ⟨x, hx, rfl⟩ := mem_of_mountAt hm
      exact hmount x hx
  cases sp with
  | kept m dir =>
    obtain ⟨path, -, hr⟩ := bind_ok hr
    exact henter (hgo hdot hdots dir rfl) hr
  | live dir =>
    obtain ⟨path, -, hr⟩ := bind_ok hr
    exact henter (hgo hdot hdots dir rfl) hr
  | freed => cases hr
  | astray =>
    cases hr
    exact fun node hn => by cases hn

theorem Passes.last : ∀ (cs : List Name) {sp last : Spot},
    Passes P s cs sp → (∀ node, sp.node = some node → Q node) → s.spotWalk cs sp = .ok (some last) →
    ∀ node, last.node = some node → Q node
  | [], sp, last, _, hq, h => by
    cases h
    exact hq
  | c :: cs, sp, last, hp, hq, h => by
    obtain ⟨r, hr, h⟩ := bind_ok h
    cases r with
    | none => cases h
    | some next => exact Passes.last cs (hp.2 next hr) (spotStep_node hlook hpar hmount hp.1 hq hr) h

theorem Passes.and : ∀ (cs : List Name) {sp : Spot},
    Passes P s cs sp → (∀ node, sp.node = some node → Q node) → Passes (fun node => P node ∧ Q node) s cs sp
  | [], _, _, _ => trivial
  | _ :: cs, _, hp, hq =>
    ⟨fun hdot hdots node hn => ⟨hp.1 hdot hdots node hn, hq node hn⟩, fun next hr =>
      Passes.and cs (hp.2 next hr) (spotStep_node hlook hpar hmount hp.1 hq hr)⟩

end

end Vfs

end OS64
