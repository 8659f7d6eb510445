import OS64.VfsMount
/-!
# VfsTree — mounted trees, and walks of absolute paths

A walk starts at the directory it is given, also for a path with a slash in front.  Only `/` itself is walked from the
root of the VFS: it is the one absolute path whose walk does not depend on the start, in every tree (`absolute_iff`).
-/
namespace OS64

open List Option Res

namespace Vfs

variable {c path : Name} {e j p : Nat} {d : DevNode} {names : List Name} {i : VInode} {s t t' : Vfs} {q : Option Nat}

/-- A mounted tree: whatever the root, a mount point, an inode or a devfs node refers to has not been freed, and every
inode has a reference, with room to count one more. -/
structure Tree (s : Vfs) : Prop where
  fresh : ∀ p, s.nextInode ≤ p → s.inodes p = none
  root : ∃ r i, s.rootInode = some r ∧ s.inodes r = some i
  mounts : ∀ m ∈ s.mounts, ∃ i, s.inodes m.2 = some i
  count : ∀ p i, s.inodes p = some i → 0 < i.refcount ∧ i.refcount + 1 < 4294967296
  fat : ∀ p n vol f, s.inodes p = some ⟨n, .fat vol f⟩ → ∃ v, s.fats vol = some v
  exfat : ∀ p n vol f, s.inodes p = some ⟨n, .exfat vol f⟩ → ∃ v, s.exfats vol = some v
  node : ∀ p n mode e, s.inodes p = some ⟨n, .devfs mode e⟩ → ∃ d, s.nodes e = some d
  list : ∀ e d l, s.nodes e = some d → d.list = some l → ∀ x ∈ l, ∃ y, s.nodes x = some y
  inode : ∀ e d p, s.nodes e = some d → d.inode = some p → ∃ i, s.inodes p = some i
  parent : ∀ e d p, s.nodes e = some d → d.parentInode = some p → ∃ i, s.inodes p = some i

def IsDir (s : Vfs) (p : Nat) : Prop := ∃ i, s.inodes p = some i ∧ i.node.mode = Fat32.ftDir

def Agree : Res (Vfs × Option (Option Nat)) → Res (Vfs × Option (Option Nat)) → Prop
  | .ok (_, none), .ok (_, none) => True
  | .ok (s, some r), .ok (s', some r') => ∃ o, s.objectAt r = some o ∧ s'.objectAt r' = some o
  | _, _ => False

/-! ## More on components and paths -/

theorem slash_not_mem_tokens : ∀ {n : Nat} {path : Name}, c ∈ tokens n path → slash ∉ c
  | 0, path, h => by cases h
  | n + 1, path, h => by
    unfold tokens at h
    simp only at h
    split at h
    · cases h
    rcases mem_cons.1 h with rfl | h
    · intro hc
      simpa using mem_takeWhile_imp hc
    · exact slash_not_mem_tokens h

/-- **What the turns of `climb` keep** holds of what they end with. -/
theorem climb_keeps {I : Vfs → List Name → Prop} (hstep : ∀ {s p comps name s' q}, I s comps → s.rootInode ≠ some p →
      s.getName p nameMax = .ok name → s.parent p = .ok (s', q) →
      I s' (if name.getD [] = [] then comps else name.getD [] :: comps)) :
    ∀ {turns : Nat} {s t : Vfs} {current : Option Nat} {comps comps' : List Name}, I s comps →
      climb turns s current comps = .ok (t, comps') → I t comps'
  | turns, s, t, none, comps, comps', hi, h => by
    unfold climb at h
    cases h
    exact hi
  | 0, s, t, some p, comps, comps', hi, h => by
    unfold climb at h
    split at h
    · cases h
      exact hi
    · cases h
  | turns + 1, s, t, some p, comps, comps', hi, h => by
    unfold climb at h
    split at h
    · cases h
      exact hi
    rename_i hgo
    obtain ⟨name, hn, h⟩ := bind_ok h
    obtain ⟨⟨s', q⟩, hp, h⟩ := bind_ok h
    have hi' := hstep hi (fun hr => hgo (.inl hr.symm)) hn hp
    split at h
    · cases h
      exact hi'
    · exact climb_keeps hstep hi' h

theorem ne_single (h : slash ∈ path.tail) (hc : slash ∉ c) (n : Nat) : path ≠ (slash :: c).take (n + 1) := by
  rintro rfl
  exact hc (mem_of_mem_take h)

/-! ## A ladder of directories

Three hundred devfs directories, each in the next one, beside the root of a FAT32 volume on which every name of a list
is a mount point for that same root.  Inode 0 is the root, inode `j + 1` the directory `j`. -/

def rung : Name := Name.ofString "d"

/-- Node `2 * j` is that of directory `j` itself, node `2 * j + 1` its entry in the next one. -/
def ladderNode (e : Nat) : Option DevNode :=
  if e % 2 = 0 then
    if e < 600 then
      some { name := rung, type := Fat32.ftDir, inode := some (e / 2 + 1),
             parentInode := if e < 598 then some (e / 2 + 2) else none,
             list := some (if e = 0 then [] else [e - 1]) }
    else none
  else if e < 598 then
    some { name := rung, type := Fat32.ftDir, inode := some (e / 2 + 1), parentInode := some (e / 2 + 2), list := none }
  else none

def ladderMounts (names : List Name) : List (Name × Nat) := names.map (fun c => ((slash :: c).take (pathMax - 1), 0))

def ladder (names : List Name) : Vfs :=
  { start.withFat32 newDisk with
    inodes := fun p => if p = 0 then (start.withFat32 newDisk).inodes 0
      else if p ≤ 300 then some ⟨1, .devfs Fat32.ftDir (2 * (p - 1))⟩ else none
    nextInode := 301
    nodes := ladderNode
    mounts := ladderMounts names }

theorem ladderNode_ref {q : Nat} (h : ladderNode e = some d) (hq : d.inode = some q ∨ d.parentInode = some q) :
    q ≤ 300 := by
  unfold ladderNode at h
  repeat' split at h
  all_goals cases h
  all_goals rcases hq with hq | hq
  all_goals cases hq
  all_goals omega

theorem ladderNode_list {x : Nat} {l : List Nat} (h : ladderNode e = some d) (hl : d.list = some l)
    (hx : x ∈ l) : e % 2 = 0 ∧ x + 1 = e ∧ e < 600 := by
  unfold ladderNode at h
  repeat' split at h
  all_goals cases h
  all_goals cases hl
  all_goals simp only [not_mem_nil, mem_singleton] at hx
  all_goals omega

theorem ladderNode_entry {x : Nat} (h : x % 2 = 1) (hx : x < 598) : ladderNode x = some
    { name := rung, type := Fat32.ftDir, inode := some (x / 2 + 1), parentInode := some (x / 2 + 2),
      list := none } := by
  unfold ladderNode
  rw [if_neg (by omega), if_pos hx]

theorem ladderNode_dir (hj : j < 300) : ladderNode (2 * j) = some
    { name := rung, type := Fat32.ftDir, inode := some (j + 1), parentInode := if j < 299 then some (j + 2) else none,
      list := some (if j = 0 then [] else [2 * j - 1]) } := by
  unfold ladderNode
  rw [if_pos (by omega), if_pos (by omega)]
  have h1 : 2 * j / 2 = j := by omega
  have h2 : (2 * j < 598) = (j < 299) := propext ⟨fun _ => by omega, fun _ => by omega⟩
  have h3 : (2 * j = 0) = (j = 0) := propext ⟨fun _ => by omega, fun _ => by omega⟩
  simp only [h1, h2, h3]

theorem ladder_inode (names : List Name) (h0 : p ≠ 0) (h : p ≤ 300) :
    (ladder names).inodes p = some ⟨1, .devfs Fat32.ftDir (2 * (p - 1))⟩ := by
  show (if p = 0 then _ else if p ≤ 300 then _ else _) = _
  rw [if_neg h0, if_pos h]

theorem ladder_cases (h : (ladder names).inodes p = some i) :
    (p = 0 ∧ ∃ f, i = ⟨2, .fat 0 f⟩) ∨ (p ≠ 0 ∧ p ≤ 300 ∧ i = ⟨1, .devfs Fat32.ftDir (2 * (p - 1))⟩) := by
  by_cases h0 : p = 0
  · subst h0
    cases h
    exact .inl ⟨rfl, _, rfl⟩
  refine .inr ⟨h0, ?_⟩
  by_cases h1 : p ≤ 300
  · rw [ladder_inode names h0 h1] at h
    exact ⟨h1, (Option.some.inj h).symm⟩
  exfalso
  have hnone : (ladder names).inodes p = none := by
    show (if p = 0 then _ else if p ≤ 300 then _ else _) = _
    rw [if_neg h0, if_neg h1]
  rw [hnone] at h
  cases h

theorem ladder_alive (names : List Name) (h : p ≤ 300) : ∃ i, (ladder names).inodes p = some i := by
  by_cases h0 : p = 0
  · exact ⟨_, by rw [h0]; rfl⟩
  · exact ⟨_, ladder_inode names h0 h⟩

theorem ladder_tree (names : List Name) : Tree (ladder names) where
  fresh p hp := by
    cases hi : (ladder names).inodes p with
    | none => rfl
    | some i =>
      have h301 : 301 ≤ p := hp
      rcases ladder_cases hi with ⟨rfl, -⟩ | ⟨-, h, -⟩
      · omega
      · omega
  root := ⟨0, _, rfl, rfl⟩
  mounts m hm := by
    obtain ⟨c, -, rfl⟩ := mem_map.1 hm
    exact ladder_alive names (Nat.zero_le _)
  count p i hi := by
    rcases ladder_cases hi with ⟨-, f, rfl⟩ | ⟨-, -, rfl⟩
    · exact ⟨Nat.succ_pos _, by show 2 + 1 < _; decide⟩
    · exact ⟨Nat.succ_pos _, by show 1 + 1 < _; decide⟩
  fat p n vol f hi := by
    rcases ladder_cases hi with ⟨-, g, hc⟩ | ⟨-, -, hc⟩
    · cases hc
      exact ⟨_, rfl⟩
    · cases hc
  exfat p n vol f hi := by
    rcases ladder_cases hi with ⟨-, g, hc⟩ | ⟨-, -, hc⟩
    · cases hc
    · cases hc
  node p n mode e hi := by
    rcases ladder_cases hi with ⟨-, g, hc⟩ | ⟨h0, h, hc⟩
    · cases hc
    · cases hc
      exact ⟨_, ladderNode_dir (by omega)⟩
  list e d l hd hl x hx := by
    obtain ⟨h1, h2, h3⟩ := ladderNode_list hd hl hx
    exact ⟨_, ladderNode_entry (by omega) (by omega)⟩
  inode e d p hd hp := ladder_alive names (ladderNode_ref hd (.inl hp))
  parent e d p hd hp := ladder_alive names (ladderNode_ref hd (.inr hp))

/-! ### From the root -/

/-- The root holds its references and the mount points are there. -/
structure AtTop (names : List Name) (t : Vfs) : Prop where
  root : t.rootInode = some 0
  mounts : t.mounts = ladderMounts names
  inode : ∃ f, t.inodes 0 = some ⟨3, .fat 0 f⟩

theorem inodeUnref_eq (h : s.inodes p = some i) (hn : sub32 i.refcount 1 ≠ 0) :
    s.inodeUnref (some p) = .ok (s.setInode p (some { i with refcount := sub32 i.refcount 1 })) := by
  simp only [inodeUnref, inode_eq h, Res.bind, if_neg hn]

theorem checkMountPoints_ladder (hm : t.mounts = ladderMounts names)
    (hc : c ∈ names) : t.checkMountPoints ((slash :: c).take (pathMax - 1)) = some 0 := by
  unfold checkMountPoints
  rw [hm]
  cases hf : (ladderMounts names).find? (fun m => decide (m.1 = (slash :: c).take (pathMax - 1))) with
  | none =>
    have := List.find?_eq_none.1 hf _ (mem_map.2 ⟨c, hc, rfl⟩)
    simp at this
  | some m =>
    obtain ⟨d, -, rfl⟩ := mem_map.1 (mem_of_find?_eq_some hf)
    rfl

theorem walkStep_top (h : AtTop names t) (hc : c ∈ names) :
    ∃ t', t.walkStep (some 0) c = .ok (t', some (some 0)) ∧ AtTop names t' := by
  obtain ⟨hroot, hmounts, f, hi⟩ := h
  unfold walkStep
  split
  · exact ⟨t, rfl, hroot, hmounts, f, hi⟩
  split
  · -- the parent of the root is the root, with a reference more and one less
    have href : t.inodeRef (some 0) = .ok (t.setInode 0 (some ⟨4, .fat 0 f⟩)) := inodeRef_eq hi
    have hun : (t.setInode 0 (some ⟨4, .fat 0 f⟩)).inodeUnref (some 0) =
        .ok ((t.setInode 0 (some ⟨4, .fat 0 f⟩)).setInode 0 (some ⟨3, .fat 0 f⟩)) :=
      inodeUnref_eq (setInode_same _) (show sub32 4 1 ≠ 0 by decide)
    refine ⟨(t.setInode 0 (some ⟨4, .fat 0 f⟩)).setInode 0 (some ⟨3, .fat 0 f⟩), ?_, hroot, hmounts, f, setInode_same _⟩
    simp only [getParentInode, hroot, if_true, href, Res.bind]
    rw [hun]
    show Res.ok (_, some t.rootInode) = _
    rw [hroot]
  · have hun : t.inodeUnref (some 0) = .ok (t.setInode 0 (some ⟨2, .fat 0 f⟩)) :=
      inodeUnref_eq hi (show sub32 3 1 ≠ 0 by decide)
    have href : (t.setInode 0 (some ⟨2, .fat 0 f⟩)).inodeRef (some 0) =
        .ok ((t.setInode 0 (some ⟨2, .fat 0 f⟩)).setInode 0 (some ⟨3, .fat 0 f⟩)) := inodeRef_eq (setInode_same _)
    refine ⟨(t.setInode 0 (some ⟨2, .fat 0 f⟩)).setInode 0 (some ⟨3, .fat 0 f⟩), ?_, hroot, hmounts, f, setInode_same _⟩
    have hne : (slash :: c).take (pathMax - 1) ≠ [] := by exact cons_ne_nil _ _
    unfold walkName currentPath
    rw [if_pos hroot.symm]
    simp only [Res.bind, if_neg hne, checkMountPoints_ladder hmounts hc]
    rw [hun]
    simp only
    rw [href]

theorem walkComps_top : ∀ {comps : List Name} {t : Vfs}, AtTop names t → comps ⊆ names →
    ∃ t', walkComps comps t (some 0) = .ok (t', some (some 0)) ∧ AtTop names t'
  | [], t, h, _ => ⟨t, rfl, h⟩
  | c :: comps, t, h, hc => by
    obtain ⟨t₁, h₁, ht₁⟩ := walkStep_top h (hc (.head _))
    obtain ⟨t', h', ht'⟩ := walkComps_top ht₁ (fun d hd => hc (.tail _ hd))
    refine ⟨t', ?_, ht'⟩
    unfold walkComps
    rwa [h₁]

/-! ### From a directory that is its own parent -/

def loopDir : DevNode :=
  { name := rung, type := Fat32.ftDir, inode := some 1, parentInode := some 1, list := some [] }

/-- The ladder with the innermost directory as its own parent: dot-dot never leaves it. -/
def loop (names : List Name) : Vfs := { ladder names with nodes := Function.update ladderNode 0 (some loopDir) }

theorem loop_nodes (names : List Name) (h : (loop names).nodes e = some d) :
    (e = 0 ∧ d = loopDir) ∨ (ladder names).nodes e = some d := by
  by_cases he : e = 0
  · subst he
    exact .inl ⟨rfl, (Option.some.inj h).symm⟩
  · exact .inr ((Function.update_of_ne he ..).symm.trans h)

theorem loop_alive (names : List Name) (h : ∃ y, (ladder names).nodes e = some y) :
    ∃ y, (loop names).nodes e = some y := by
  by_cases he : e = 0
  · exact ⟨loopDir, by rw [he]; rfl⟩
  · obtain ⟨y, hy⟩ := h
    exact ⟨y, (Function.update_of_ne he ..).trans hy⟩

theorem loop_tree (names : List Name) : Tree (loop names) :=
  { ladder_tree names with
    node := fun p n mode e hi => loop_alive names ((ladder_tree names).node p n mode e hi)
    list := fun e d l hd hl x hx => by
      rcases loop_nodes names hd with ⟨-, rfl⟩ | hd
      · cases hl
        cases hx
      · exact loop_alive names ((ladder_tree names).list e d l hd hl x hx)
    inode := fun e d p hd hp => by
      rcases loop_nodes names hd with ⟨-, rfl⟩ | hd
      · cases hp
        exact ladder_alive names (show 1 ≤ 300 by decide)
      · exact (ladder_tree names).inode e d p hd hp
    parent := fun e d p hd hp => by
      rcases loop_nodes names hd with ⟨-, rfl⟩ | hd
      · cases hp
        exact ladder_alive names (show 1 ≤ 300 by decide)
      · exact (ladder_tree names).parent e d p hd hp }

/-- What is left of the loop: its directory is as it was, or has been freed. -/
structure OnLoop (names : List Name) (t : Vfs) : Prop where
  root : t.rootInode = some 0
  mounts : t.mounts = ladderMounts names
  inode : ∀ i, t.inodes 1 = some i → i.node = .devfs Fat32.ftDir 0
  node : ∀ d, t.nodes 0 = some d → d = loopDir

section
variable (h : OnLoop names t)
include h

theorem OnLoop.dir {n : Nat} {node : VNode} (hi : t.inode 1 = .ok ⟨n, node⟩) : node = .devfs Fat32.ftDir 0 :=
  h.inode _ (inode_ok hi)

theorem OnLoop.parentOp (hp : t.parentOp 1 = .ok (t', q)) : t' = t ∧ q = some 1 := by
  obtain ⟨⟨n, node⟩, hi, hp⟩ := bind_ok hp
  obtain rfl := h.dir hi
  obtain ⟨d, hd, hp⟩ := bind_ok hp
  obtain rfl := h.node d (devNode_ok hd)
  cases hp
  exact ⟨rfl, rfl⟩

theorem OnLoop.parent (hp : t.parent 1 = .ok (t', q)) : t' = t ∧ q = some 1 := by
  unfold Vfs.parent at hp
  rw [h.root] at hp
  exact h.parentOp hp

theorem OnLoop.getName {name : Option Name} (hn : t.getName 1 nameMax = .ok name) : name = some rung := by
  obtain ⟨⟨n, node⟩, hi, hn⟩ := bind_ok hn
  obtain rfl := h.dir hi
  obtain ⟨d, hd, hn⟩ := bind_ok hn
  obtain rfl := h.node d (devNode_ok hd)
  cases hn
  rfl

theorem OnLoop.climb {turns : Nat} {comps : List Name} (hc : climb turns t (some 1) [] = .ok (t', comps)) :
    t' = t ∧ comps = [rung] := by
  have hgo : ¬ (some 1 = t.rootInode ∨ 256 ≤ ([] : List Name).length) := by
    rw [h.root]
    decide
  unfold Vfs.climb at hc
  rw [if_neg hgo] at hc
  cases turns with
  | zero => cases hc
  | succ turns =>
    obtain ⟨name, hn, hc⟩ := bind_ok hc
    obtain rfl := h.getName hn
    obtain ⟨⟨t₁, q⟩, hp, hc⟩ := bind_ok hc
    obtain ⟨rfl, rfl⟩ := h.parent hp
    cases hc
    exact ⟨rfl, rfl⟩

theorem OnLoop.currentPath (hfree : ∀ d ∈ names, slash ∉ d) (hp : t.currentPath (some 1) c = .ok (t', path)) :
    t' = t ∧ (if path = [] then none else t.checkMountPoints path) = none := by
  unfold Vfs.currentPath at hp
  rw [h.root] at hp
  obtain ⟨⟨t₁, base⟩, hb, hp⟩ := bind_ok hp
  unfold Vfs.buildPath at hb
  rw [h.root] at hb
  obtain ⟨⟨t₂, comps⟩, hclimb, hjoin⟩ := bind_ok hb
  obtain ⟨rfl, rfl⟩ := h.climb hclimb
  cases hjoin
  have hbase : joinPath pathMax [rung] [slash] = some [slash, 100#8] := rfl
  simp only [hbase] at hp
  rw [if_neg (show ¬ ([slash, 100#8].getLast? = some slash) by decide)] at hp
  split at hp
  · cases hp
  cases hp
  refine ⟨rfl, ?_⟩
  split
  · rfl
  unfold checkMountPoints
  rw [h.mounts, map_eq_none_iff, List.find?_eq_none]
  intro m hm
  obtain ⟨d, hd, rfl⟩ := mem_map.1 hm
  rw [decide_eq_true_eq]
  exact (ne_single (mem_append_left _ (.tail _ (.head _))) (hfree d hd) 4094).symm

end

theorem freePrivate_nodes {node : VNode} (h : s.freePrivate node = .ok t)
    (hd : t.nodes e = some d) : s.nodes e = some d := by
  cases node with
  | fat vol f =>
    cases h
    exact hd
  | exfat vol f =>
    cases h
    exact hd
  | devfs mode x =>
    obtain ⟨y, -, ht⟩ := bind_ok h
    cases ht
    by_cases he : e = x
    · rw [he] at hd
      simp only [Function.update_self] at hd
      cases hd
    · rw [← hd]
      exact (Function.update_of_ne he ..).symm

theorem OnLoop.unref (h : OnLoop names t) (hu : t.inodeUnref (some 1) = .ok t') : OnLoop names t' := by
  obtain ⟨-, hmounts, -, -, hroot, -⟩ := inodeUnref_frame hu
  obtain ⟨i₀, hi₀, ⟨-, rfl⟩ | ⟨-, u, hfree, rfl⟩⟩ := inodeUnref_cases hu
  · refine ⟨hroot.trans h.root, hmounts.trans h.mounts, fun i hi => ?_, h.node⟩
    cases hi
    exact h.inode i₀ hi₀
  · refine ⟨hroot.trans h.root, hmounts.trans h.mounts, fun i hi => ?_,
      fun d hd => h.node d (freePrivate_nodes hfree hd)⟩
    cases hi

theorem OnLoop.lookupOp (h : OnLoop names t) (hl : t.lookupOp 1 c = .ok (t', q)) : q = none := by
  obtain ⟨⟨n, node⟩, hi, hl⟩ := bind_ok hl
  obtain rfl := h.dir hi
  obtain ⟨d, hd, hl⟩ := bind_ok hl
  obtain rfl := h.node d (devNode_ok hd)
  cases hl
  rfl

theorem walkStep_loop {r : Option Nat} (h : OnLoop names t) (hfree : ∀ d ∈ names, slash ∉ d)
    (hw : t.walkStep (some 1) c = .ok (t', some r)) : OnLoop names t' ∧ r = some 1 := by
  unfold walkStep at hw
  split at hw
  · cases hw
    exact ⟨h, rfl⟩
  split at hw
  · obtain ⟨⟨t₁, q⟩, hp, hrest⟩ := bind_ok hw
    obtain ⟨t₂, hu, hend⟩ := bind_ok hrest
    have hparent : t₁ = t ∧ q = some (some 1) := by
      simp only [getParentInode, h.root, if_neg (show ¬ (some 0 = some 1) from nofun)] at hp
      split at hp
      · obtain ⟨⟨t₃, q'⟩, hop, hq⟩ := bind_ok hp
        obtain ⟨rfl, rfl⟩ := h.parent hop
        cases hq
        exact ⟨rfl, rfl⟩
      · obtain ⟨⟨t₃, q'⟩, hop, hq⟩ := bind_ok hp
        obtain ⟨rfl, rfl⟩ := h.parentOp hop
        cases hq
        exact ⟨rfl, rfl⟩
    obtain ⟨rfl, rfl⟩ := hparent
    cases hend
    exact ⟨h.unref hu, rfl⟩
  · obtain ⟨⟨t₁, path⟩, hpath, hrest⟩ := bind_ok hw
    obtain ⟨rfl, hnone⟩ := h.currentPath hfree hpath
    simp only [hnone] at hrest
    obtain ⟨⟨t₂, q⟩, hl, hlast⟩ := bind_ok hrest
    obtain rfl := h.lookupOp hl
    obtain ⟨t₃, hu, hend⟩ := bind_ok hlast
    cases hend

theorem walkComps_loop (hfree : ∀ d ∈ names, slash ∉ d) : ∀ {comps : List Name} {t t' : Vfs} {r : Option Nat},
    OnLoop names t → walkComps comps t (some 1) = .ok (t', some r) → OnLoop names t' ∧ r = some 1
  | [], t, t', r, h, hw => by
    cases hw
    exact ⟨h, rfl⟩
  | c :: comps, t, t', r, h, hw => by
    obtain ⟨⟨t₁, q⟩, hstep, hw⟩ := bind_ok hw
    cases q with
    | none => cases hw
    | some q =>
      obtain ⟨h₁, rfl⟩ := walkStep_loop h hfree hstep
      exact walkComps_loop hfree h₁ hw

/-! ## Absolute paths -/

theorem lt_of_fresh (hf : ∀ p, s.nextInode ≤ p → s.inodes p = none) (hi : s.inodes p = some i) : p < s.nextInode := by
  refine not_le.1 (fun hc => ?_)
  rw [hf p hc] at hi
  cases hi

theorem checkMountPoints_mem {path : Name} {m : Nat} (h : s.checkMountPoints path = some m) :
    ∃ x ∈ s.mounts, x.2 = m := by
  obtain ⟨x, hx, rfl⟩ := map_eq_some_iff.1 h
  exact ⟨x, mem_of_find?_eq_some hx, rfl⟩

theorem walk_slash (h : Tree s) (d₁ d₂ : Nat) : Agree (s.walk d₁ [slash]) (s.walk d₂ [slash]) := by
  have hdir : s.walk d₂ [slash] = s.walk d₁ [slash] := rfl
  have halive : ∃ r i, (s.checkMountPoints [slash]).or s.rootInode = some r ∧ s.inodes r = some i := by
    cases hc : s.checkMountPoints [slash] with
    | none => exact h.root
    | some r =>
      obtain ⟨m, hm, rfl⟩ := checkMountPoints_mem hc
      obtain ⟨i, hi⟩ := h.mounts m hm
      exact ⟨_, i, rfl, hi⟩
  obtain ⟨r, i, hr, hi⟩ := halive
  have hwalk : s.walk d₁ [slash] =
      .ok (s.setInode r (some { i with refcount := u32 (i.refcount + 1) }), some (some r)) := by
    unfold walk
    rw [if_pos (.inr rfl), hr]
    simp only [inodeRef_eq hi, Res.bind]
  rw [hdir, hwalk]
  refine ⟨i.node.object, ?_, ?_⟩ <;>
  · unfold objectAt
    simp only [bind_some, setInode_same, map_some]

theorem walk_components {d : Nat} (h : ¬ (path = [] ∨ path = [slash])) (hi : s.inodes d = some i) : s.walk d path =
      walkComps (components path) (s.setInode d (some { i with refcount := u32 (i.refcount + 1) })) (some d) := by
  unfold walk
  rw [if_neg h, inodeRef_eq hi]
  rfl

/-- **Absolute paths**: a path with a slash in front is walked alike from every two directories of every tree exactly if
it is `/`. -/
theorem absolute_iff {path : Name} (habs : path.head? = some slash) :
    (∀ s d₁ d₂, Tree s → IsDir s d₁ → IsDir s d₂ → Agree (s.walk d₁ path) (s.walk d₂ path)) ↔ path = [slash] := by
  constructor
  · intro h
    by_contra hne
    have hpath : ¬ (path = [] ∨ path = [slash]) := by
      rintro (rfl | hc)
      · cases habs
      · exact hne hc
    have hfree : ∀ d ∈ components path, slash ∉ d := fun d hd => slash_not_mem_tokens hd
    have hroot : ∃ f, (loop (components path)).inodes 0 = some ⟨2, .fat 0 f⟩ := ⟨_, rfl⟩
    obtain ⟨f, hf⟩ := hroot
    have hone : (loop (components path)).inodes 1 = some ⟨1, .devfs Fat32.ftDir 0⟩ := rfl
    have hmode : f.mode = Fat32.ftDir := by
      cases hf
      rfl
    have hagree := h (loop (components path)) 0 1 (loop_tree _) ⟨_, hf, hmode⟩ ⟨_, hone, rfl⟩
    rw [walk_components hpath hf, walk_components hpath hone] at hagree
    obtain ⟨t, ht, htop⟩ := @walkComps_top (components path) (components path) ((loop (components path)).setInode 0
      (some ⟨u32 (2 + 1), .fat 0 f⟩)) ⟨rfl, rfl, f, setInode_same _⟩ (List.Subset.refl _)
    have hstart : OnLoop (components path) ((loop (components path)).setInode 1
        (some ⟨u32 (1 + 1), .devfs Fat32.ftDir 0⟩)) := by
      refine ⟨rfl, rfl, fun i hi => ?_, fun d hd => (Option.some.inj hd).symm⟩
      cases hi
      rfl
    rw [ht] at hagree
    generalize hw : walkComps _ _ (some 1) = res at hagree
    rcases res with ⟨t', _ | r⟩ | msg | _
    · exact hagree
    · obtain ⟨hl, rfl⟩ := walkComps_loop hfree hstart hw
      obtain ⟨o, h1, h2⟩ := hagree
      -- the one is on the FAT32 volume, the other in devfs
      obtain ⟨g, hg⟩ := htop.inode
      unfold objectAt at h1 h2
      simp only [bind_some, hg, map_some, Option.some.injEq] at h1
      simp only [map_eq_some_iff] at h2
      obtain ⟨i, hi, ho⟩ := h2
      rw [hl.inode i hi] at ho
      have hvol := congrArg Object.volume (h1.trans ho.symm)
      rw [volume_fat] at hvol
      cases hvol
    · exact hagree
    · exact hagree
  · rintro rfl s d₁ d₂ hs - -
    exact walk_slash hs d₁ d₂

theorem slash_a_not_absolute : ¬ ∀ s d₁ d₂, Tree s → IsDir s d₁ → IsDir s d₂ →
    Agree (s.walk d₁ (Name.ofString "/a")) (s.walk d₂ (Name.ofString "/a")) :=
  mt (absolute_iff rfl).1 (by decide)

def subdirEntry (name : Name) (cluster : Nat) : Mem :=
  store (store (blit blank 0 11 (fun k => (Fat32.nameToEntry name).getD k 0#8)) 11 1 Fat32.attrDirectory) 26 2 cluster

/-- A volume with the directories `a`, `a/b` and `a/b/c` in the clusters 3, 4 and 5. -/
def nestedVol : Fat32 :=
  { Fat32.smallVol with
    dev := { Fat32.smallVol.dev with data := fun o =>
      if o < 17408 then 0#8
      else if o < 17920 then subdirEntry (Name.ofString "a") 3 (o - 17408)
      else if o < 18432 then subdirEntry (Name.ofString "b") 4 (o - 17920)
      else if o < 18944 then subdirEntry (Name.ofString "c") 5 (o - 18432)
      else 0#8 }
    freeCount := 62, nextFree := 6, fatCache := fun c => if c < 6 then 0x0FFFFFFF else 0, dirty := false }

def nested : Vfs := { start.withFat32 newDisk with fats := fun vol => if vol = 0 then some nestedVol else none }

/-- From the root `/a` is the directory `a`; from there it is nothing. -/
theorem absolute_from_subdir : ∃ s, nested.walk 0 (Name.ofString "/a") = .ok (s, some (some 1)) ∧ IsDir s 0 ∧
    IsDir s 1 ∧
    (∃ t, s.walk 0 (Name.ofString "/a") = .ok (t, some (some 2))) ∧
      (∃ t, s.walk 1 (Name.ofString "/a") = .ok (t, none)) ∧
    ¬ Agree (s.walk 0 (Name.ofString "/a")) (s.walk 1 (Name.ofString "/a")) :=
  ⟨_, rfl, ⟨_, rfl, rfl⟩, ⟨_, rfl, rfl⟩, ⟨_, rfl⟩, ⟨_, rfl⟩, fun h => h⟩

end Vfs

end OS64
