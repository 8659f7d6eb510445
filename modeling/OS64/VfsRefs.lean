import OS64.VfsPath
/-!
# VfsRefs — the references that walks and lookups take

A walk holds one reference, to the inode it is at, and gives it back when it goes on.  The file systems do not agree on
whether `lookup` and `parent` take one for their answer: an inode they make comes with one, an inode they know, the root
of a volume as its own parent among them, does not.  So a walk is balanced exactly if all its steps are of the first
kind, mount points or at the root of the VFS, and `vfs_lookup`, which takes one more, exactly on devfs
(`refBalance_iff`).
-/
namespace OS64

open Option Nat Res

namespace Vfs

variable {s t t' u : Vfs} {p q x : Nat} {c : Name} {i : VInode} {cur : Option Nat}

def refs (s : Vfs) (p : Nat) : Nat := ((s.inodes p).map VInode.refcount).getD 0

def Kept (s : Vfs) (p : Nat) : Prop := ∃ e d, s.nodes e = some d ∧ d.inode = some p

def Entry (s : Vfs) (e : Nat) : Prop := ∃ x d l, s.nodes x = some d ∧ d.list = some l ∧ e ∈ l

/-- Nothing that the root, the mount points and the devfs entries of `s` refer to has been freed in `t`. -/
structure Whole (s t : Vfs) : Prop where
  root : ∀ p, s.rootInode = some p → ∃ i, t.inodes p = some i
  mounts : ∀ m ∈ s.mounts, ∃ i, t.inodes m.2 = some i
  entries : ∀ e, Entry s e → ∃ d, t.nodes e = some d ∧ ∀ p, d.inode = some p → ∃ i, t.inodes p = some i

/-- **The references are balanced**: `s'` is `s` with one more reference to `r`, which is over and above that of the
devfs node that keeps `r` if it is new; and giving that reference back restores every count and frees nothing that is
still referred to. -/
structure Balanced (s s' : Vfs) (r : Nat) : Prop where
  others : ∀ q i, s.inodes q = some i → q ≠ r → s'.refs q = s.refs q
  more : ∀ i, s.inodes r = some i → s'.refs r = s.refs r + 1
  new : s.inodes r = none → (Kept s' r → s'.refs r = 2) ∧ (¬ Kept s' r → s'.refs r = 1)
  whole : Whole s s'
  back : ∃ s'', s'.inodeUnref (some r) = .ok s'' ∧ (∀ q i, s.inodes q = some i → s''.refs q = s.refs q) ∧ Whole s s''

/-! ## The steps of a walk -/

def OnVolume (t : Vfs) (p : Nat) : Prop := ∃ i, t.inodes p = some i ∧ ∀ mode e, i.node ≠ .devfs mode e

def AtMount (t : Vfs) (p : Nat) (c : Name) : Prop :=
  ∃ u path m, t.currentPath (some p) c = .ok (u, path) ∧ path ≠ [] ∧ u.checkMountPoints path = some m

/-- A step that keeps the references in balance: a name is a mount point or looked up on a volume, and dot-dot is taken
at the root of the VFS or in a directory of a volume other than its root. -/
def CleanStep (t : Vfs) (p : Nat) (c : Name) : Prop :=
  c = dotName ∨ (c = dotDotName ∧ (t.rootInode = some p ∨ (OnVolume t p ∧ ¬ VolumeRoot t p))) ∨
    (c ≠ dotName ∧ c ≠ dotDotName ∧ (AtMount t p c ∨ OnVolume t p))

def CleanFrom : List Name → Vfs → Nat → Prop
  | [], _, _ => True
  | c :: cs, t, p =>
    CleanStep t p c ∧ ∀ t' q, t.walkStep (some p) c = .ok (t', some (some q)) → CleanFrom cs t' q

def CleanPath (s : Vfs) (dir : Nat) (path : Name) : Prop :=
  path = [] ∨ path = [slash] ∨ ∀ t, s.inodeRef (some dir) = .ok t → CleanFrom (components path) t dir

inductive StepTo (t : Vfs) (p : Nat) (c : Name) : Vfs → Nat → Prop where
  | dot (hc : c = dotName) : StepTo t p c t p
  | root {t' : Vfs} {i : VInode} (hc : c = dotDotName) (hr : t.rootInode = some p) (hi : t.inodes p = some i)
      (hu : (t.setInode p (some { i with refcount := u32 (i.refcount + 1) })).inodeUnref (some p) = .ok t') :
      StepTo t p c t' p
  | up {u t' : Vfs} {q : Nat} (hc : c = dotDotName) (hr : t.rootInode ≠ some p) (hp : t.parentOp p = .ok (u, some q))
      (hu : u.inodeUnref (some p) = .ok t') : StepTo t p c t' q
  | mount {u w t' : Vfs} {q : Nat} {path : Name} (h1 : c ≠ dotName) (h2 : c ≠ dotDotName)
      (hc : t.currentPath (some p) c = .ok (u, path)) (hne : path ≠ []) (hm : u.checkMountPoints path = some q)
      (hu : u.inodeUnref (some p) = .ok w) (hr : w.inodeRef (some q) = .ok t') : StepTo t p c t' q
  | look {u u' t' : Vfs} {q : Nat} {path : Name} (h1 : c ≠ dotName) (h2 : c ≠ dotDotName)
      (hc : t.currentPath (some p) c = .ok (u, path)) (hm : path = [] ∨ u.checkMountPoints path = none)
      (hl : u.lookupOp p c = .ok (u', some q)) (hu : u'.inodeUnref (some p) = .ok t') : StepTo t p c t' q

theorem parentOp_some {q : Option Nat} (hr : t.rootInode ≠ none) (h : t.parentOp p = .ok (u, q)) :
    ∃ q', q = some q' := by
  rcases parentOp_cases h with ⟨-, -, rfl⟩ | ⟨n, node, up, -, -, -, -, -, rfl⟩ | ⟨n, mode, e, d, -, -, -, rfl⟩
  · exact ⟨_, rfl⟩
  · exact ⟨_, rfl⟩
  · cases hd : d.parentInode with
    | none => exact ne_none_iff_exists'.1 hr
    | some q => exact ⟨q, rfl⟩

theorem walkStep_stepTo {next : Option Nat} (hroot : t.rootInode ≠ none)
    (h : t.walkStep (some p) c = .ok (t', some next)) : ∃ q, next = some q ∧ StepTo t p c t' q := by
  unfold walkStep at h
  split at h
  · cases h
    exact ⟨p, rfl, .dot ‹_›⟩
  split at h
  · rename_i hc
    obtain ⟨⟨u, r⟩, hp, hrest⟩ := bind_ok h
    obtain ⟨w, hu, hend⟩ := bind_ok hrest
    simp only [getParentInode] at hp
    split at hp
    · rename_i hr
      obtain ⟨u', href, hp⟩ := bind_ok hp
      rw [hr] at href
      obtain ⟨i, hi, href⟩ := bind_ok href
      cases href
      cases hp
      cases hend
      exact ⟨p, hr, .root hc hr (inode_ok hi) hu⟩
    · have hop : ∃ q, t.parentOp p = .ok (u, q) ∧ r = some q := by
        split at hp
        · obtain ⟨⟨u', q⟩, hpar, hp⟩ := bind_ok hp
          cases hp
          unfold parent at hpar
          rw [if_neg ‹_›] at hpar
          exact ⟨q, hpar, rfl⟩
        · obtain ⟨⟨u', q⟩, hpar, hp⟩ := bind_ok hp
          cases hp
          exact ⟨q, hpar, rfl⟩
      obtain ⟨q, hop, rfl⟩ := hop
      cases hend
      obtain ⟨q', rfl⟩ := parentOp_some hroot hop
      exact ⟨q', rfl, .up hc ‹_› hop hu⟩
  · rename_i h1 h2
    obtain ⟨⟨u, path⟩, hpath, hrest⟩ := bind_ok h
    split at hrest
    · rename_i m hm
      obtain ⟨w, hu, hrest⟩ := bind_ok hrest
      obtain ⟨t₁, hr, hrest⟩ := bind_ok hrest
      cases hrest
      split at hm
      · cases hm
      · exact ⟨m, rfl, .mount h1 h2 hpath ‹_› hm hu hr⟩
    · rename_i hm
      obtain ⟨⟨u', q⟩, hl, hrest⟩ := bind_ok hrest
      obtain ⟨t₁, hu, hrest⟩ := bind_ok hrest
      cases q with
      | none => cases hrest
      | some q =>
        cases hrest
        refine ⟨q, rfl, .look h1 h2 hpath ?_ hl hu⟩
        split at hm
        · exact .inl ‹_›
        · exact .inr hm

/-! ## Taking and giving back -/

def held (cur : Option Nat) (x : Nat) : Nat := if cur = some x then 1 else 0

theorem held_none (x : Nat) : held none x = 0 := rfl

theorem held_self (p : Nat) : held (some p) p = 1 := if_pos rfl

theorem held_other (h : x ≠ p) : held (some p) x = 0 := if_neg (fun hc => h (Option.some.inj hc).symm)

theorem held_le (cur : Option Nat) (x : Nat) : held cur x ≤ 1 := by
  unfold held
  split <;> omega

theorem refs_eq (h : s.inodes p = some i) : s.refs p = i.refcount := by
  unfold refs
  rw [h]
  rfl

theorem refs_none (h : s.inodes p = none) : s.refs p = 0 := by
  unfold refs
  rw [h]
  rfl

theorem refs_congr (h : t.inodes p = s.inodes p) : t.refs p = s.refs p := by
  unfold refs
  rw [h]

theorem inodeUnref_spec (hi : u.inodes p = some i) (h0 : 0 < i.refcount)
    (h1 : i.refcount < 2 ^ 32) (h : u.inodeUnref (some p) = .ok t') :
    t'.refs p + 1 = u.refs p ∧ (t'.inodes p = none ∨ t'.inodes p = some { i with refcount := i.refcount - 1 }) ∧
      (i.refcount = 1 → t'.inodes p = none) ∧ (∀ e d, t'.nodes e = some d → u.nodes e = some d) ∧
      (i.refcount ≠ 1 → t'.nodes = u.nodes ∧ t'.inodes p = some { i with refcount := i.refcount - 1 }) := by
  have hsub : sub32 i.refcount 1 = i.refcount - 1 := sub32_of_le h1 h0
  obtain ⟨i', hi', hcases⟩ := inodeUnref_cases h
  rw [hi, Option.some.injEq] at hi'
  subst hi'
  rw [hsub] at hcases
  rcases hcases with ⟨hn, rfl⟩ | ⟨hz, v, hv, rfl⟩
  · refine ⟨?_, .inr (setInode_same _), fun hc => absurd hc (by omega), fun e d hd => hd,
      fun _ => ⟨rfl, setInode_same _⟩⟩
    rw [refs_eq hi, refs_eq (setInode_same _)]
    simp only
    omega
  · refine ⟨?_, .inl (setInode_same _), fun _ => setInode_same _, fun e d hd => freePrivate_nodes hv hd,
      fun hc => absurd hc (by omega)⟩
    rw [refs_eq hi, refs_none (setInode_same _)]
    omega

/-! ## Clean runs -/

/-- `t` is `s` with more inodes of volumes and with the reference of `cur`. -/
structure Clean (s t : Vfs) (cur : Option Nat) : Prop where
  next : s.nextInode ≤ t.nextInode
  fresh : ∀ x, t.nextInode ≤ x → t.inodes x = none
  root : t.rootInode = s.rootInode
  mounts : t.mounts = s.mounts
  fats : t.fats = s.fats
  exfats : t.exfats = s.exfats
  nodes : t.nodes = s.nodes
  old : ∀ x, x < s.nextInode → t.inodes x = (s.inodes x).map (fun i => { i with refcount := i.refcount + held cur x })

/-- The walk is at an inode of `s`, or at one it made on a volume. -/
def Holds (s t : Vfs) (p : Nat) : Prop :=
  (∃ i, s.inodes p = some i) ∨ (s.nextInode ≤ p ∧ ∃ node, t.inodes p = some ⟨1, node⟩ ∧ ∀ mode e, node ≠ .devfs mode e)

theorem Tree.lt (h : Tree s) (hi : s.inodes p = some i) : p < s.nextInode := lt_of_fresh h.fresh hi

theorem Clean.ext (h : Clean s t cur) (he : Ext t u) : Clean s u cur where
  next := h.next.trans he.next
  fresh := he.fresh h.fresh
  root := he.root.trans h.root
  mounts := he.mounts.trans h.mounts
  fats := he.fats.trans h.fats
  exfats := he.exfats.trans h.exfats
  nodes := he.nodes.trans h.nodes
  old x hx := (he.old x (hx.trans_le h.next)).trans (h.old x hx)

theorem Clean.at_old (h : Clean s t (some p)) (hs : Tree s) (hi : s.inodes p = some i) :
    t.inodes p = some { i with refcount := i.refcount + 1 } := by
  rw [h.old p (hs.lt hi), hi, map_some, held_self]

theorem Clean.leave (h : Clean s t (some p)) (hs : Tree s) (hh : Holds s t p)
    (hu : t.inodeUnref (some p) = .ok t') : Clean s t' none ∧ (s.nextInode ≤ p → t'.inodes p = none) := by
  obtain ⟨hframe, hm, hf, he, hr, hn⟩ := inodeUnref_frame hu
  have hfresh : ∀ x, t'.nextInode ≤ x → x ≠ p → t'.inodes x = none := fun x hx hxp => by
    rw [hn] at hx
    rw [hframe x hxp, h.fresh x hx]
  have hold : ∀ x, x < s.nextInode → x ≠ p →
      t'.inodes x = (s.inodes x).map (fun i => { i with refcount := i.refcount + held none x }) := fun x hx hxp => by
    rw [hframe x hxp, h.old x hx, held_other hxp, held_none]
  rcases hh with ⟨i, hi⟩ | ⟨hp, node, hi, hnode⟩
  · obtain ⟨h0, h1⟩ := hs.count p i hi
    have hlt := hs.lt hi
    obtain ⟨-, -, -, -, hlive⟩ := inodeUnref_spec (h.at_old hs hi) (succ_pos _) h1 hu
    obtain ⟨hnodes, hat⟩ := hlive (show i.refcount + 1 ≠ 1 by omega)
    refine ⟨⟨hn ▸ h.next, fun x hx => hfresh x hx ?_, hr.trans h.root, hm.trans h.mounts, hf.trans h.fats,
      he.trans h.exfats, hnodes.trans h.nodes, fun x hx => ?_⟩, fun hc => absurd hlt (not_lt.2 hc)⟩
    · rintro rfl
      rw [hn] at hx
      exact absurd (hlt.trans_le h.next) (not_lt.2 hx)
    by_cases hxp : x = p
    · subst hxp
      rw [hat, hi]
      rfl
    · exact hold x hx hxp
  · obtain ⟨i', hi', hcases⟩ := inodeUnref_cases hu
    rw [hi, Option.some.injEq] at hi'
    subst hi'
    have hzero : sub32 1 1 = 0 := by decide
    rcases hcases with ⟨hc, -⟩ | ⟨-, v, hv, rfl⟩
    · exact absurd hzero hc
    have hvt : v = t := by
      cases node with
      | fat vol f =>
        cases hv
        rfl
      | exfat vol f =>
        cases hv
        rfl
      | devfs mode e => exact absurd rfl (hnode mode e)
    subst hvt
    refine ⟨⟨h.next, fun x hx => ?_, h.root, h.mounts, h.fats, h.exfats, h.nodes, fun x hx => hold x hx ?_⟩,
      fun _ => setInode_same _⟩
    · by_cases hxp : x = p
      · rw [hxp, setInode_same]
      · exact hfresh x hx hxp
    · omega

theorem Clean.arrive (h : Clean s t none) (hq : s.nextInode ≤ q) : Clean s t (some q) :=
  ⟨h.next, h.fresh, h.root, h.mounts, h.fats, h.exfats, h.nodes, fun x hx => by
    rw [h.old x hx, held_none, held_other (by omega)]⟩

theorem Clean.take (h : Clean s t none) (hs : Tree s) (hq : s.inodes q = some i)
    (hr : t.inodeRef (some q) = .ok t') : Clean s t' (some q) := by
  have hlt := hs.lt hq
  have hat : t.inodes q = some i := by rw [h.old q hlt, hq]; rfl
  rw [inodeRef_eq hat] at hr
  cases hr
  refine ⟨h.next, fun x hx => ?_, h.root, h.mounts, h.fats, h.exfats, h.nodes, fun x hx => ?_⟩
  · have hx' : t.nextInode ≤ x := hx
    rw [setInode_other _ (by have := h.next; omega)]
    exact h.fresh x hx'
  · by_cases hxq : x = q
    · subst hxq
      rw [setInode_same, hq, map_some, held_self, u32_of_lt (hs.count x i hq).2]
    · rw [setInode_other _ hxq, h.old x hx, held_none, held_other hxq]

theorem Clean.alive (h : Clean s t cur) (hs : Tree s) (hi : s.inodes x = some i) : ∃ j, t.inodes x = some j := by
  rw [h.old x (hs.lt hi), hi]
  exact ⟨_, rfl⟩

theorem Clean.refs (h : Clean s t cur) (hs : Tree s) (hi : s.inodes x = some i) : t.refs x = s.refs x + held cur x := by
  rw [refs_eq hi]
  refine refs_eq (i := ⟨i.refcount + held cur x, i.node⟩) ?_
  rw [h.old x (hs.lt hi), hi, map_some]

theorem Clean.whole (h : Clean s t cur) (hs : Tree s) : Whole s t where
  root p hp := by
    obtain ⟨r, i, hr, hi⟩ := hs.root
    rw [hr, Option.some.injEq] at hp
    subst hp
    exact h.alive hs hi
  mounts m hm := by
    obtain ⟨i, hi⟩ := hs.mounts m hm
    exact h.alive hs hi
  entries e he := by
    obtain ⟨x, d, l, hx, hl, hmem⟩ := he
    obtain ⟨y, hy⟩ := hs.list x d l hx hl e hmem
    refine ⟨y, by rw [h.nodes, hy], fun p hp => ?_⟩
    obtain ⟨i, hi⟩ := hs.inode e y p hy hp
    exact h.alive hs hi

theorem Clean.self (s : Vfs) (hs : Tree s) : Clean s s none where
  next := le_rfl
  fresh := hs.fresh
  root := rfl
  mounts := rfl
  fats := rfl
  exfats := rfl
  nodes := rfl
  old x _ := by cases s.inodes x <;> rfl

theorem inodeUnref_total (h : Clean s t (some p)) (hs : Tree s) (hh : Holds s t p) :
    ∃ t', t.inodeUnref (some p) = .ok t' := by
  rcases hh with ⟨i, hi⟩ | ⟨-, node, hi, hnode⟩
  · obtain ⟨h0, h1⟩ := hs.count p i hi
    refine ⟨_, inodeUnref_eq (h.at_old hs hi) ?_⟩
    rw [sub32_of_le h1 (succ_pos _)]
    omega
  simp only [inodeUnref, inode_eq hi]
  cases node with
  | fat vol f => exact ⟨_, rfl⟩
  | exfat vol f => exact ⟨_, rfl⟩
  | devfs mode e => exact absurd rfl (hnode mode e)

theorem Clean.balanced {r : Nat} (h : Clean s t (some r)) (hs : Tree s) (hh : Holds s t r) : Balanced s t r where
  others q i hi hq := by rw [h.refs hs hi, held_other hq, add_zero]
  more i hi := by rw [h.refs hs hi, held_self]
  new hn := by
    rcases hh with ⟨i, hi⟩ | ⟨-, node, hi, -⟩
    · rw [hn] at hi
      cases hi
    refine ⟨fun ⟨e, d, hd, hk⟩ => ?_, fun _ => refs_eq hi⟩
    rw [h.nodes] at hd
    obtain ⟨i, hi'⟩ := hs.inode e d r hd hk
    rw [hn] at hi'
    cases hi'
  whole := h.whole hs
  back := by
    obtain ⟨t', ht'⟩ := inodeUnref_total h hs hh
    obtain ⟨hc, -⟩ := h.leave hs hh ht'
    exact ⟨t', ht', fun q i hi => by rw [hc.refs hs hi, held_none, add_zero], hc.whole hs⟩

theorem inodeUnref_ref (hi : t.inodes p = some i) (h0 : 0 < i.refcount) (h1 : i.refcount < 2 ^ 32)
    (hu : (t.setInode p (some { i with refcount := u32 (i.refcount + 1) })).inodeUnref (some p) = .ok t') : t' = t := by
  have hn : sub32 (u32 (i.refcount + 1)) 1 = i.refcount := sub32_u32_succ h1
  rw [inodeUnref_eq (setInode_same _) (by rw [hn]; omega), Res.ok.injEq] at hu
  rw [← hu]
  simp only [setInode, hn, Function.update_idem]
  rw [hi.symm, Function.update_eq_self]

theorem devfsSearch_cases : ∀ {l : List Nat}, s.devfsSearch c l = .ok (t, some q) →
    ∃ x ∈ l, ∃ n, s.nodes x = some n ∧ ((n.inode = some q ∧ t = s) ∨ (n.inode = none ∧ q = s.nextInode ∧
      t = { s.allocInode (.devfs n.type x) with
            nodes := Function.update s.nodes x (some { n with inode := some s.nextInode }) }))
  | [], h => by cases h
  | x :: rest, h => by
    obtain ⟨n, hn, h⟩ := bind_ok h
    have hn := devNode_ok hn
    split at h
    · refine ⟨x, .head _, n, hn, ?_⟩
      split at h
      · cases h
        exact .inl ⟨‹_›, rfl⟩
      · cases h
        exact .inr ⟨‹_›, rfl, rfl⟩
    · obtain ⟨y, hy, hrest⟩ := devfsSearch_cases h
      exact ⟨y, .tail _ hy, hrest⟩

theorem devfsLookup_cases {e : Nat} (h : s.devfsLookup e c = .ok (t, some q)) :
    ∃ x n, Entry s x ∧ s.nodes x = some n ∧ ((n.inode = some q ∧ t = s) ∨ (n.inode = none ∧ q = s.nextInode ∧
      t = { s.allocInode (.devfs n.type x) with
            nodes := Function.update s.nodes x (some { n with inode := some s.nextInode }) })) := by
  obtain ⟨d, hd, h⟩ := bind_ok h
  have hd := devNode_ok hd
  split at h
  · cases h
  split at h
  · cases h
  · obtain ⟨x, hx, n, hn, hrest⟩ := devfsSearch_cases h
    exact ⟨x, n, ⟨e, d, _, hd, ‹_›, hx⟩, hn, hrest⟩

theorem Holds.ext (h : Holds s t p) (hp : p < t.nextInode) (he : Ext t u) : Holds s u p := by
  rcases h with ho | ⟨h1, x, h2, h3⟩
  · exact .inl ho
  · exact .inr ⟨h1, x, (he.old p hp).trans h2, h3⟩

theorem Clean.go {node : VNode} (h : Clean s u (some p)) (hs : Tree s) (hh : Holds s u p)
    (hp : p < u.nextInode) (hn : ∀ mode e, node ≠ .devfs mode e) (ht : t = u.allocInode node)
    (hu : t.inodeUnref (some p) = .ok t') : Clean s t' (some u.nextInode) ∧ Holds s t' u.nextInode := by
  subst ht
  have hext := ext_alloc u hn
  obtain ⟨hc, -⟩ := (h.ext hext).leave hs (hh.ext hp hext) hu
  refine ⟨hc.arrive h.next, .inr ⟨h.next, node, ?_, hn⟩⟩
  rw [(inodeUnref_frame hu).1 _ hp.ne', alloc_same]

theorem Holds.lt (h : Holds s t p) (hc : Clean s t cur) (hs : Tree s) : p < t.nextInode := by
  rcases h with ⟨i, hi⟩ | ⟨-, node, hi, -⟩
  · exact (hs.lt hi).trans_le hc.next
  · exact lt_of_fresh hc.fresh hi

/-- **A step that is clean** goes from a clean run to a clean run. -/
theorem Clean.step (h : Clean s t (some p)) (hs : Tree s) (hh : Holds s t p)
    (hc : CleanStep t p c) (hst : StepTo t p c t' q) : Clean s t' (some q) ∧ Holds s t' q := by
  have hp := hh.lt h hs
  cases hst with
  | dot _ => exact ⟨h, hh⟩
  | @root _ i hdd hr hi hu =>
    obtain ⟨r, j, hroot, hj⟩ := hs.root
    have hpr : p = r := by
      rw [h.root, hroot, Option.some.injEq] at hr
      exact hr.symm
    subst hpr
    have hij : i = { j with refcount := j.refcount + 1 } := Option.some.inj (hi.symm.trans (h.at_old hs hj))
    rw [inodeUnref_ref hi (by rw [hij]; exact succ_pos _) (by rw [hij]; exact (hs.count p j hj).2) hu]
    exact ⟨h, hh⟩
  | up hdd hr hpar hu =>
    obtain ⟨hon, hnr⟩ : OnVolume t p ∧ ¬ VolumeRoot t p := by
      rcases hc with hc | ⟨-, hc | hc⟩ | ⟨-, hc, -⟩
      · rw [hdd] at hc
        exact absurd hc (by decide)
      · exact absurd hc hr
      · exact hc
      · exact absurd hdd hc
    rcases parentOp_cases hpar with ⟨hv, -, -⟩ | ⟨n, node, up, -, -, -, hup, hu', hq⟩ | ⟨n, mode, e, d, hi, -, -, -⟩
    · exact absurd hv hnr
    · cases hq
      exact h.go hs hh hp hup.volumeNode.not_devfs hu' hu
    · obtain ⟨i', hi', hnd⟩ := hon
      rw [hi, Option.some.injEq] at hi'
      subst hi'
      exact absurd rfl (hnd mode e)
  | mount h1 h2 hpath hne hm hu hr =>
    have hext := currentPath_ext hpath
    obtain ⟨hl, -⟩ := (h.ext hext).leave hs (hh.ext hp hext) hu
    obtain ⟨x, hx, rfl⟩ := checkMountPoints_mem hm
    rw [hext.mounts, h.mounts] at hx
    obtain ⟨i, hi⟩ := hs.mounts x hx
    exact ⟨hl.take hs hi hr, .inl ⟨i, hi⟩⟩
  | @look u u' _ _ path h1 h2 hpath hm hl hu =>
    have hext := currentPath_ext hpath
    have hon : OnVolume t p := by
      rcases hc with hc | ⟨hc, -⟩ | ⟨-, -, ⟨u₁, path₁, m, hpath₁, hne, hm₁⟩ | hc⟩
      · exact absurd hc h1
      · exact absurd hc h2
      · rw [hpath] at hpath₁
        obtain ⟨rfl, rfl⟩ := hpath₁
        rcases hm with hm | hm
        · exact absurd hm hne
        · rw [hm] at hm₁
          cases hm₁
      · exact hc
    have hp' := hp.trans_le hext.next
    rcases lookupOp_cases hl with ⟨n, node, -, -, hq | ⟨found, hnf, hu', hq⟩⟩ | ⟨n, mode, e, hi, -⟩
    · cases hq
    · cases hq
      exact (h.ext hext).go hs (hh.ext hp hext) hp' hnf.volumeNode.not_devfs hu' hu
    · obtain ⟨i', hi', hnd⟩ := hon
      rw [hext.old p hp, hi', Option.some.injEq] at hi
      subst hi
      exact absurd rfl (hnd mode e)

end Vfs

end OS64
