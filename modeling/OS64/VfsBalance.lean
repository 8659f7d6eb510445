import OS64.VfsRefs
/-!
# VfsBalance — walks that lose a reference

A step that is not clean leaves a count too low, or at an inode that only its devfs node keeps; no later step makes up
for it (`Bad.move`).  So the references of a walk are in balance exactly if it is clean throughout (`refBalance_iff`).
-/
namespace OS64

open Function Nat Res

namespace Vfs

/-! ## Runs that are not clean -/

variable {s s' t t' u : Vfs} {e p q r x : Nat} {c : Name} {cur : Option Nat} {i : VInode}

/-- `u` is `t` with more inodes, each with one reference and perhaps kept by a devfs node. -/
structure Grow (t u : Vfs) : Prop where
  next : t.nextInode ≤ u.nextInode
  old : ∀ p, p < t.nextInode → u.inodes p = t.inodes p
  new : ∀ p i, t.nextInode ≤ p → u.inodes p = some i → t.inodes p = some i ∨ (p < u.nextInode ∧ i.refcount = 1)
  root : u.rootInode = t.rootInode
  mounts : u.mounts = t.mounts
  nodes : ∀ e, t.nodes e = none → u.nodes e = none
  inode : ∀ e d x, u.nodes e = some d → d.inode = some x → x < u.nextInode ∨ ∃ d', t.nodes e = some d' ∧
    d'.inode = some x
  parent : ∀ e d x, u.nodes e = some d → d.parentInode = some x → ∃ d', t.nodes e = some d' ∧ d'.parentInode = some x

theorem Ext.grow (h : Ext t u) : Grow t u where
  next := h.next
  old := h.old
  new p i hp hi := (h.new p i hp hi).imp_right (fun hn => ⟨hn.1, hn.2.1⟩)
  root := h.root
  mounts := h.mounts
  nodes e he := by rw [h.nodes, he]
  inode e d x he hd := .inr ⟨d, by rw [← h.nodes, he], hd⟩
  parent e d x he hd := ⟨d, by rw [← h.nodes, he], hd⟩

theorem Grow.trans {w : Vfs} (h : Grow t u) (h' : Grow u w) : Grow t w where
  next := h.next.trans h'.next
  old p hp := (h'.old p (hp.trans_le h.next)).trans (h.old p hp)
  new p i hp hi := by
    by_cases hlt : p < u.nextInode
    · rw [h'.old p hlt] at hi
      exact (h.new p i hp hi).imp_right (fun hn => ⟨hlt.trans_le h'.next, hn.2⟩)
    · rcases h'.new p i (not_lt.1 hlt) hi with h1 | h2
      · exact (h.new p i hp h1).imp_right (fun hn => absurd hn.1 hlt)
      · exact .inr h2
  root := h'.root.trans h.root
  mounts := h'.mounts.trans h.mounts
  nodes e he := h'.nodes e (h.nodes e he)
  inode e d x he hd := by
    rcases h'.inode e d x he hd with h1 | ⟨d', h1, h2⟩
    · exact .inl h1
    · exact (h.inode e d' x h1 h2).imp_left (fun hx => hx.trans_le h'.next)
  parent e d x he hd := by
    obtain ⟨d', h1, h2⟩ := h'.parent e d x he hd
    exact h.parent e d' x h1 h2

theorem grow_keep {n : DevNode} (hx : t.nodes x = some n) : Grow t { t.allocInode (.devfs n.type x) with
      nodes := update t.nodes x (some { n with inode := some t.nextInode }) } where
  next := le_succ _
  old p hp := alloc_other t _ hp.ne
  new p i hp hi := by
    by_cases he : p = t.nextInode
    · subst he
      have hi := (alloc_same t _).symm.trans hi
      rw [Option.some.injEq] at hi
      subst hi
      exact .inr ⟨lt_succ_self _, rfl⟩
    · exact .inl ((alloc_other t _ he).symm.trans hi)
  root := rfl
  mounts := rfl
  nodes e he := by
    refine (update_of_ne ?_ ..).trans he
    rintro rfl
    rw [hx] at he
    cases he
  inode e d y he hd := by
    by_cases hex : e = x
    · subst hex
      simp only [update_self, Option.some.injEq] at he
      subst he
      cases hd
      exact .inl (lt_succ_self _)
    · simp only [update_of_ne hex] at he
      exact .inr ⟨d, he, hd⟩
  parent e d y he hd := by
    by_cases hex : e = x
    · subst hex
      simp only [update_self, Option.some.injEq] at he
      subst he
      exact ⟨n, hx, hd⟩
    · simp only [update_of_ne hex] at he
      exact ⟨d, he, hd⟩

theorem lookupOp_grow (h : t.lookupOp p c = .ok (u, some q)) : Grow t u := by
  rcases lookupOp_cases h with ⟨n, node, -, -, hq | ⟨found, hnf, rfl, -⟩⟩ | ⟨n, mode, e, -, hl⟩
  · cases hq
  · exact (ext_alloc t hnf.volumeNode.not_devfs).grow
  · obtain ⟨x, n, -, hx, ⟨-, rfl⟩ | ⟨-, -, rfl⟩⟩ := devfsLookup_cases hl
    · exact (Ext.refl _).grow
    · exact grow_keep hx

/-- What every run keeps: an inode has a reference, at most those it had in `s` and the one of `cur`. -/
structure Run (s t : Vfs) (cur : Option Nat) : Prop where
  next : s.nextInode ≤ t.nextInode
  fresh : ∀ x, t.nextInode ≤ x → t.inodes x = none
  root : t.rootInode = s.rootInode
  mounts : t.mounts = s.mounts
  upper : ∀ x i, t.inodes x = some i →
    0 < i.refcount ∧ i.refcount ≤ if x < s.nextInode then s.refs x + held cur x else 1
  inode : ∀ e d x, t.nodes e = some d → d.inode = some x → x < t.nextInode
  parent : ∀ e d x, t.nodes e = some d → d.parentInode = some x → x < t.nextInode

theorem Tree.refs_lt (hs : Tree s) (x : Nat) : s.refs x + 1 < 2 ^ 32 := by
  cases hx : s.inodes x with
  | none => rw [refs_none hx]; omega
  | some i => rw [refs_eq hx]; exact (hs.count x i hx).2

theorem Run.count (h : Run s t cur) (hs : Tree s)
    (hi : t.inodes x = some i) : 0 < i.refcount ∧ i.refcount < 2 ^ 32 := by
  obtain ⟨h0, h1⟩ := h.upper x i hi
  split at h1
  · have := hs.refs_lt x
    have := held_le cur x
    omega
  · omega

theorem Run.self (hs : Tree s) : Run s s none where
  next := le_rfl
  fresh := hs.fresh
  root := rfl
  mounts := rfl
  upper x i hi := by
    rw [if_pos (hs.lt hi), refs_eq hi]
    exact ⟨(hs.count x i hi).1, le_add_right _ _⟩
  inode e d x he hd := by
    obtain ⟨i, hi⟩ := hs.inode e d x he hd
    exact hs.lt hi
  parent e d x he hd := by
    obtain ⟨i, hi⟩ := hs.parent e d x he hd
    exact hs.lt hi

theorem Run.grow (h : Run s t cur) (hg : Grow t u) : Run s u cur where
  next := h.next.trans hg.next
  fresh x hx := by
    cases hi : u.inodes x with
    | none => rfl
    | some i =>
      have htx := hg.next.trans hx
      rcases hg.new x i htx hi with h1 | ⟨h2, -⟩
      · rw [h.fresh x htx] at h1
        cases h1
      · exact absurd h2 (not_lt.2 hx)
  root := hg.root.trans h.root
  mounts := hg.mounts.trans h.mounts
  upper x i hi := by
    by_cases hlt : x < t.nextInode
    · rw [hg.old x hlt] at hi
      exact h.upper x i hi
    have htx := not_lt.1 hlt
    rcases hg.new x i htx hi with h1 | ⟨-, h2⟩
    · exact h.upper x i h1
    · rw [if_neg (not_lt.2 (h.next.trans htx)), h2]
      exact ⟨Nat.one_pos, le_rfl⟩
  inode e d x he hd := by
    rcases hg.inode e d x he hd with h1 | ⟨d', h1, h2⟩
    · exact h1
    · exact (h.inode e d' x h1 h2).trans_le hg.next
  parent e d x he hd := by
    obtain ⟨d', h1, h2⟩ := hg.parent e d x he hd
    exact (h.parent e d' x h1 h2).trans_le hg.next

theorem inodeUnref_node {d : DevNode} (hu : t.inodeUnref (some p) = .ok t')
    (hd : t'.nodes e = some d) : t.nodes e = some d := by
  obtain ⟨i, -, ⟨-, rfl⟩ | ⟨-, v, hv, rfl⟩⟩ := inodeUnref_cases hu
  · exact hd
  · exact freePrivate_nodes hv hd

theorem Run.leave (h : Run s t (some p)) (hs : Tree s) (hu : t.inodeUnref (some p) = .ok t') : Run s t' none := by
  obtain ⟨hframe, hm, -, -, hr, hn⟩ := inodeUnref_frame hu
  obtain ⟨i, hi, -⟩ := inodeUnref_cases hu
  obtain ⟨h0, h1⟩ := h.count hs hi
  obtain ⟨-, hafter, -⟩ := inodeUnref_spec hi h0 h1 hu
  refine ⟨hn ▸ h.next, fun x hx => ?_, hr.trans h.root, hm.trans h.mounts, fun x j hj => ?_, fun e d x he hd => ?_,
    fun e d x he hd => ?_⟩
  · rw [hn] at hx
    by_cases hxp : x = p
    · subst hxp
      rw [h.fresh x hx] at hi
      cases hi
    · rw [hframe x hxp, h.fresh x hx]
  · by_cases hxp : x = p
    · subst hxp
      obtain ⟨hp0, hp1⟩ := h.upper x i hi
      rcases hafter with hc | hc
      · rw [hc] at hj
        cases hj
      rw [hc, Option.some.injEq] at hj
      -- a count that is left is not the last one
      have hne : i.refcount ≠ 1 := fun h1' => by
        have hdead := (inodeUnref_spec hi h0 h1 hu).2.2.1 h1'
        rw [hdead] at hc
        cases hc
      rw [← hj]
      rw [held_self] at hp1
      split at hp1
      · rw [if_pos ‹_›]
        simp only
        omega
      · omega
    · rw [hframe x hxp] at hj
      obtain ⟨hp0, hp1⟩ := h.upper x j hj
      rw [held_other hxp] at hp1
      exact ⟨hp0, hp1⟩
  · rw [hn]
    exact h.inode e d x (inodeUnref_node hu he) hd
  · rw [hn]
    exact h.parent e d x (inodeUnref_node hu he) hd

theorem Run.arrive (h : Run s t none) : Run s t (some q) :=
  ⟨h.next, h.fresh, h.root, h.mounts, fun x i hi => by
    obtain ⟨h0, h1⟩ := h.upper x i hi
    rw [held_none] at h1
    refine ⟨h0, h1.trans ?_⟩
    split
    · omega
    · exact le_rfl, h.inode, h.parent⟩

theorem Run.take (h : Run s t none) (hs : Tree s) (hq : s.inodes q = some i)
    (hr : t.inodeRef (some q) = .ok t') : Run s t' (some q) := by
  obtain ⟨j, hj, hr⟩ := bind_ok hr
  have hj := inode_ok hj
  cases hr
  have hlt := (hs.lt hq).trans_le h.next
  refine ⟨h.next, fun x hx => ?_, h.root, h.mounts, fun x k hk => ?_, h.inode, h.parent⟩
  · have hx' : t.nextInode ≤ x := hx
    rw [setInode_other _ (by omega)]
    exact h.fresh x hx'
  by_cases hxq : x = q
  · subst hxq
    rw [setInode_same, Option.some.injEq] at hk
    obtain ⟨h0, h1⟩ := h.upper x j hj
    rw [if_pos (hs.lt hq), held_none] at h1
    have := hs.refs_lt x
    rw [← hk, if_pos (hs.lt hq), held_self]
    simp only
    rw [u32_of_lt (by omega)]
    omega
  · rw [setInode_other _ hxq] at hk
    obtain ⟨h0, h1⟩ := h.upper x k hk
    rw [held_other hxq]
    exact ⟨h0, h1⟩

/-! ## What is not made up for -/

def Short (s t : Vfs) (cur : Option Nat) : Prop := ∃ x i, s.inodes x = some i ∧ t.refs x < s.refs x + held cur x

theorem Short.grow (h : Short s t cur) (hs : Tree s) (hn : s.nextInode ≤ t.nextInode)
    (hg : Grow t u) : Short s u cur := by
  obtain ⟨x, i, hx, h⟩ := h
  exact ⟨x, i, hx, by rwa [refs_congr (hg.old x ((hs.lt hx).trans_le hn))]⟩

theorem Short.leave (h : Short s t (some p)) (hr : Run s t (some p)) (hs : Tree s)
    (hu : t.inodeUnref (some p) = .ok t') : Short s t' none := by
  obtain ⟨x, i, hx, h⟩ := h
  refine ⟨x, i, hx, ?_⟩
  by_cases hxp : x = p
  · subst hxp
    obtain ⟨j, hj, -⟩ := inodeUnref_cases hu
    obtain ⟨h0, h1⟩ := hr.count hs hj
    obtain ⟨hsum, -⟩ := inodeUnref_spec hj h0 h1 hu
    rw [held_self] at h
    omega
  · rw [held_other hxp] at h
    rwa [refs_congr ((inodeUnref_frame hu).1 x hxp)]

theorem Short.arrive (h : Short s t none) : Short s t (some q) := by
  obtain ⟨x, i, hx, h⟩ := h
  rw [held_none] at h
  exact ⟨x, i, hx, by omega⟩

theorem Short.take (h : Short s t none) (hr : t.inodeRef (some q) = .ok t') : Short s t' (some q) := by
  obtain ⟨x, i, hx, h⟩ := h
  obtain ⟨j, hj, hr⟩ := bind_ok hr
  have hj := inode_ok hj
  cases hr
  refine ⟨x, i, hx, ?_⟩
  rw [held_none] at h
  by_cases hxq : x = q
  · subst hxq
    rw [refs_eq (setInode_same _), held_self]
    rw [refs_eq hj] at h
    have : u32 (j.refcount + 1) ≤ j.refcount + 1 := mod_le _ _
    simp only
    omega
  · rwa [refs_congr (setInode_other _ hxq), held_other hxq]

/-- What a step that is not clean leaves: a count that is too low, a freed inode, an inode that only its devfs node
keeps, or an entry of devfs that was freed. -/
inductive Bad (s t : Vfs) (p : Nat) : Prop where
  | short (h : Short s t (some p))
  | dead (h : t.inodes p = none)
  | kept {mode e : Nat} {d : DevNode} (hs : s.inodes p = none) (hi : t.inodes p = some ⟨1, .devfs mode e⟩)
      (he : Entry s e)
      (hd : t.nodes e = some d) (hk : d.inode = some p)
  | lost {e : Nat} (he : Entry s e) (h : t.nodes e = none)

theorem Bad.not_balanced (h : Bad s t r) : ¬ Balanced s t r := by
  intro hb
  cases h with
  | short h =>
    obtain ⟨x, i, hx, h⟩ := h
    by_cases hxr : x = r
    · subst hxr
      rw [hb.more i hx, held_self] at h
      exact lt_irrefl _ h
    · rw [hb.others x i hx hxr, held_other hxr] at h
      exact lt_irrefl _ h
  | dead h =>
    obtain ⟨t', hu, -⟩ := hb.back
    obtain ⟨i, hi, -⟩ := inodeUnref_cases hu
    rw [h] at hi
    cases hi
  | @kept mode e d hs hi he hd hk =>
    have h2 := (hb.new hs).1 ⟨e, d, hd, hk⟩
    rw [refs_eq hi] at h2
    exact absurd h2 (show 1 ≠ 2 by decide)
  | @lost e he h =>
    obtain ⟨d, hd, -⟩ := hb.whole.entries e he
    rw [h] at hd
    cases hd

/-- A step by what it does to the counts: nothing; leave for an inode that is there or that is new; or leave and take a
reference to a mount point. -/
inductive Move (s t : Vfs) (p : Nat) : Vfs → Nat → Prop where
  | stay : Move s t p t p
  | go {u t' : Vfs} {q : Nat} (hg : Grow t u) (hq : q < u.nextInode) (hu : u.inodeUnref (some p) = .ok t') :
      Move s t p t' q
  | via {u w t' : Vfs} {q : Nat} {i : VInode} (hg : Grow t u) (hu : u.inodeUnref (some p) = .ok w)
      (hq : s.inodes q = some i) (hr : w.inodeRef (some q) = .ok t') : Move s t p t' q

theorem parentOp_lt (hr : Run s t (some p)) (hs : Tree s) (hp : p < t.nextInode)
    (h : t.parentOp p = .ok (u, some q)) : q < u.nextInode := by
  rcases parentOp_cases h with ⟨-, rfl, hq⟩ | ⟨n, node, up, -, -, -, -, rfl, hq⟩ | ⟨n, mode, e, d, -, hd, rfl, hq⟩
  · cases hq
    exact hp
  · cases hq
    exact lt_succ_self _
  · cases hpar : d.parentInode with
    | none =>
      obtain ⟨r, i, hroot, hi⟩ := hs.root
      rw [hpar, hr.root, hroot] at hq
      cases hq
      exact (hs.lt hi).trans_le hr.next
    | some x =>
      rw [hpar] at hq
      cases hq
      exact hr.parent e d _ hd hpar

theorem lookupOp_lt (hr : Run s t (some p)) (h : t.lookupOp p c = .ok (u, some q)) : q < u.nextInode := by
  rcases lookupOp_cases h with ⟨n, node, -, -, hq | ⟨found, -, rfl, hq⟩⟩ | ⟨n, mode, e, -, hl⟩
  · cases hq
  · cases hq
    exact lt_succ_self _
  · obtain ⟨x, n, -, hx, ⟨hk, rfl⟩ | ⟨-, rfl, rfl⟩⟩ := devfsLookup_cases hl
    · exact hr.inode x n q hx hk
    · exact lt_succ_self _

theorem StepTo.move (hr : Run s t (some p)) (hs : Tree s) (hp : p < t.nextInode)
    (h : StepTo t p c t' q) : Move s t p t' q := by
  cases h with
  | dot _ => exact .stay
  | root _ _ hi hu =>
    obtain ⟨h0, h1⟩ := hr.count hs hi
    rw [inodeUnref_ref hi h0 h1 hu]
    exact .stay
  | up _ _ hpar hu => exact .go (parentOp_ext hpar).grow (parentOp_lt hr hs hp hpar) hu
  | mount _ _ hpath _ hm hu href =>
    have hext := currentPath_ext hpath
    obtain ⟨x, hx, rfl⟩ := checkMountPoints_mem hm
    rw [hext.mounts, hr.mounts] at hx
    obtain ⟨i, hi⟩ := hs.mounts x hx
    exact .via hext.grow hu hi href
  | look _ _ hpath _ hl hu =>
    have hg := (currentPath_ext hpath).grow
    exact .go (hg.trans (lookupOp_grow hl)) (lookupOp_lt (hr.grow hg) hl) hu

theorem Run.move (h : Run s t (some p)) (hs : Tree s) (hp : p < t.nextInode)
    (hm : Move s t p t' q) : Run s t' (some q) ∧ q < t'.nextInode := by
  cases hm with
  | stay => exact ⟨h, hp⟩
  | go hg hq hu =>
    refine ⟨((h.grow hg).leave hs hu).arrive, ?_⟩
    obtain ⟨-, -, -, -, -, hn⟩ := inodeUnref_frame hu
    rwa [hn]
  | via hg hu hq href =>
    have hrun := ((h.grow hg).leave hs hu).take hs hq href
    exact ⟨hrun, (hs.lt hq).trans_le hrun.next⟩

theorem inodeUnref_frees {mode : Nat} (hi : t.inodes p = some ⟨1, .devfs mode e⟩)
    (hu : t.inodeUnref (some p) = .ok t') : t'.nodes e = none := by
  obtain ⟨i, hi', hcases⟩ := inodeUnref_cases hu
  rw [hi, Option.some.injEq] at hi'
  subst hi'
  rcases hcases with ⟨hc, -⟩ | ⟨-, v, hv, rfl⟩
  · exact absurd (show sub32 1 1 = 0 by decide) hc
  · obtain ⟨d, -, hv⟩ := bind_ok hv
    cases hv
    exact update_self ..

theorem inodeUnref_lost (hu : t.inodeUnref (some p) = .ok t') (h : t.nodes e = none) : t'.nodes e = none := by
  cases hd : t'.nodes e with
  | none => rfl
  | some d =>
    rw [inodeUnref_node hu hd] at h
    cases h

theorem inodeRef_nodes (h : t.inodeRef (some q) = .ok t') : t'.nodes = t.nodes := by
  obtain ⟨i, -, h⟩ := bind_ok h
  cases h
  rfl

/-- **What a step lost stays lost**, whatever the next step is. -/
theorem Bad.move (h : Bad s t p) (hr : Run s t (some p)) (hs : Tree s) (hp : p < t.nextInode)
    (hm : Move s t p t' q) : Bad s t' q := by
  cases hm with
  | stay => exact h
  | @go u _ _ hg hq hu =>
    cases h with
    | short h => exact .short ((h.grow hs hr.next hg).leave (hr.grow hg) hs hu).arrive
    | dead h =>
      obtain ⟨i, hi, -⟩ := inodeUnref_cases hu
      rw [hg.old p hp, h] at hi
      cases hi
    | kept _ hi he _ _ => exact .lost he (inodeUnref_frees ((hg.old p hp).trans hi) hu)
    | lost he h => exact .lost he (inodeUnref_lost hu (hg.nodes _ h))
  | @via u w _ _ i hg hu hq href =>
    cases h with
    | short h => exact .short (((h.grow hs hr.next hg).leave (hr.grow hg) hs hu).take href)
    | dead h =>
      obtain ⟨i, hi, -⟩ := inodeUnref_cases hu
      rw [hg.old p hp, h] at hi
      cases hi
    | kept _ hi he _ _ =>
      refine .lost he ?_
      rw [inodeRef_nodes href]
      exact inodeUnref_frees ((hg.old p hp).trans hi) hu
    | lost he h =>
      refine .lost he ?_
      rw [inodeRef_nodes href]
      exact inodeUnref_lost hu (hg.nodes _ h)

/-! ## Steps that are not clean -/

theorem Clean.unpaid (h : Clean s t (some p)) (hs : Tree s) (hh : Holds s t p)
    (hu : t.inodeUnref (some p) = .ok t') (hq : q = p ∨ ∃ i, s.inodes q = some i) : Bad s t' q := by
  obtain ⟨hc, hdead⟩ := h.leave hs hh hu
  have hold : ∀ i, s.inodes q = some i → Bad s t' q := fun i hi => by
    refine .short ⟨q, i, hi, ?_⟩
    rw [hc.refs hs hi, held_none, held_self]
    omega
  rcases hq with rfl | ⟨i, hi⟩
  · rcases hh with ⟨i, hi⟩ | ⟨hnew, -⟩
    · exact hold i hi
    · exact .dead (hdead hnew)
  · exact hold i hi

/-- **A step that is not clean** loses a reference. -/
theorem Clean.bad (h : Clean s t (some p)) (hs : Tree s) (hh : Holds s t p)
    (hc : ¬ CleanStep t p c) (hst : StepTo t p c t' q) : Bad s t' q := by
  have hp := hh.lt h hs
  cases hst with
  | dot hdot => exact absurd (.inl hdot) hc
  | root hdd hr _ _ => exact absurd (.inr (.inl ⟨hdd, .inl hr⟩)) hc
  | mount h1 h2 hpath hne hm _ _ => exact absurd (.inr (.inr ⟨h1, h2, .inl ⟨_, _, _, hpath, hne, hm⟩⟩)) hc
  | up hdd hr hpar hu =>
    have hno : OnVolume t p → VolumeRoot t p := fun hon => by
      by_contra hv
      exact hc (.inr (.inl ⟨hdd, .inr ⟨hon, hv⟩⟩))
    rcases parentOp_cases hpar with ⟨-, rfl, hq⟩ | ⟨n, node, up, hi, hon, hne, -, -, -⟩ |
      ⟨n, mode, e, d, hi, hd, rfl, hq⟩
    · cases hq
      exact h.unpaid hs hh hu (.inl rfl)
    · exact absurd (hno ⟨_, hi, hon.not_devfs⟩) hne
    · refine h.unpaid hs hh hu (.inr ?_)
      cases hpar : d.parentInode with
      | none =>
        obtain ⟨r, i, hroot, hi⟩ := hs.root
        rw [hpar, h.root, hroot] at hq
        cases hq
        exact ⟨i, hi⟩
      | some x =>
        rw [hpar] at hq
        cases hq
        rw [h.nodes] at hd
        exact hs.parent e d _ hd hpar
  | @look u u' _ _ path h1 h2 hpath hm hl hu =>
    have hext := currentPath_ext hpath
    have hno : ¬ OnVolume t p := fun hon => hc (.inr (.inr ⟨h1, h2, .inr hon⟩))
    have hclean := h.ext hext
    rcases lookupOp_cases hl with ⟨n, node, hi, hon, -⟩ | ⟨n, mode, e, hi, hd⟩
    · exact absurd ⟨_, (hext.old p hp).symm.trans hi, hon.not_devfs⟩ hno
    obtain ⟨x, n, hx, hn, ⟨hk, rfl⟩ | ⟨-, rfl, hu'⟩⟩ := devfsLookup_cases hd
    · rw [hclean.nodes] at hn
      exact hclean.unpaid hs (hh.ext hp hext) hu (.inr (hs.inode x n q hn hk))
    -- the walk leaves an inode of `s`, whose node stays, and is at the inode that the entry just got
    have hold : ∃ i, s.inodes p = some i := by
      rcases hh with ho | ⟨-, node, hi', hnd⟩
      · exact ho
      · rw [hext.old p hp, hi'] at hi
        cases hi
        exact absurd rfl (hnd mode e)
    obtain ⟨i, hi⟩ := hold
    have hp' := hp.trans_le hext.next
    have hat : u'.inodes p = some { i with refcount := i.refcount + 1 } := by
      rw [hu']
      exact (alloc_other u _ hp'.ne).trans (hclean.at_old hs hi)
    obtain ⟨h0, hlt⟩ := hs.count p i hi
    obtain ⟨-, -, -, -, hlive⟩ := inodeUnref_spec hat (succ_pos _) hlt hu
    have hnodes := (hlive (show i.refcount + 1 ≠ 1 by omega)).1
    have hentry : Entry s x := by
      obtain ⟨y, d, l, hy, hrest⟩ := hx
      exact ⟨y, d, l, by rw [← hclean.nodes, hy], hrest⟩
    refine @Bad.kept _ _ _ n.type x { n with inode := some u.nextInode } (hs.fresh _ hclean.next) ?_ hentry ?_ rfl
    · rw [(inodeUnref_frame hu).1 _ hp'.ne', hu']
      exact alloc_same u _
    · rw [hnodes, hu']
      exact update_self ..

/-! ## Whole walks -/

theorem walkComps_balanced (hs : Tree s) : ∀ {comps : List Name} {t s' : Vfs} {p r : Nat},
    Clean s t (some p) → Holds s t p → Run s t (some p) → walkComps comps t (some p) = .ok (s', some (some r)) →
    (Balanced s s' r ↔ CleanFrom comps t p)
  | [], t, s', p, r, hc, hh, _, h => by
    cases h
    exact iff_of_true (hc.balanced hs hh) trivial
  | c :: cs, t, s', p, r, hc, hh, hr, h => by
    obtain ⟨⟨t', next⟩, hst, h⟩ := bind_ok h
    cases next with
    | none => cases h
    | some next =>
      obtain ⟨root, i, hroot, -⟩ := hs.root
      obtain ⟨q, rfl, hto⟩ := walkStep_stepTo (by rw [hc.root, hroot]; exact Option.some_ne_none _) hst
      have hp := hh.lt hc hs
      have hmove := hto.move hr hs hp
      obtain ⟨hr', hq⟩ := hr.move hs hp hmove
      by_cases hcl : CleanStep t p c
      · obtain ⟨hc', hh'⟩ := hc.step hs hh hcl hto
        rw [walkComps_balanced hs hc' hh' hr' h]
        refine ⟨fun hrest => ⟨hcl, fun t₁ q₁ hst₁ => ?_⟩, fun hall => hall.2 t' q hst⟩
        rw [hst, Res.ok.injEq, Prod.mk.injEq] at hst₁
        obtain ⟨rfl, hq₁⟩ := hst₁
        cases hq₁
        exact hrest
      · refine iff_of_false ?_ (fun hall => hcl hall.1)
        exact (walkComps_bad hs (hc.bad hs hh hcl hto) hr' hq h).not_balanced
where
  /-- What is lost on the way is missing in the end. -/
  walkComps_bad {s : Vfs} (hs : Tree s) : ∀ {comps : List Name} {t s' : Vfs} {p r : Nat}, Bad s t p → Run s t (some p) →
      p < t.nextInode → walkComps comps t (some p) = .ok (s', some (some r)) → Bad s s' r
    | [], t, s', p, r, hb, _, _, h => by
      cases h
      exact hb
    | c :: cs, t, s', p, r, hb, hr, hp, h => by
      obtain ⟨⟨t', next⟩, hst, h⟩ := Res.bind_ok h
      cases next with
      | none => cases h
      | some next =>
        obtain ⟨root, i, hroot, -⟩ := hs.root
        obtain ⟨q, rfl, hto⟩ := walkStep_stepTo (by rw [hr.root, hroot]; exact Option.some_ne_none _) hst
        have hmove := hto.move hr hs hp
        obtain ⟨hr', hq⟩ := hr.move hs hp hmove
        exact walkComps_bad hs (hb.move hr hs hp hmove) hr' hq h

theorem walk_balanced (hs : Tree s) {d : Nat} (hd : s.inodes d = some i) {path : Name}
    (h : s.walk d path = .ok (s', some (some r))) : Balanced s s' r ↔ CleanPath s d path := by
  unfold walk at h
  split at h
  · rename_i hpath
    refine iff_of_true ?_ (by rcases hpath with hpath | hpath; exacts [.inl hpath, .inr (.inl hpath)])
    obtain ⟨t, href, hend⟩ := bind_ok h
    rw [Res.ok.injEq, Prod.mk.injEq, Option.some.injEq] at hend
    obtain ⟨rfl, hr⟩ := hend
    rw [hr] at href
    have halive : ∃ j, s.inodes r = some j := by
      cases hm : s.checkMountPoints [slash] with
      | none =>
        obtain ⟨root, j, hroot, hj⟩ := hs.root
        rw [hm, hroot] at hr
        cases hr
        exact ⟨j, hj⟩
      | some m =>
        rw [hm] at hr
        cases hr
        obtain ⟨x, hx, rfl⟩ := checkMountPoints_mem hm
        exact hs.mounts x hx
    obtain ⟨j, hj⟩ := halive
    exact ((Clean.self s hs).take hs hj href).balanced hs (.inl ⟨j, hj⟩)
  · rename_i hpath
    obtain ⟨t, href, hrest⟩ := bind_ok h
    have hclean := (Clean.self s hs).take hs hd href
    have hrun := (Run.self hs).take hs hd href
    rw [walkComps_balanced hs hclean (.inl ⟨i, hd⟩) hrun hrest]
    refine ⟨fun hc => .inr (.inr (fun t₁ ht₁ => ?_)), fun hc => ?_⟩
    · rw [href, Res.ok.injEq] at ht₁
      rwa [← ht₁]
    · rcases hc with hc | hc | hc
      · exact absurd (.inl hc) hpath
      · exact absurd (.inr hc) hpath
      · exact hc t href

/-! ## Lookups -/

theorem alloc_not_balanced (hs : Tree s) {node : VNode}
    (href : (s.allocInode node).inodeRef (some s.nextInode) = .ok s') : ¬ Balanced s s' s.nextInode := fun hb => by
  rw [inodeRef_eq (alloc_same s node)] at href
  cases href
  have hdead := hs.fresh s.nextInode le_rfl
  have hnot : ¬ Kept ((s.allocInode node).setInode s.nextInode (some ⟨u32 (1 + 1), node⟩)) s.nextInode := by
    rintro ⟨e, d, he, hk⟩
    obtain ⟨i, hi⟩ := hs.inode e d _ he hk
    rw [hdead] at hi
    cases hi
  have hone := (hb.new hdead).2 hnot
  rw [refs_eq (setInode_same _)] at hone
  exact absurd hone (show u32 (1 + 1) ≠ 1 by decide)

theorem keep_balanced (hs : Tree s) {n : DevNode} (hn : s.nodes x = some n)
    (ht : t = { s.allocInode (.devfs n.type x) with
      nodes := update s.nodes x (some { n with inode := some s.nextInode }) })
    (href : t.inodeRef (some s.nextInode) = .ok s') : Balanced s s' s.nextInode := by
  have hat : t.inodes s.nextInode = some ⟨1, .devfs n.type x⟩ := by
    rw [ht]
    exact alloc_same s _
  have hold : ∀ q i, s.inodes q = some i → q ≠ s.nextInode ∧ t.inodes q = some i := fun q i hq => by
    have hne := Nat.ne_of_lt (hs.lt hq)
    refine ⟨hne, ?_⟩
    rw [ht]
    exact (alloc_other s _ hne).trans hq
  -- the state with `c` references to the new inode
  have hwhole : ∀ c, Whole s (t.setInode s.nextInode (some ⟨c, .devfs n.type x⟩)) := fun c => by
    have halive : ∀ q i, s.inodes q = some i → ∃ j, (t.setInode s.nextInode (some ⟨c, .devfs n.type x⟩)).inodes q =
        some j := by
      intro q i hq
      obtain ⟨hne, htq⟩ := hold q i hq
      exact ⟨i, by rw [setInode_other _ hne, htq]⟩
    refine ⟨fun p hp => ?_, fun m hm => ?_, fun e he => ?_⟩
    · obtain ⟨r, i, hr, hi⟩ := hs.root
      rw [hr, Option.some.injEq] at hp
      subst hp
      exact halive _ i hi
    · obtain ⟨i, hi⟩ := hs.mounts m hm
      exact halive _ i hi
    · obtain ⟨y, d, l, hy, hl, hmem⟩ := he
      obtain ⟨z, hz⟩ := hs.list y d l hy hl e hmem
      by_cases hex : e = x
      · subst hex
        refine ⟨{ n with inode := some s.nextInode }, ?_, fun p hp => ?_⟩
        · rw [ht]
          exact update_self ..
        · cases hp
          exact ⟨_, setInode_same _⟩
      · refine ⟨z, ?_, fun p hp => ?_⟩
        · rw [ht]
          exact (update_of_ne hex ..).trans hz
        · obtain ⟨i, hi⟩ := hs.inode e z p hz hp
          exact halive _ i hi
  have hrefs : ∀ c q i, s.inodes q = some i →
      (t.setInode s.nextInode (some ⟨c, .devfs n.type x⟩)).refs q = s.refs q := fun c q i hq => by
    obtain ⟨hne, htq⟩ := hold q i hq
    exact refs_congr (by rw [setInode_other _ hne, htq, hq])
  have hdead := hs.fresh s.nextInode le_rfl
  rw [inodeRef_eq hat] at href
  cases href
  refine ⟨fun q i hq _ => hrefs _ q i hq, fun i hi => ?_, fun _ => ⟨fun _ => ?_, fun hk => ?_⟩, hwhole _, ?_⟩
  · rw [hdead] at hi
    cases hi
  · exact refs_eq (setInode_same _)
  · refine absurd ⟨x, { n with inode := some s.nextInode }, ?_, rfl⟩ hk
    rw [ht]
    exact update_self ..
  · refine ⟨_, inodeUnref_eq (setInode_same _) (show sub32 (u32 (1 + 1)) 1 ≠ 0 by decide), fun q i hq => ?_, ?_⟩
    · obtain ⟨hne, -⟩ := hold q i hq
      rw [refs_congr (setInode_other _ hne)]
      exact hrefs _ q i hq
    · have hw := hwhole (sub32 (u32 (1 + 1)) 1)
      simp only [setInode, update_idem] at hw ⊢
      exact hw

theorem lookup_balanced (hs : Tree s) {d : Nat} (hd : s.inodes d = some i) {name : Name}
    (h : s.lookup d name = .ok (s', some r)) : Balanced s s' r ↔ ∃ mode e, i.node = .devfs mode e := by
  unfold lookup at h
  rw [inode_eq hd] at h
  simp only [Res.bind] at h
  split at h
  · cases h
  obtain ⟨⟨t, q⟩, hl, h⟩ := bind_ok h
  cases q with
  | none => cases h
  | some q =>
    obtain ⟨t', href, hend⟩ := bind_ok h
    cases hend
    rcases lookupOp_cases hl with ⟨n, node, hi, hon, hq | ⟨found, -, rfl, hq⟩⟩ | ⟨n, mode, e, hi, hdev⟩
    · cases hq
    · cases hq
      rw [hd, Option.some.injEq] at hi
      subst hi
      refine iff_of_false (alloc_not_balanced hs href) ?_
      rintro ⟨mode, e, hc⟩
      exact hon.not_devfs mode e hc
    · rw [hd, Option.some.injEq] at hi
      subst hi
      refine iff_of_true ?_ ⟨mode, e, rfl⟩
      obtain ⟨x, m, -, hm, ⟨hk, rfl⟩ | ⟨-, rfl, ht⟩⟩ := devfsLookup_cases hdev
      · obtain ⟨j, hj⟩ := hs.inode x m r hm hk
        exact ((Clean.self t hs).take hs hj href).balanced hs (.inl ⟨j, hj⟩)
      · exact keep_balanced hs hm ht href

/-- **Inode reference balance** holds for a walk exactly if every step of it is clean, and for a lookup exactly on
devfs: a walk that goes through devfs, or takes dot-dot at the root of a mounted volume, loses a reference, and
`vfs_lookup` on a volume takes one too many. -/
theorem refBalance_iff {s : Vfs} (hs : Tree s) {d : Nat} {i : VInode} (hd : s.inodes d = some i) :
    (∀ path s' r, s.walk d path = .ok (s', some (some r)) → (Balanced s s' r ↔ CleanPath s d path)) ∧
      ∀ name s' r, s.lookup d name = .ok (s', some r) → (Balanced s s' r ↔ ∃ mode e, i.node = .devfs mode e) :=
  ⟨fun _ _ _ h => walk_balanced hs hd h, fun _ _ _ h => lookup_balanced hs hd h⟩

/-- Both sides of the equivalences occur: from the root `/` is clean, and the name of an entry of devfs is not. -/
theorem ladder_refBalance_iff : Tree (ladder []) ∧ (ladder []).inodes 300 = some ⟨1, .devfs Fat32.ftDir 598⟩ ∧
    (∀ path s' r, (ladder []).walk 300 path = .ok (s', some (some r)) →
      (Balanced (ladder []) s' r ↔ CleanPath (ladder []) 300 path)) ∧
    ∀ name s' r, (ladder []).lookup 300 name = .ok (s', some r) →
      (Balanced (ladder []) s' r ↔ ∃ mode e, VNode.devfs Fat32.ftDir 598 = .devfs mode e) :=
  ⟨ladder_tree [], rfl, @refBalance_iff _ (ladder_tree []) 300 ⟨1, .devfs Fat32.ftDir 598⟩ rfl⟩

/-- The walk to an entry of devfs takes no reference: giving one back frees its inode and the directory's node, which
the entry still refers to.  The lookup of a directory on FAT32 takes two. -/
theorem devfs_walk_unpaid : (∃ s' s'', (ladder []).walk 300 rung = .ok (s', some (some 299)) ∧
      (ladder []).refs 299 = 1 ∧ s'.refs 299 = 1 ∧ ¬ Balanced (ladder []) s' 299 ∧
      s'.inodeUnref (some 299) = .ok s'' ∧ s''.inodes 299 = none ∧ s''.nodes 597 = ladderNode 597) ∧
    ∃ s', nested.lookup 0 (Name.ofString "a") = .ok (s', some 1) ∧ nested.inodes 1 = none ∧ s'.refs 1 = 2 ∧
      ¬ Balanced nested s' 1 := by
  refine ⟨⟨_, _, rfl, rfl, rfl, fun h => ?_, rfl, rfl, rfl⟩, _, rfl, rfl, rfl, fun h => ?_⟩
  · have hmore := h.more _ (ladder_inode [] (by decide) (by decide))
    exact absurd hmore (show 1 ≠ 1 + 1 by decide)
  · have hone := (h.new rfl).2 (fun ⟨e, d, hd, _⟩ => by cases hd)
    exact absurd hone (show 2 ≠ 1 by decide)

end Vfs

end OS64
