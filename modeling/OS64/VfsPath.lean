import OS64.VfsExt
/-!
# VfsPath — the path of an inode, and the way back by dot-dot

`vfs_build_path` and dot-dot ask the file system for parents, which it makes up without a place in a directory and with
the root of the volume as their own parent.  So the path of an inode has one component at most, and is right for what is
in the root directory only (`pathRight_iff`).
-/
namespace OS64

open List Option Nat Res

/-! ## What a lookup finds -/

namespace Fat32

variable {name : Name} {f : Inode} {up : VNode}

theorem forLoop_lookupSlot {dir : Inode} {cluster : Nat} {buf : Mem} :
    ∀ {n i index e : Nat}, forLoop (lookupSlot dir name cluster buf) n i index = (e, some (some f)) →
      ∃ j k, nameFromEntry (entName buf (32 * j)) = name ∧ f = inodeAt dir cluster buf j k
  | 0, i, index, e, h => by cases h
  | n + 1, i, index, e, h => by
    unfold forLoop lookupSlot at h
    split at h
    · exact forLoop_lookupSlot h
    · cases h
    · rename_i s' a hbody
      repeat' split at hbody
      all_goals cases hbody
      all_goals cases h
      exact ⟨i, _, ‹_›, rfl⟩

theorem lookup_place {v : Fat32} {dir : Inode} (h : v.lookup dir name = .ok (some f)) :
    f.parentCluster = dir.firstCluster ∧
      ∃ buf, v.readCluster f.dirCluster = some buf ∧ nameFromEntry (entName buf f.entryOffset) = name := by
  obtain ⟨⟨s, c, r⟩, hl, h⟩ := bind_ok h
  rcases r with _ | _ | g
  · cases h
  · cases h
  · cases h
    obtain ⟨d, t, t', hbody⟩ := trailLoop_ret hl
    unfold lookupCluster at hbody
    split at hbody
    · cases hbody
    rename_i buf hread
    split at hbody
    · cases hbody
    · rename_i index r hloop
      cases hbody
      obtain ⟨j, k, hname, rfl⟩ := forLoop_lookupSlot hloop
      exact ⟨rfl, buf, hread, hname⟩

theorem length_nameFromEntry (name : Name) (h : name.length ≤ 11) : (nameFromEntry name).length ≤ 12 := by
  have hbase := ( takeWhile_prefix (fun b => decide (b ≠ space)) (l := name.take 8)).length_le
  have hext := ( takeWhile_prefix (fun b => decide (b ≠ space)) (l := name.drop 8)).length_le
  rw [length_take] at hbase
  rw [length_drop] at hext
  refine le_trans ( takeWhile_prefix _).length_le ?_
  simp only [length_append, length_map]
  split
  · rw [length_nil]
    omega
  · rw [length_cons, length_map]
    omega

theorem length_getName {v : Fat32} (h : v.getName f = some name) : name.length ≤ 254 := by
  unfold getName at h
  split at h
  · cases h
    exact zero_le _
  · obtain ⟨buf, -, rfl⟩ := map_eq_some_iff.1 h
    have := length_nameFromEntry (entName buf f.entryOffset) (by unfold entName; simp)
    omega

end Fat32

namespace Exfat

variable {v : Exfat}

theorem lookup_place {dir f : ExInode} {name : Name} (h : v.lookup dir name = .ok (some f)) :
    f.parentCluster = dir.firstCluster := by
  unfold lookup at h
  split at h
  · cases h
  obtain ⟨⟨s, c, r⟩, hl, h⟩ := bind_ok h
  cases r with
  | none => cases h
  | some found =>
    obtain ⟨d, t, t', hbody⟩ := trailLoop_ret hl
    unfold lookupTurn at hbody
    simp only at hbody
    split at hbody
    · cases hbody
    · cases hbody
      cases h
      rfl
    · cases hbody
      cases h
    · cases hbody
      cases h

theorem length_nameLoop {buf : Mem} {maxLen : Nat} : ∀ {n p : Nat} {name name' : Name},
    name.length ≤ maxLen - 1 → nameLoop v buf maxLen n p name = .ok name' → name'.length ≤ maxLen - 1
  | 0, p, name, name', hn, h => by
    cases h
    exact hn
  | n + 1, p, name, name', hn, h => by
    unfold nameLoop at h
    split at h
    · cases h
      exact hn
    split at h
    · cases h
    simp only at h
    generalize (if buf (32 * p) = entryName then name ++ nameChars buf p else name) = name₁ at h
    split at h
    · cases h
    · exact length_nameLoop (not_lt.1 ‹_›) h

theorem length_getName {f : ExInode} {name : Name} (h : v.getName f nameMax = .ok (some name)) : name.length ≤ 254 := by
  unfold getName at h
  split at h
  · cases h
    exact zero_le _
  split at h
  · cases h
  split at h
  · cases h
  simp only at h
  split at h
  · cases h
  · obtain ⟨name', hn, h⟩ := bind_ok h
    cases h
    exact @length_nameLoop _ _ nameMax _ _ _ _ (zero_le _) hn

end Exfat

namespace Vfs

variable {cs : List Name} {s s' t : Vfs} {n p root : Nat} {i : VInode} {dir node : VNode} {c : Name}

def pathOf (cs : List Name) : Name := if cs = [] then [slash] else cs.flatMap (fun c => slash :: c)

structure Component (c : Name) : Prop where
  ne_nil : c ≠ []
  slashFree : slash ∉ c
  ne_dot : c ≠ dotName
  ne_dotDot : c ≠ dotDotName

/-- A volume is mounted as the root and nothing else. -/
structure RootOnly (s : Vfs) (root : Nat) : Prop where
  isRoot : s.rootInode = some root
  mounts : s.mounts = []
  volume : VolumeRoot s root
  dir : IsDir s root
  fresh : ∀ p, s.nextInode ≤ p → s.inodes p = none
  count : ∀ i, s.inodes root = some i → 0 < i.refcount ∧ i.refcount < 4294967296

def dotDots (s : Vfs) (p : Nat) : Nat → Res (Vfs × Option (Option Nat))
  | 0 => .ok (s, some (some p))
  | k + 1 => (dotDots s p k).bind (fun r =>
      match r.2 with
      | some (some q) => r.1.walk q dotDotName
      | _ => .ok r)

/-- **The path of an inode is right**: `vfs_build_path` gives the path that led to it, and dot-dot leads back to the
directories on that path, each time to the object that its path names. -/
def PathRight (s s' : Vfs) (root i : Nat) (cs : List Name) : Prop :=
  (∃ t, s'.buildPath i pathMax = .ok (t, some (pathOf cs))) ∧
    ∀ k, k ≤ cs.length → ∃ t q t' q' o, s'.dotDots i k = .ok (t, some (some q)) ∧ t.objectAt (some q) = some o ∧
      s.walk root (pathOf (cs.take (cs.length - k))) = .ok (t', some (some q')) ∧ t'.objectAt (some q') = some o

/-! ## The components of a path -/

theorem tokens_flatMap : ∀ {cs : List Name} {n : Nat}, (∀ c ∈ cs, Component c) →
    tokens n (cs.flatMap (fun c => slash :: c)) = cs.take n
  | cs, 0, _ => by rfl
  | [], n + 1, _ => by rfl
  | c :: cs, n + 1, h => by
    obtain ⟨hne, hfree, -, -⟩ := h c (.head _)
    have hall : ∀ b ∈ c, decide (b ≠ slash) = true := fun b hb => decide_eq_true (fun he => hfree (he ▸ hb))
    have ih := @tokens_flatMap cs n (forall_mem_cons.1 h).2
    have hsplit : ∃ rest, cs.flatMap (fun c => slash :: c) = [] ∧ rest = [] ∨
        cs.flatMap (fun c => slash :: c) = slash :: rest := by
      cases cs with
      | nil => exact ⟨[], .inl ⟨rfl, rfl⟩⟩
      | cons d cs => exact ⟨_, .inr rfl⟩
    rw [flatMap_cons, cons_append, tokens_slash, take_succ_cons, ← ih]
    obtain ⟨b, c', rfl⟩ := exists_cons_of_ne_nil hne
    have hb := of_decide_eq_true (hall b (.head _))
    have hstart : (b :: c' ++ cs.flatMap (fun c => slash :: c)).dropWhile (fun b => decide (b = slash)) =
        b :: c' ++ cs.flatMap (fun c => slash :: c) := dropWhile_cons_of_neg (by simpa using hb)
    have hnil : b :: c' ++ cs.flatMap (fun c => slash :: c) ≠ [] := cons_ne_nil _ _
    rw [tokens, hstart, if_neg hnil, takeWhile_append_of_pos hall, dropWhile_append_of_pos hall]
    obtain ⟨rest, ⟨hs, -⟩ | hs⟩ := hsplit
    · rw [hs]
      simp [tokens_nil]
    · rw [hs, takeWhile_cons_of_neg (by simp), dropWhile_cons_of_neg (by simp), append_nil, tail_cons,
        ← tokens_slash rest]

theorem components_pathOf (h : ∀ c ∈ cs, Component c) (hlen : (pathOf cs).length < pathMax) :
    components (pathOf cs) = cs.take 256 := by
  unfold components
  rw [take_of_length_le (by omega)]
  unfold pathOf
  split
  · rename_i hnil
    rw [hnil]
    rfl
  · exact tokens_flatMap h

/-! ## Made-up parents -/

/-- `t` is what a walk on the volumes of `s` has made of it. -/
structure Env (s t : Vfs) (root : Nat) : Prop where
  isRoot : t.rootInode = some root
  mounts : t.mounts = s.mounts
  fats : t.fats = s.fats
  exfats : t.exfats = s.exfats
  fresh : ∀ p, t.nextInode ≤ p → t.inodes p = none
  lt : root < t.nextInode

theorem Env.ext {u : Vfs} (h : Env s t root) (he : Ext t u) : Env s u root :=
  ⟨he.root.trans h.isRoot, he.mounts.trans h.mounts, he.fats.trans h.fats, he.exfats.trans h.exfats, he.fresh h.fresh,
    h.lt.trans_le he.next⟩

theorem Env.alive_lt (h : Env s t root) (hi : t.inodes p = some i) : p < t.nextInode := lt_of_fresh h.fresh hi

theorem Env.fat (he : Env s t root) (vol : Nat) : t.fat vol = s.fat vol := by
  unfold Vfs.fat
  rw [he.fats]

theorem Env.exfat (he : Env s t root) (vol : Nat) : t.exfat vol = s.exfat vol := by
  unfold Vfs.exfat
  rw [he.exfats]

theorem Env.nodeName (he : Env s t root) (node : VNode) : t.nodeName node = s.nodeName node := by
  cases node <;> simp only [Vfs.nodeName, he.fat, he.exfat]

theorem VolumeNode.congr (h : VolumeNode s node) (hf : t.fats = s.fats) (he : t.exfats = s.exfats) :
    VolumeNode t node := by
  cases h with
  | fat hv => exact .fat (hf ▸ hv)
  | exfat hv => exact .exfat (he ▸ hv)

theorem VolumeNode.parent (h : VolumeNode s node) : ∃ up, s.nodeParent node = .ok up := by
  cases h with
  | fat hv => exact ⟨_, by rw [nodeParent, fat_eq hv]; rfl⟩
  | exfat hv => exact ⟨_, by rw [nodeParent, exfat_eq hv]; rfl⟩

theorem MadeUp.nameless (h : MadeUp s dir node) : ∃ name, s.nodeName node = .ok name ∧ name.getD [] = [] := by
  cases h with
  | @fat vol v f hv =>
    refine ⟨v.getName (v.parentInode f), by rw [nodeName, fat_eq hv]; rfl, ?_⟩
    unfold Fat32.getName
    split <;> rfl
  | @exfat vol v f hv =>
    simp only [nodeName, exfat_eq hv, Res.bind, Exfat.getName]
    split
    · exact ⟨some [], rfl, rfl⟩
    · exact ⟨none, if_pos Nat.zero_lt_two, rfl⟩

/-- The parent of a made-up parent is the root of the volume. -/
theorem MadeUp.top (h : MadeUp s dir node) (hup : s.nodeParent node = .ok (some up)) :
    s.nodeParent up = .ok none := by
  cases h with
  | fat hv =>
    cases nodeParent_madeUp hup
    rw [nodeParent, fat_eq hv]
    exact congrArg Res.ok (if_pos rfl)
  | exfat hv =>
    cases nodeParent_madeUp hup
    rw [nodeParent, exfat_eq hv]
    exact congrArg Res.ok (if_pos rfl)

theorem climb_goes {comps : List Name} (he : Env s t root) (hne : p ≠ root) (hc : comps.length < 256) :
    ¬ (some p = t.rootInode ∨ 256 ≤ comps.length) := by
  rw [he.isRoot]
  rintro (hx | hx)
  · exact hne (Option.some.inj hx)
  · omega

theorem climb_up {turns : Nat} {comps : List Name} {name : Option Name} (h : VolumeNode t node)
    (he : Env s t root) (hp : t.inodes p = some ⟨n, node⟩) (hne : p ≠ root) (hc : comps.length < 256)
    (hn : t.nodeName node = .ok name) (hup : t.nodeParent node = .ok (some up)) : climb (turns + 1) t (some p) comps =
      climb turns (t.allocInode up) (some t.nextInode)
        (if name.getD [] = [] then comps else name.getD [] :: comps) := by
  have hgo := climb_goes he hne hc
  have hparent : t.parent p = .ok (t.allocInode up, some t.nextInode) := by
    unfold Vfs.parent
    rw [if_neg (fun hx => hgo (.inl hx.symm)), parentOp_node hp h, hup]
    rfl
  have hnew : some t.nextInode ≠ some p := fun hx => ne_of_gt (he.alive_lt hp) (Option.some.inj hx)
  rw [Vfs.climb, if_neg hgo, getName_node hp h, hn]
  simp only [Res.bind, hparent, if_neg hnew]

theorem MadeUp.climb {turns : Nat} {comps : List Name} (h : MadeUp t dir node)
    (he : Env s t root) (hp : t.inodes p = some ⟨n, node⟩) (hne : p ≠ root) (hc : comps.length < 256) :
    ∃ t', climb (turns + 2) t (some p) comps = .ok (t', comps) := by
  obtain ⟨name, hname, hnil⟩ := h.nameless
  obtain ⟨_ | up, hup⟩ := h.volumeNode.parent
  · exact ⟨t, ((volumeRoot_iff hp h.volumeNode).2 hup).climb (succ_pos _) comps⟩
  have hon : VolumeNode (t.allocInode up) up := (nodeParent_madeUp hup).volumeNode.congr rfl rfl
  have htop : (t.allocInode up).nodeParent up = .ok none := by
    rw [← h.top hup]
    cases up <;> rfl
  refine ⟨t.allocInode up, ?_⟩
  rw [climb_up h.volumeNode he hp hne hc hname hup, if_pos hnil]
  exact ((volumeRoot_iff (alloc_same t up) hon).2 htop).climb (succ_pos _) comps

/-! ## What a walk reaches -/

theorem NodeFound.congr (h : NodeFound s c dir node) (hf : t.fats = s.fats)
    (he : t.exfats = s.exfats) : NodeFound t c dir node := by
  cases h with
  | fat hv hl => exact .fat (hf ▸ hv) hl
  | exfat hv hl => exact .exfat (he ▸ hv) hl

theorem NodeFound.parent (h : NodeFound t c dir node) (hmode : dir.mode = Fat32.ftDir)
    (hup : t.nodeParent node = .ok (some up)) : up.object = dir.object := by
  cases h with
  | @fat vol v g f hv hl =>
    have hmode : g.mode = Fat32.ftDir := hmode
    cases nodeParent_madeUp hup
    simp only [VNode.object, Fat32.parentInode, if_true, if_pos hmode, (Fat32.lookup_place hl).1]
  | @exfat vol v g f hv hl =>
    have hmode : g.mode = Fat32.ftDir := hmode
    cases nodeParent_madeUp hup
    simp only [VNode.object, Exfat.parentInode, if_true, if_pos hmode, Exfat.lookup_place hl]

theorem MadeUp.alloc {node' : VNode} (h : MadeUp s dir node) : MadeUp (s.allocInode node') dir node := by
  cases h with
  | fat hv => exact .fat hv
  | exfat hv => exact .exfat hv

theorem VolumeNode.climb {name : Option Name} (h : VolumeNode t node) (turns : Nat)
    (he : Env s t root) (hp : t.inodes p = some ⟨n, node⟩) (hne : p ≠ root) (hn : t.nodeName node = .ok name) :
    ∃ t', climb (turns + 3) t (some p) [] = .ok (t', if name.getD [] = [] then [] else [name.getD []]) := by
  obtain ⟨_ | up, hup⟩ := h.parent
  · have hroot := (volumeRoot_iff hp h).2 hup
    rw [← getName_node hp h, hroot.getName] at hn
    cases hn
    exact ⟨t, hroot.climb (succ_pos _) []⟩
  have hmade := nodeParent_madeUp hup
  rw [climb_up h he hp hne (by decide : [].length < 256) hn hup]
  refine hmade.alloc.climb (he.ext (ext_alloc t hmade.volumeNode.not_devfs)) (alloc_same t up) (ne_of_gt he.lt) ?_
  split
  · exact zero_lt_succ _
  · exact (by decide : 1 < 256)

theorem VolumeNode.buildPath {name : Option Name} (h : VolumeNode t node)
    (he : Env s t root) (hp : t.inodes p = some ⟨n, node⟩) (hne : p ≠ root)
    (hn : t.nodeName node = .ok name) : ∃ t', t.buildPath p pathMax =
      .ok (t', joinPath pathMax (if name.getD [] = [] then [] else [name.getD []]) [slash]) := by
  obtain ⟨turns, hturns⟩ : ∃ k, t.climbTurns = k + 3 := by
    refine ⟨t.climbTurns - 3, ?_⟩
    unfold climbTurns
    omega
  obtain ⟨t', ht'⟩ := h.climb turns he hp hne hn
  refine ⟨t', ?_⟩
  unfold Vfs.buildPath
  rw [he.isRoot, if_neg (fun hc => hne (Option.some.inj hc).symm), hturns, ht']
  rfl

theorem buildPath_bind (he : Env s t root) (hne : p ≠ root) (maxLen : Nat) :
    ∃ g, t.buildPath p maxLen = (t.getName p nameMax).bind g := by
  obtain ⟨turns, hturns⟩ := exists_eq_succ_of_ne_zero (ne_of_gt t.climbTurns_pos)
  unfold Vfs.buildPath
  rw [he.isRoot, if_neg (fun hc => hne (Option.some.inj hc).symm), hturns, Vfs.climb,
    if_neg (climb_goes he hne (by decide : [].length < 256)), Res.bind_assoc]
  exact ⟨_, rfl⟩

theorem walkStep_found {t' : Vfs} {r : Option Nat} (he : Env s t root)
    (hm : s.mounts = []) (hc : Component c) (hp : t.inodes p = some ⟨n, dir⟩) (hdev : ∀ mode e, dir ≠ .devfs mode e)
    (hw : t.walkStep (some p) c = .ok (t', some r)) : ∃ i node, r = some i ∧ i ≠ root ∧ NodeFound s c dir node ∧
      t'.inodes i = some ⟨1, node⟩ ∧ Env s t' root := by
  rw [walkStep_name hc.ne_dot hc.ne_dotDot] at hw
  obtain ⟨⟨u, path⟩, hpath, hrest⟩ := bind_ok hw
  have hext := currentPath_ext hpath
  have heu := he.ext hext
  have hnone : (if path = [] then none else u.checkMountPoints path) = none := by
    split
    · rfl
    · unfold checkMountPoints
      rw [heu.mounts, hm]
      rfl
  have hpu : u.inodes p = some ⟨n, dir⟩ := (hext.old p (he.alive_lt hp)).trans hp
  simp only [hnone] at hrest
  obtain ⟨⟨u', q⟩, hl, hlast⟩ := bind_ok hrest
  obtain ⟨t₃, hu, hend⟩ := bind_ok hlast
  have hfound : (∃ node, NodeFound u c dir node ∧ u' = u.allocInode node ∧ q = some u.nextInode) ∨ q = none := by
    rcases lookupOp_cases hl with ⟨m, node, hi, -, hnone | hfound⟩ | ⟨m, mode, e, hi, -⟩ <;> rw [hpu] at hi <;> cases hi
    · exact .inr hnone
    · exact .inl hfound
    · exact absurd rfl (hdev mode e)
  rcases hfound with ⟨node, hnf, rfl, rfl⟩ | rfl
  · cases hend
    obtain ⟨h1, h2, h3, h4, h5, h6⟩ := inodeUnref_frame hu
    have hlt := heu.alive_lt hpu
    have hea := heu.ext (ext_alloc u hnf.volumeNode.not_devfs)
    refine ⟨u.nextInode, node, rfl, ne_of_gt heu.lt, hnf.congr heu.fats.symm heu.exfats.symm, ?_, ?_⟩
    · rw [h1 _ hlt.ne']
      exact alloc_same u node
    refine ⟨h5.trans hea.isRoot, h2.trans hea.mounts, h3.trans hea.fats, h4.trans hea.exfats, fun x hx => ?_, ?_⟩
    · rw [h6] at hx
      have hx' : u.nextInode + 1 ≤ x := hx
      rw [h1 x (by omega)]
      exact hea.fresh x hx
    · rw [h6]
      exact hea.lt
  · cases hend

theorem walkComps_found (hm : s.mounts = []) :
    ∀ {cs : List Name} {t t' : Vfs} {p n : Nat} {dir : VNode} {r : Option Nat},
    Env s t root → (∀ c ∈ cs, Component c) → t.inodes p = some ⟨n, dir⟩ → (∀ mode e, dir ≠ .devfs mode e) → cs ≠ [] →
    walkComps cs t (some p) = .ok (t', some r) → ∃ i node dir' c, r = some i ∧ i ≠ root ∧ NodeFound s c dir' node ∧
      t'.inodes i = some ⟨1, node⟩ ∧ Env s t' root ∧ Component c ∧ ∀ d, cs = [d] → dir' = dir
  | [], t, t', p, n, dir, r, _, _, _, _, hne, _ => absurd rfl hne
  | [c], t, t', p, n, dir, r, he, hc, hp, hdev, _, hw => by
    obtain ⟨⟨t₁, q⟩, hstep, hw⟩ := bind_ok hw
    cases q with
    | none => cases hw
    | some q =>
      obtain ⟨i, node, rfl, h2, h3, h4, h5⟩ := walkStep_found he hm (hc c (.head _)) hp hdev hstep
      cases hw
      exact ⟨i, node, dir, c, rfl, h2, h3, h4, h5, hc c (.head _), fun _ _ => rfl⟩
  | c :: d :: cs, t, t', p, n, dir, r, he, hc, hp, hdev, _, hw => by
    obtain ⟨⟨t₁, q⟩, hstep, hw⟩ := bind_ok hw
    cases q with
    | none => cases hw
    | some q =>
      obtain ⟨i, node, rfl, -, h3, h4, h5⟩ := walkStep_found he hm (hc c (.head _)) hp hdev hstep
      obtain ⟨i', node', dir', c', g1, g2, g3, g4, g5, g6, -⟩ := walkComps_found hm h5
        (forall_mem_cons.1 hc).2 h4 h3.volumeNode.not_devfs (cons_ne_nil d cs) hw
      exact ⟨i', node', dir', c', g1, g2, g3, g4, g5, g6, fun _ hx => by cases hx⟩

/-! ## The law -/

theorem sub32_u32_succ (h : n < 2 ^ 32) : sub32 (u32 (n + 1)) 1 = n := by
  unfold sub32 u32
  split <;> omega

theorem Env.ref (h : RootOnly s root) (hi : s.inodes root = some i) (n : Nat) :
    Env s (s.setInode root (some { i with refcount := n })) root := by
  have hlt := lt_of_fresh h.fresh hi
  refine ⟨h.isRoot, rfl, rfl, rfl, fun p hp => ?_, hlt⟩
  have hp' : s.nextInode ≤ p := hp
  rw [setInode_other _ (by omega)]
  exact h.fresh p hp'

theorem pathOf_ne (h : ∀ c ∈ cs, Component c) (hne : cs ≠ []) : ¬ (pathOf cs = [] ∨ pathOf cs = [slash]) := by
  obtain ⟨c, cs, rfl⟩ := exists_cons_of_ne_nil hne
  obtain ⟨b, c', hc⟩ := exists_cons_of_ne_nil (h c (.head _)).ne_nil
  unfold pathOf
  rw [hc]
  rintro (hx | hx)
  · cases hx
  · have := congrArg List.length hx
    simp at this

theorem walk_found {i : Nat} (h : RootOnly s root) (hc : ∀ c ∈ cs, Component c)
    (hlen : (pathOf cs).length < pathMax) (hne : cs ≠ []) (hw : s.walk root (pathOf cs) = .ok (s', some (some i))) :
    ∃ n dir node dir' c, s.inodes root = some ⟨n, dir⟩ ∧ i ≠ root ∧ NodeFound s c dir' node ∧
      s'.inodes i = some ⟨1, node⟩ ∧ Env s s' root ∧ Component c ∧ ∀ d, cs = [d] → dir' = dir := by
  obtain ⟨⟨n, dir⟩, hi⟩ := h.volume.alive
  rw [walk_components (pathOf_ne hc hne) hi, components_pathOf hc hlen] at hw
  have htake : cs.take 256 ≠ [] := by
    obtain ⟨c, cs, rfl⟩ := exists_cons_of_ne_nil hne
    exact cons_ne_nil _ _
  obtain ⟨i', node, dir', c, h1, h2, h3, h4, h5, h6, h7⟩ := walkComps_found h.mounts (Env.ref h hi _)
    (fun c hx => hc c (mem_of_mem_take hx)) (setInode_same _) (h.volume.not_devfs hi) htake hw
  cases h1
  refine ⟨n, dir, node, dir', c, hi, h2, h3, h4, h5, h6, fun d hd => h7 d ?_⟩
  rw [hd]
  rfl

theorem NodeFound.name {x : Name} (hnf : NodeFound s c dir node) (he : Env s s' root) (hc : Component c)
    (hx : s'.nodeName node = .ok (some x)) (hex : ∀ vol f, node = .exfat vol f → slash ∉ x) :
    slash ∉ x ∧ x.length ≤ 254 := by
  rw [he.nodeName] at hx
  cases hnf with
  | @fat vol v g f hv hl =>
    simp only [nodeName, Res.bind, fat_eq hv, Res.ok.injEq] at hx
    refine ⟨?_, Fat32.length_getName hx⟩
    obtain ⟨-, buf, hread, hname⟩ := Fat32.lookup_place hl
    unfold Fat32.getName at hx
    split at hx
    · cases hx
      exact not_mem_nil
    · rw [hread, map_some, hname] at hx
      cases hx
      exact hc.slashFree
  | @exfat vol v g f hv hl =>
    simp only [nodeName, exfat_eq hv] at hx
    exact ⟨hex vol f rfl, Exfat.length_getName hx⟩

theorem objectAt_eq (h : s.inodes p = some i) : s.objectAt (some p) = some i.node.object := by
  unfold objectAt
  simp only [bind_some, h, map_some]

theorem checkMountPoints_nil (h : s.mounts = []) (path : Name) : s.checkMountPoints path = none := by
  unfold checkMountPoints
  rw [h]
  rfl

theorem NodeFound.dotDot {i : Nat} (hnf : NodeFound s c dir node)
    (he : Env s s' root) (hnone : s.mounts = []) (hi : s'.inodes i = some ⟨1, node⟩) (hne : i ≠ root)
    (hmode : dir.mode = Fat32.ftDir) (hroot : ¬ VolumeRoot s' i) :
    ∃ t q, s'.walk i dotDotName = .ok (t, some (some q)) ∧ t.objectAt (some q) = some dir.object := by
  have hi₂ : (s'.setInode i (some ⟨2, node⟩)).inodes i = some ⟨2, node⟩ := setInode_same _
  have hroot₂ : ¬ VolumeRoot (s'.setInode i (some ⟨2, node⟩)) i := fun hv => by
    have hv' := hv.ref hi₂ 1
    refine hroot (hv'.congr ?_ (fun _ _ => rfl) (fun _ _ => rfl))
    rw [hi, setInode_same]
  have hlt := he.alive_lt hi
  have hnf₂ : NodeFound (s'.setInode i (some ⟨2, node⟩)) c dir node := hnf.congr he.fats he.exfats
  obtain ⟨node', hpar, hobj⟩ : ∃ node', (s'.setInode i (some ⟨2, node⟩)).parentOp i =
      .ok ((s'.setInode i (some ⟨2, node⟩)).allocInode node', some s'.nextInode) ∧ node'.object = dir.object := by
    obtain ⟨_ | up, hup⟩ := hnf₂.volumeNode.parent
    · exact absurd ((volumeRoot_iff hi₂ hnf₂.volumeNode).2 hup) hroot₂
    · exact ⟨up, by rw [parentOp_node hi₂ hnf₂.volumeNode, hup]; rfl, hnf₂.parent hmode hup⟩
  have hun : ((s'.setInode i (some ⟨2, node⟩)).allocInode node').inodeUnref (some i) =
      .ok (((s'.setInode i (some ⟨2, node⟩)).allocInode node').setInode i (some ⟨1, node⟩)) := by
    refine inodeUnref_eq (i := ⟨2, node⟩) ?_ (show sub32 2 1 ≠ 0 by decide)
    exact (alloc_other (s'.setInode i (some ⟨2, node⟩)) node' hlt.ne).trans hi₂
  refine ⟨((s'.setInode i (some ⟨2, node⟩)).allocInode node').setInode i (some ⟨1, node⟩), s'.nextInode, ?_, ?_⟩
  · rw [walk_components (by decide) hi]
    have hstep : (s'.setInode i (some ⟨2, node⟩)).walkStep (some i) dotDotName =
        .ok (((s'.setInode i (some ⟨2, node⟩)).allocInode node').setInode i (some ⟨1, node⟩),
          some (some s'.nextInode)) := by
      have hr : (s'.setInode i (some ⟨2, node⟩)).rootInode ≠ some i := by
        show s'.rootInode ≠ some i
        rw [he.isRoot]
        exact fun hx => hne (Option.some.inj hx).symm
      have hm : (s'.setInode i (some ⟨2, node⟩)).mounts = [] := he.mounts.trans hnone
      unfold walkStep
      rw [if_neg (by decide), if_pos rfl]
      simp only [getParentInode, if_neg hr, hm, any_nil, Bool.false_eq_true, if_false, hpar, Res.bind]
      rw [hun]
    show walkComps [dotDotName] (s'.setInode i (some ⟨2, node⟩)) (some i) = _
    unfold walkComps
    rw [hstep]
    rfl
  · rw [objectAt_eq (i := ⟨1, node'⟩)]
    · exact congrArg some hobj
    · rw [setInode_other _ hlt.ne']
      exact alloc_same _ _

theorem joinPath_single (maxLen : Nat) (x : Name) :
    joinPath maxLen [x] [slash] = if maxLen ≤ 1 + x.length + 1 then none else some (slash :: x) := by
  simp [joinPath]

theorem pathOf_single {x : Name} (h : pathOf cs = slash :: x) (hne : cs ≠ []) (hx : slash ∉ x) :
    ∃ d, cs = [d] ∧ x = d := by
  obtain ⟨c, cs, rfl⟩ := exists_cons_of_ne_nil hne
  unfold pathOf at h
  rw [if_neg hne, flatMap_cons, cons_append, List.cons.injEq] at h
  cases cs with
  | nil =>
    rw [flatMap_nil, append_nil] at h
    exact ⟨c, rfl, h.2.symm⟩
  | cons d cs =>
    refine absurd ?_ hx
    rw [← h.2]
    exact mem_append_right _ (mem_append_left _ (.head _))

/-- **Path reconstruction**: for an inode reached by an absolute path on a volume mounted as the root, the path that
`vfs_build_path` gives and the directories that dot-dot leads to are right exactly if the path is `/`, or has one
component and the file system gives the inode that name.  On exFAT the name it gives must have no slash. -/
theorem pathRight_iff {s s' : Vfs} {root i : Nat} {cs : List Name} (h : RootOnly s root) (hc : ∀ c ∈ cs, Component c)
    (hlen : (pathOf cs).length < pathMax) (hw : s.walk root (pathOf cs) = .ok (s', some (some i)))
    (hex : ∀ n vol f name, s'.inodes i = some ⟨n, .exfat vol f⟩ → s'.getName i nameMax = .ok (some name) →
      slash ∉ name) : PathRight s s' root i cs ↔ cs = [] ∨ ∃ c, cs = [c] ∧ s'.getName i nameMax = .ok (some c) := by
  obtain ⟨ri, hri⟩ := h.volume.alive
  obtain ⟨t₀, ht₀, ho₀⟩ := walk_root (checkMountPoints_nil h.mounts _) h.isRoot hri root
  by_cases hnil : cs = []
  · subst hnil
    have hpath : pathOf [] = [slash] := rfl
    rw [hpath, ht₀] at hw
    cases hw
    refine ⟨fun _ => .inl rfl, fun _ => ⟨⟨s', ?_⟩, fun k hk => ?_⟩⟩
    · have hr : s'.rootInode = some root := by
        unfold walk at ht₀
        rw [checkMountPoints_nil h.mounts, h.isRoot] at ht₀
        simp only [none_or, inodeRef_eq hri] at ht₀
        cases ht₀
        exact h.isRoot
      unfold buildPath
      rw [if_pos hr]
      rfl
    · obtain rfl : k = 0 := le_zero.1 hk
      exact ⟨s', root, s', root, _, rfl, ho₀, ht₀, ho₀⟩
  obtain ⟨n, dir, node, dir', c, hroot, hne, hnf, hi, he, hcomp, hdir⟩ := walk_found h hc hlen hnil hw
  have hnf' : NodeFound s' c dir' node := hnf.congr he.fats he.exfats
  have hget := getName_node hi hnf'.volumeNode
  have hshape : ∀ x, s'.nodeName node = .ok (some x) → slash ∉ x ∧ x.length ≤ 254 := fun x hx =>
    hnf.name he hcomp hx (fun vol f hn => hex 1 vol f x (hn ▸ hi) (hget.trans hx))
  rw [hget]
  constructor
  · rintro ⟨⟨t, hb⟩, -⟩
    obtain ⟨g, hg⟩ := buildPath_bind he hne pathMax
    obtain ⟨name, hname, -⟩ := bind_ok (hg.symm.trans hb)
    rw [hget] at hname
    obtain ⟨t', hb'⟩ := hnf'.volumeNode.buildPath he hi hne hname
    rw [hb] at hb'
    injection hb' with hb'
    have hjoin := (Prod.mk.inj hb').2
    by_cases hx : name.getD [] = []
    · rw [if_pos hx] at hjoin
      exact absurd (.inr (Option.some.inj hjoin)) (pathOf_ne hc hnil)
    obtain ⟨x, rfl⟩ : ∃ x, name = some x := by
      cases name with
      | none => exact absurd rfl hx
      | some x => exact ⟨x, rfl⟩
    obtain ⟨hfree, -⟩ := hshape x hname
    rw [if_neg hx, joinPath_single] at hjoin
    split at hjoin
    · cases hjoin
    · obtain ⟨d, rfl, hd⟩ := pathOf_single (Option.some.inj hjoin) hnil hfree
      exact .inr ⟨d, rfl, hd ▸ hname⟩
  · rintro (hx | ⟨d, rfl, hname⟩)
    · exact absurd hx hnil
    obtain rfl := hdir d rfl
    obtain ⟨hfree, hlen'⟩ := hshape d hname
    have hd := hc d (.head _)
    refine ⟨?_, fun k hk => ?_⟩
    · obtain ⟨t', hb⟩ := hnf'.volumeNode.buildPath he hi hne hname
      refine ⟨t', hb.trans ?_⟩
      rw [getD_some, if_neg hd.ne_nil, joinPath_single, if_neg (by unfold pathMax; omega)]
      simp [pathOf]
    rcases le_one_iff_eq_zero_or_eq_one.1 hk with rfl | rfl
    · exact ⟨s', i, s', i, _, rfl, objectAt_eq hi, hw, objectAt_eq hi⟩
    have hvr : ¬ VolumeRoot s' i := fun hv => by
      rw [← hget, hv.getName] at hname
      cases hname
      exact hd.ne_nil rfl
    obtain ⟨j, hj, hmode⟩ := h.dir
    rw [hroot] at hj
    cases hj
    obtain ⟨t, q, hq, ho⟩ := hnf.dotDot he h.mounts hi hne hmode hvr
    rw [hroot] at hri
    cases hri
    exact ⟨t, q, t₀, root, _, hq, ho, ht₀, ho₀⟩

theorem nested_rootOnly : RootOnly nested 0 where
  isRoot := rfl
  mounts := rfl
  volume := .fat rfl rfl rfl
  dir := ⟨_, rfl, rfl⟩
  fresh p hp := Function.update_of_ne (ne_of_gt hp) ..
  count i hi := by
    cases hi
    exact ⟨by decide, by decide⟩

theorem component_a : ∀ c ∈ [Name.ofString "a"], Component c := by
  intro c hc
  rw [mem_singleton] at hc
  subst hc
  exact ⟨by decide, by decide, by decide, by decide⟩

theorem nested_pathRight_iff : ∃ s' i, nested.walk 0 (pathOf [Name.ofString "a"]) = .ok (s', some (some i)) ∧
    (PathRight nested s' 0 i [Name.ofString "a"] ↔ [Name.ofString "a"] = [] ∨
      ∃ c, [Name.ofString "a"] = [c] ∧ s'.getName i nameMax = .ok (some c)) :=
  ⟨_, _, rfl, pathRight_iff nested_rootOnly component_a (by decide) rfl (fun n vol f name h => by cases h)⟩

set_option maxRecDepth 8000 in
/-- The path of `/a/b` comes out as `/b`; two times dot-dot from `/a/b/c` leads to the root, not to `/a`. -/
theorem nested_path_lost : (∃ s' i, nested.walk 0 (Name.ofString "/a/b") = .ok (s', some (some i)) ∧
      (∃ t, s'.buildPath i pathMax = .ok (t, some (Name.ofString "/b"))) ∧
      ¬ PathRight nested s' 0 i [Name.ofString "a", Name.ofString "b"]) ∧
    ∃ s' i t q, nested.walk 0 (Name.ofString "/a/b/c") = .ok (s', some (some i)) ∧
      s'.dotDots i 2 = .ok (t, some (some q)) ∧ t.objectAt (some q) = some (.fatDir 0 2) := by
  refine ⟨⟨_, _, rfl, ⟨_, rfl⟩, ?_⟩, _, _, _, _, rfl, rfl, rfl⟩
  rintro ⟨⟨t, h⟩, -⟩
  cases h

end Vfs

end OS64
