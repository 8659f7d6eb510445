import OS64.ExfatRead
/-!
# ExfatWrite — the clusters `exfat_write` collects, and what it puts into them

The clusters are those of the chain from the first one to write on, and then the free ones in order (`Gathered`).  A
write that starts behind a non-empty chain takes the first free cluster for the first of the file, and the chain is
lost.
-/
namespace OS64

open List Nat

namespace Exfat

open Fat32 (Geom)

section
variable {v w : Exfat} {inode : ExInode} {l l' ls : List Nat} {c e k n z p : Nat} {s s' : Collect}

theorem Chain.single (hz : v.geom.Index z) (hs : Sound v.geom) : (v.setNext z fatEnd).Chain z [z] := by
  have hc : (v.setNext z fatEnd).fatCache z = fatEnd := by rw [fatCache_setNext, if_pos rfl]
  refine ⟨⟨fatEnd, rfl, offChain_of_index hs hz, ?_, offChain_fatEnd⟩, ?_, ?_⟩
  · rw [nextCluster_of_index (by exact hz), hc]
  · rintro x hx
    obtain rfl := mem_singleton.1 hx
    exact hz
  · rintro x hx
    obtain rfl := mem_singleton.1 hx
    rw [hc]
    decide

theorem Chain.extend (hs : Sound v.geom) (h : v.Chain c (l ++ [p])) (hz : v.geom.Index z)
    (hfree : v.fatCache z = fatFree) : ((v.setNext p z).setNext z fatEnd).Chain c (l ++ [p] ++ [z]) := by
  have hzl : z ∉ l ++ [p] := fun hmem => h.used z hmem hfree
  have hp : p ∈ l ++ [p] := mem_append_right _ (mem_singleton.2 rfl)
  have hpz : p ≠ z := fun hc => hzl (hc ▸ hp)
  have hcache : ∀ x, ((v.setNext p z).setNext z fatEnd).fatCache x =
      if x = z then fatEnd else if x = p then z else v.fatCache x := fun x => by
    rw [fatCache_setNext, fatCache_setNext]
  have hidx : ∀ x ∈ l ++ [p] ++ [z], v.geom.Index x := fun x hx => by
    rcases mem_append.1 hx with hx | hx
    · exact h.index x hx
    · rwa [mem_singleton.1 hx]
  obtain ⟨e, he⟩ := h.trail
  have htail : Trail ((v.setNext p z).setNext z fatEnd).nextCluster offChain z [z] fatEnd := by
    refine ⟨rfl, offChain_of_index hs hz, ?_, offChain_fatEnd⟩
    rw [nextCluster_of_index (by exact hz), hcache, if_pos rfl]
  refine ⟨⟨fatEnd, Trail.join ?_ htail (fun x hx hxp => ?_) he⟩, hidx, fun x hx => ?_⟩
  · rw [nextCluster_of_index (by exact h.index p hp), hcache, if_neg hpz, if_pos rfl]
  · have hxm : x ∈ l ++ [p] := mem_append_left _ hx
    rw [nextCluster_of_index (by exact h.index x hxm), nextCluster_of_index (h.index x hxm), hcache,
      if_neg (fun hc : x = z => hzl (hc ▸ hxm)), if_neg hxp]
  · rw [hcache]
    split
    · decide
    split
    · exact fun hc => by
        have := hz.1
        unfold fatFree at hc
        omega
    · rename_i hxz hxp
      rcases mem_append.1 hx with hx | hx
      · exact h.used x hx
      · exact absurd (mem_singleton.1 hx) hxz

theorem freeClusters_single {F : List Nat} (h : v.freeClusters = z :: F) : (v.setNext z fatEnd).freeClusters = F := by
  refine freeClusters_tail (geom_setNext ..) h (fun x _ => ?_)
  rw [fatCache_setNext]
  by_cases hx : x = z
  · simp [hx, show fatEnd ≠ fatFree by decide]
  · simp [hx]

theorem freeClusters_extend {F : List Nat} (h : v.freeClusters = z :: F) (hp : v.fatCache p ≠ fatFree) :
    ((v.setNext p z).setNext z fatEnd).freeClusters = F := by
  have hz : 2 ≤ z := (mem_freeClusters.1 (h ▸ mem_cons_self)).1.1
  refine freeClusters_tail (by rfl) h (fun x _ => ?_)
  rw [fatCache_setNext, fatCache_setNext]
  by_cases hx : x = z
  · simp [hx, show fatEnd ≠ fatFree by decide]
  rw [if_neg hx]
  by_cases hxp : x = p
  · have hz0 : z ≠ fatFree := by
      unfold fatFree
      omega
    subst hxp
    simp [hp, hz0]
  · simp [hx, hxp]

structure Carried (v : Exfat) (inode : ExInode) (s : Collect) : Prop where
  geom : s.vol.geom = v.geom
  dev : s.vol.dev = v.dev
  inode : s.inode = { inode with firstCluster := s.inode.firstCluster }

/-- The chain that new clusters are added to, when cluster `k` of the chain is the first one to write. -/
def base (l : List Nat) (k : Nat) : List Nat := if k < l.length then l else []

/-- The state of the collecting loop: on the chain, or taking free clusters. -/
inductive Gathering (v : Exfat) (inode : ExInode) (l : List Nat) (k e : Nat) (s : Collect) : Prop
  | walking (j : Nat) (vol : s.vol = v) (same : s.inode = inode) (clusters : s.clusters = (l.drop k).take j)
      (trail : Trail v.nextCluster offChain s.cluster ((l.drop k).drop j) e) (le : j ≤ (l.drop k).length)
  | growing (news : List Nat) (z : Nat) (carried : Carried v inode s)
      (clusters : s.clusters = l.drop k ++ (news ++ [z]))
      (free : v.freeClusters = news ++ [z] ++ s.vol.freeClusters) (stop : offChain s.cluster = true)
      (chain : s.vol.Chain s.inode.firstCluster (base l k ++ (news ++ [z])))

theorem link_first (h : s.clusters = []) (z : Nat) : s.link z =
    { s with vol := s.vol.setNext z fatEnd, inode := { s.inode with firstCluster := z }, clusters := [z] } := by
  unfold Collect.link
  rw [h]
  rfl

theorem link_last (h : s.clusters = ls ++ [p]) (z : Nat) : s.link z =
    { s with vol := (s.vol.setNext p z).setNext z fatEnd, clusters := ls ++ [p] ++ [z] } := by
  unfold Collect.link
  rw [h, List.getLast?_append]
  rfl

theorem Gathering.linked (news : List Nat) {F : List Nat} (hs : Sound v.geom) (hc : Carried v inode s)
    (hp : s.clusters = ls ++ [p])
    (hcl : ls ++ [p] = l.drop k ++ news) (hfree : v.freeClusters = news ++ s.vol.freeClusters)
    (hF : s.vol.freeClusters = z :: F) (hstop : offChain s.cluster = true)
    (hch : s.vol.Chain s.inode.firstCluster (base l k ++ news)) (hlast : ∃ r, base l k ++ news = r ++ [p]) :
    Gathering v inode l k e (s.link z) := by
  obtain ⟨hg, hd, hi⟩ := hc
  obtain ⟨r, hr⟩ := hlast
  have hz := mem_freeClusters.1 (hF ▸ (mem_cons_self : z ∈ z :: F))
  rw [hr] at hch
  have hused : s.vol.fatCache p ≠ fatFree := hch.used p (mem_append_right _ (mem_singleton.2 rfl))
  rw [link_last hp]
  refine .growing news z ⟨hg, hd, hi⟩ ?_ ?_ hstop ?_
  · rw [hcl, append_assoc]
  · rw [hfree, hF, freeClusters_extend hF hused, append_assoc]
    rfl
  · rw [← append_assoc, hr]
    exact hch.extend (by rwa [hg]) hz.1 hz.2

/-- **One turn of the collecting loop.** -/
theorem Gathering.turn (hs : Sound v.geom) (hch : v.Chain inode.firstCluster l)
    (h : Gathering v inode l k e s) (ht : collectTurn s = (s', .next)) :
    Gathering v inode l k e s' ∧ s'.clusters.length = s.clusters.length + 1 := by
  unfold collectTurn at ht
  have hlen : ∀ z, (s.link z).clusters.length = s.clusters.length + 1 := fun z => by
    unfold Collect.link
    split <;> simp
  cases h with
  | walking j hvol hino hcl htrail hle =>
    by_cases hstop : offChain s.cluster = true
    · rw [if_pos hstop] at ht
      split at ht
      · cases ht
      rename_i hnew
      obtain ⟨rfl⟩ : s.link s.vol.newCluster = s' := congrArg Prod.fst ht
      refine ⟨?_, hlen _⟩
      obtain ⟨F, hF⟩ := newCluster_cons hnew
      generalize s.vol.newCluster = z at hF
      -- the walk is over: the clusters are the rest of the chain
      have hend : (l.drop k).drop j = [] := by
        rcases hr : (l.drop k).drop j with _ | ⟨x, r⟩
        · rfl
        · rw [hr] at htrail
          rw [htrail.2.1] at hstop
          cases hstop
      have hall : s.clusters = l.drop k := by
        have := take_append_drop j (l.drop k)
        rw [hend, append_nil] at this
        rw [hcl, this]
      have hcar : Carried v inode s := ⟨by rw [hvol], by rw [hvol], by rw [hino]⟩
      by_cases hin : k < l.length
      · have hlne : l ≠ [] := fun hc => by rw [hc] at hin; exact absurd hin (not_lt_zero k)
        obtain ⟨p, hp⟩ : ∃ p, l.getLast? = some p := ⟨_, List.getLast?_eq_getLast_of_ne_nil hlne⟩
        have hdp : (l.drop k).getLast? = some p := by rw [List.getLast?_drop, if_neg (by omega), hp]
        obtain ⟨r, hr⟩ := List.getLast?_eq_some_iff.1 hp
        obtain ⟨r', hr'⟩ := List.getLast?_eq_some_iff.1 hdp
        refine Gathering.linked [] hs hcar (hall.trans hr') (by rw [append_nil, hr']) (by rw [hvol]; rfl) hF
          hstop ?_ ⟨r, ?_⟩
        · rwa [base, if_pos hin, append_nil, hvol, hino]
        · rw [base, if_pos hin, append_nil, hr]
      · have hnil : s.clusters = [] := by
          rw [hall]
          exact drop_of_length_le (not_lt.1 hin)
        have hz := mem_freeClusters.1 (hF ▸ (mem_cons_self : z ∈ z :: F))
        rw [link_first hnil]
        refine .growing [] z ⟨hcar.geom, hcar.dev, by rw [hino]⟩ ?_ ?_ hstop ?_
        · rw [← hall, hnil]
          rfl
        · rw [freeClusters_single hF, ← hvol, hF]
          rfl
        · rw [base, if_neg hin]
          exact Chain.single hz.1 (by rwa [hvol])
    · rw [if_neg hstop] at ht
      obtain ⟨rfl⟩ := congrArg Prod.fst ht
      rcases hr : (l.drop k).drop j with _ | ⟨x, r⟩
      · rw [hr] at htrail
        rw [htrail.1, htrail.2] at hstop
        exact absurd rfl hstop
      rw [hr] at htrail
      obtain ⟨hx, -, hnext⟩ := htrail
      have hjl : j < (l.drop k).length := by
        have := congrArg List.length hr
        rw [length_drop, length_cons] at this
        omega
      have hget : (l.drop k)[j]? = some x := by
        rw [← add_zero j, ← List.getElem?_drop, hr]
        rfl
      refine ⟨.walking (j + 1) hvol hino ?_ ?_ hjl, by simp⟩
      · rw [take_add_one, hget, hcl, hx]
        rfl
      · rwa [← drop_drop, hr, hvol]
  | growing news y hcar hcl hfree hstop hchain =>
    rw [if_pos hstop] at ht
    split at ht
    · cases ht
    rename_i hnew
    obtain ⟨rfl⟩ : s.link s.vol.newCluster = s' := congrArg Prod.fst ht
    refine ⟨?_, hlen _⟩
    obtain ⟨F, hF⟩ := newCluster_cons hnew
    exact Gathering.linked _ hs hcar (hcl.trans (append_assoc ..).symm) (append_assoc ..) hfree hF hstop hchain
      ⟨base l k ++ news, (append_assoc ..).symm⟩

theorem Gathering.own (h : Gathering v inode l k e s) {x : Nat} (hx : x ∈ s.clusters) :
    x ∈ l ∨ v.fatCache x = fatFree := by
  cases h with
  | walking j hvol hino hcl htrail hle =>
    rw [hcl] at hx
    exact .inl (mem_of_mem_drop (mem_of_mem_take hx))
  | growing news z hcar hcl hfree hstop hchain =>
    rw [hcl] at hx
    rcases mem_append.1 hx with hx | hx
    · exact .inl (mem_of_mem_drop hx)
    · have hmem : x ∈ v.freeClusters := by
        rw [hfree]
        exact mem_append_left _ hx
      exact .inr (mem_freeClusters.1 hmem).2

structure Kept (v : Exfat) (l : List Nat) (s : Collect) : Prop where
  cache : ∀ x, v.fatCache x ≠ fatFree → x ∉ l → s.vol.fatCache x = v.fatCache x
  sector : s.vol.bytesPerSector = v.bytesPerSector

theorem Kept.turn (h : Kept v l s) (hg : Gathering v inode l k e s) (ht : collectTurn s = (s', .next)) :
    Kept v l s' := by
  unfold collectTurn at ht
  split at ht
  · split at ht
    · cases ht
    rename_i hnew
    obtain ⟨rfl⟩ : s.link s.vol.newCluster = s' := congrArg Prod.fst ht
    obtain ⟨F, hF⟩ := newCluster_cons hnew
    generalize s.vol.newCluster = z at hF
    have hz := (mem_freeClusters.1 (hF ▸ (mem_cons_self : z ∈ z :: F))).2
    have hne : ∀ x, v.fatCache x ≠ fatFree → x ∉ l → x ≠ z := by
      rintro x hx hl rfl
      exact hx ((h.cache x hx hl).symm.trans hz)
    unfold Collect.link
    rcases hlast : s.clusters.getLast? with _ | prev
    · refine ⟨fun x hx hl => ?_, h.sector⟩
      exact (fatCache_setNext ..).trans ((if_neg (hne x hx hl)).trans (h.cache x hx hl))
    have hprev := hg.own (mem_of_getLast? hlast)
    refine ⟨fun x hx hl => ?_, h.sector⟩
    have hxp : x ≠ prev := by
      rintro rfl
      exact hprev.elim hl hx
    exact (fatCache_setNext ..).trans ((if_neg (hne x hx hl)).trans
      ((fatCache_setNext ..).trans ((if_neg hxp).trans (h.cache x hx hl))))
  · obtain ⟨rfl⟩ := congrArg Prod.fst ht
    exact ⟨h.cache, h.sector⟩

theorem collectLoop (hs : Sound v.geom) (hch : v.Chain inode.firstCluster l) : ∀ (n i : Nat) {s r : Collect},
    Gathering v inode l k e s → Kept v l s → forLoop (fun _ s => collectTurn s) n i s = (r, none) →
    Gathering v inode l k e r ∧ Kept v l r ∧ r.clusters.length = s.clusters.length + n
  | 0, _, s, r, h, hk, hr => by
    obtain rfl : s = r := congrArg Prod.fst hr
    exact ⟨h, hk, rfl⟩
  | n + 1, i, s, r, h, hk, hr => by
    unfold forLoop at hr
    have hturn : ∀ s', collectTurn s = (s', .next) → Gathering v inode l k e s' ∧
        s'.clusters.length = s.clusters.length + 1 := fun _ ht => h.turn hs hch ht
    have hkept : ∀ s', collectTurn s = (s', .next) → Kept v l s' := fun _ ht => hk.turn h ht
    have hbrk : ∀ s', collectTurn s ≠ (s', .brk) := fun s' hb => by
      unfold collectTurn at hb
      split at hb
      · split at hb <;> cases hb
      · cases hb
    revert hturn hkept hr hbrk
    rcases collectTurn s with ⟨s', _ | _ | a⟩
    · intro hr hturn hkept _
      obtain ⟨h', hlen⟩ := hturn s' rfl
      obtain ⟨hr', hk', hlen'⟩ := collectLoop hs hch n (i + 1) h' (hkept s' rfl) hr
      exact ⟨hr', hk', by omega⟩
    · intro _ _ _ hbrk
      exact absurd rfl (hbrk s')
    · intro hr
      cases hr

def writeClusters (v : Exfat) (l : List Nat) (offset : Nat) : List Nat :=
  l.drop (offset / v.bytesPerCluster) ++ v.freeClusters

/-- `n` clusters are collected from cluster `k` of the chain `l` on, and the chain of the file is `l'` then. -/
structure Gathered (v : Exfat) (inode : ExInode) (l : List Nat) (k n : Nat) (s : Collect) (l' : List Nat) : Prop where
  carried : Carried v inode s
  clusters : s.clusters = (l.drop k ++ v.freeClusters).take n
  length : s.clusters.length = n
  chain : s.vol.Chain s.inode.firstCluster l'
  mem : ∀ x ∈ l', x ∈ l ∨ x ∈ v.freeClusters
  attached : k < l.length ∨ l = [] → l <+: l' ∧ s.clusters = (l'.drop k).take n
  loose : k = l.length → l ≠ [] → l' = s.clusters

/-- **The collecting loop.** -/
theorem collect_gathered (hs : Sound v.geom) (hch : v.Chain inode.firstCluster l) (hk : k ≤ l.length)
    (htrail : Trail v.nextCluster offChain c (l.drop k) e)
    (hr : forLoop (fun _ s => collectTurn s) n 0 ⟨v, inode, [], c⟩ = (s, none)) (hn : 0 < n) :
    (∃ l', Gathered v inode l k n s l') ∧ Kept v l s := by
  obtain ⟨h, hkept, hlen⟩ := collectLoop hs hch n 0
    (.walking 0 rfl rfl (by rw [take_zero]) htrail (zero_le _) : Gathering v inode l k e ⟨v, inode, [], c⟩)
    ⟨fun _ _ _ => rfl, rfl⟩ hr
  refine ⟨?_, hkept⟩
  have hlen : s.clusters.length = n := by rw [hlen]; exact zero_add n
  cases h with
  | walking j hvol hino hcl htrail hle =>
    obtain rfl : j = n := by
      rw [hcl, length_take, min_eq_left hle] at hlen
      exact hlen
    rw [length_drop] at hle
    refine ⟨l, ⟨by rw [hvol], by rw [hvol], by rw [hino]⟩, ?_, hlen, by rwa [hvol, hino],
      fun x hx => .inl hx, fun _ => ⟨prefix_rfl, hcl⟩, fun hkl => absurd hn (by omega)⟩
    rw [hcl, take_append_of_le_length (by rwa [length_drop])]
  | growing news z hcar hcl hfree hstop hchain =>
    have hmem : ∀ x, x ∈ news ++ [z] → x ∈ v.freeClusters := fun x hx => by
      rw [hfree]
      exact mem_append_left _ hx
    refine ⟨base l k ++ (news ++ [z]), hcar, ?_, hlen, hchain, fun x hx => ?_, fun hatt => ?_, fun hkl hne => ?_⟩
    · rw [hfree, ← append_assoc, ← hcl, take_append_of_le_length (by omega), take_of_length_le (by omega)]
    · rcases mem_append.1 hx with hx | hx
      · unfold base at hx
        split at hx
        · exact .inl hx
        · cases hx
      · exact .inr (hmem x hx)
    · have hb : base l k = l := by
        unfold base
        rcases hatt with hatt | rfl
        · rw [if_pos hatt]
        · exact ite_self _
      rw [hb]
      refine ⟨prefix_append .., ?_⟩
      rw [drop_append_of_le_length hk, ← hcl, take_of_length_le (by omega)]
    · rw [hcl, base, if_neg (by omega), drop_of_length_le (by omega)]

end

/-! ## The data -/

section
variable {v w : Exfat} {inode : ExInode} {c d o n x : Nat} {data : Mem}

@[simp] theorem geom_putData (v : Exfat) (c o n : Nat) (data : Mem) : (v.putData c o n data).geom = v.geom := by
  unfold putData
  split <;> simp

@[simp] theorem fatCache_putData (v : Exfat) (c o n : Nat) (data : Mem) :
    (v.putData c o n data).fatCache = v.fatCache := by
  unfold putData
  split <;> simp

theorem content_putData (hs : Sound v.geom) (hc : v.geom.Index c) (hd : v.geom.Index d) (hx : x < v.bytesPerCluster)
    (hn : o + n ≤ v.bytesPerCluster) : (v.putData c o n data).content d x =
      if d = c ∧ v.geom.OnDevice c ∧ o ≤ x ∧ x < o + n then data (x - o) else v.content d x := by
  unfold putData
  by_cases hfull : n = v.bytesPerCluster
  · obtain rfl : o = 0 := by omega
    rw [if_pos hfull]
    exact Clusters.window_of_write (content_writeCluster hs hc hd hx) (fun _ => (if_pos (by omega)).symm)
  · rw [if_neg hfull]
    refine Clusters.window_of_write (content_writeCluster hs hc hd hx) (fun hon => ?_)
    unfold blit
    rw [readCluster_on hs hc hon hx]

structure Put (v w : Exfat) (buf : Mem) (size : Nat) (ls : List Nat) (off done : Nat) : Prop where
  geom : w.geom = v.geom
  cache : w.fatCache = v.fatCache
  filled : Clusters.Filled v.bytesPerCluster v.geom.OnDevice v.geom.Index buf size ls off done v.content w.content

/-- **The data loop.** -/
theorem writeData_put (buf : Mem) (size : Nat) : ∀ (ls : List Nat) (v : Exfat) (off done : Nat), Sound v.geom →
    ls.Nodup → (∀ x ∈ ls, v.geom.Index x) → off < v.bytesPerCluster → done ≤ size →
    Put v (writeData buf size ls v off done).1 buf size ls off done
  | [], _, _, _, _, _, _, _, _ => ⟨rfl, rfl, Clusters.Filled.nil⟩
  | c :: ls, v, off, done, hs, hnd, hidx, hoff, hd => by
    obtain ⟨hcl, hnd'⟩ := nodup_cons.1 hnd
    generalize hn : min (v.bytesPerCluster - off) (size - done) = n
    generalize hw : v.putData c off n (fun o => buf (done + o)) = w
    have hgeom : w.geom = v.geom := by rw [← hw]; simp
    have hbpc := bytes_congr hgeom
    have ih := writeData_put buf size ls w 0 (done + n) (by rwa [hgeom]) hnd'
      (fun x hx => by rw [hgeom]; exact hidx x (.tail _ hx)) (by rw [hbpc]; exact hs.bytes_pos) (by omega)
    have heq : writeData buf size (c :: ls) v off done = writeData buf size ls w 0 (done + n) := by
      simp only [writeData, hn, hw]
    rw [heq]
    refine ⟨ih.geom.trans hgeom, by rw [ih.cache, ← hw]; simp, ?_⟩
    have hfilled := ih.filled
    rw [hbpc, hgeom] at hfilled
    refine Clusters.Filled.cons hidx hcl hoff hd hn (fun d x hd hx => ?_) hfilled
    rw [← hw, content_putData hs (hidx c (.head _)) hd hx (by omega)]

theorem writeData_count (buf : Mem) (size : Nat) : ∀ (ls : List Nat) (v : Exfat) (off done : Nat), Sound v.geom →
    off < v.bytesPerCluster → done ≤ size →
    (writeData buf size ls v off done).2 = min size (done + (ls.length * v.bytesPerCluster - off))
  | [], _, _, _, _, _, hd => by
    simp only [writeData, length_nil]
    omega
  | c :: ls, v, off, done, hs, hoff, hd => by
    have hg := geom_putData v c off (min (v.bytesPerCluster - off) (size - done)) (fun o => buf (done + o))
    have hb : (v.putData c off (min (v.bytesPerCluster - off) (size - done))
      (fun o => buf (done + o))).bytesPerCluster =
        v.bytesPerCluster := congrArg Fat32.Geom.bytesPerCluster hg
    unfold writeData
    rw [writeData_count buf size ls _ 0 _ (by rwa [hg]) (by rw [hb]; exact hs.bytes_pos) (by omega), hb]
    exact Clusters.count_cons hoff hd rfl c

@[simp] theorem bytesPerSector_writeCluster (v : Exfat) (c : Nat) (buf : Mem) :
    (v.writeCluster c buf).bytesPerSector = v.bytesPerSector := by
  unfold writeCluster
  split <;> rfl

theorem bytesPerSector_writeData (buf : Mem) (size : Nat) : ∀ (ls : List Nat) (v : Exfat) (off done : Nat),
    (writeData buf size ls v off done).1.bytesPerSector = v.bytesPerSector
  | [], _, _, _ => rfl
  | c :: ls, v, off, done => by
    unfold writeData
    rw [bytesPerSector_writeData]
    unfold putData
    split <;> exact bytesPerSector_writeCluster ..

@[simp] theorem bytesPerSector_growEntry (v : Exfat) (inode : ExInode) :
    (growEntry v inode).bytesPerSector = v.bytesPerSector := bytesPerSector_writeCluster ..

theorem growEntry_frame (v : Exfat) (inode : ExInode) :
    (growEntry v inode).geom = v.geom ∧ (growEntry v inode).fatCache = v.fatCache := by
  exact ⟨geom_writeCluster .., fatCache_writeCluster ..⟩

theorem content_growEntry (hs : Sound v.geom) (hdir : v.geom.Index inode.dirCluster) (hd : v.geom.Index d)
    (hne : d ≠ inode.dirCluster) (hx : x < v.bytesPerCluster) : (growEntry v inode).content d x = v.content d x := by
  unfold growEntry
  rw [content_writeCluster hs hdir hd hx, if_neg (fun h => hne h.1)]

end

end Exfat

end OS64
