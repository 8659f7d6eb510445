import OS64.FatRead
/-!
# FatWrite — the clusters `fat32_write` collects, and the data it puts there

The collecting loop walks what is left of the chain and then allocates.  A new cluster becomes the cursor, so the turn
after an allocation collects the same cluster once more: every second turn behind the end of the chain allocates, and
the chain grows by half of what was asked for (`Grown`).  The first new cluster is linked to the cluster collected
before it, or becomes the file's first; when the write starts right behind a chain that is not empty, nothing leads to
it.
-/
namespace OS64

open List Nat

namespace Fat32

section
variable {v : Fat32} {inode : Inode} {l : List Nat} {k c e : Nat} {s : Collect}

theorem writeSkip_trail (inode : Inode) : ∀ {n : Nat} {l : List Nat} {c : Nat}, Trail v.nextCluster offChain c l e →
    n ≤ l.length → ∃ c', writeSkip n v inode c = .ok (v, inode, some c') ∧ Trail v.nextCluster offChain c' (l.drop n) e
  | 0, l, c, h, _ => ⟨c, rfl, h⟩
  | n + 1, [], _, _, hn => absurd hn (not_succ_le_zero n)
  | n + 1, x :: l, c, h, hn => by
    unfold writeSkip
    rw [h.2.1]
    exact writeSkip_trail inode h.2.2 (le_of_succ_le_succ hn)

/-- After `c` turns that all walked the chain, from its cluster number `k` on. -/
structure Walked (v : Fat32) (inode : Inode) (l : List Nat) (k e c : Nat) (s : Collect) : Prop where
  vol : s.vol = v
  inode : s.inode = inode
  clusters : s.clusters = (l.drop k).take c
  trail : Trail v.nextCluster offChain s.cluster (l.drop (k + c)) e

def Attached (k : Nat) (l : List Nat) : Prop := k < l.length ∨ l = []

/-- After `b` turns behind the end of the chain: `news` and last `z` are the clusters allocated. -/
structure Grown (v : Fat32) (inode : Inode) (l : List Nat) (k b : Nat) (s : Collect) (news : List Nat) (z : Nat) :
    Prop where
  geom : s.vol.geom = v.geom
  dev : s.vol.dev = v.dev
  inode : s.inode = { inode with firstCluster := s.inode.firstCluster }
  length : news.length + 1 = (b + 1) / 2
  last : s.clusters.getLast? = some z
  chain : Attached k l → s.vol.Chain s.inode.firstCluster (l ++ news ++ [z])
  loose : ¬ Attached k l → s.vol.Chain s.inode.firstCluster l
  apart : z ∉ l
  index : v.geom.Index z
  mark : s.vol.fatCache z = eoc
  cursor : if b % 2 = 1 then s.cluster = z else offChain s.cluster = true

theorem collectTurn_walk (h : offChain s.cluster = false) : collectTurn s =
    ({ s with clusters := s.clusters ++ [s.cluster], cluster := s.vol.nextCluster s.cluster }, .next) := by
  unfold collectTurn
  rw [h, if_neg Bool.false_ne_true]

theorem collectTurn_alloc (hs : s.vol.geom.Sound) (h : offChain s.cluster = true) :
    collectTurn s = (s, .ret ()) ∨ ∃ z, s.vol.allocCluster = (s.vol.take z, z) ∧ s.vol.geom.Index z ∧
      s.vol.fatCache z = free ∧ collectTurn s = (s.link (s.vol.take z) z, .next) := by
  unfold collectTurn
  rw [h]
  rcases allocCluster_cases hs.sized with ⟨ha, -⟩ | ⟨z, ha, hz, hfree⟩
  · rw [ha]
    exact .inl rfl
  · obtain ⟨z, rfl⟩ : ∃ y, z = y + 1 := ⟨z - 1, by have := hz.1; omega⟩
    rw [ha]
    exact .inr ⟨z + 1, rfl, hz, hfree, rfl⟩

theorem Walked.step (h : Walked v inode l k e c s) (hc : k + c < l.length) :
    ∃ s', collectTurn s = (s', .next) ∧ Walked v inode l k e (c + 1) s' := by
  obtain ⟨hvol, hino, hcl, htrail⟩ := h
  have hdrop : l.drop (k + c) = l.getD (k + c) 0 :: l.drop (k + c + 1) := by
    rw [getD_eq_getElem _ _ hc]
    exact drop_eq_getElem_cons hc
  rw [hdrop] at htrail
  obtain ⟨hx, hoc, htrail⟩ := htrail
  refine ⟨_, collectTurn_walk hoc, hvol, hino, ?_, ?_⟩
  · have htake : (l.drop k).take (c + 1) = (l.drop k).take c ++ [l.getD (k + c) 0] := by
      rw [take_add_one, List.getElem?_drop, List.getElem?_eq_getElem hc, getD_eq_getElem _ _ hc]
      rfl
    simp only [htake, hcl, hx]
  · simp only [hvol]
    exact htrail

theorem Chain.start_ne (h : v.Chain c l) (hl : l ≠ []) : c ≠ 0 := by
  rintro rfl
  obtain ⟨e, he⟩ := h.trail
  cases l with
  | nil => exact hl rfl
  | cons x l =>
    have := he.2.1
    cases this

theorem Collect.link_none {w : Fat32} {z : Nat} (h : s.clusters.getLast? = none) : s.link w z =
    { vol := w, inode := if s.inode.firstCluster = 0 then { s.inode with firstCluster := z } else s.inode,
      clusters := s.clusters ++ [z], cluster := z } := by
  unfold Collect.link
  rw [h]

theorem Collect.link_some {w : Fat32} {y z : Nat} (h : s.clusters.getLast? = some y) : s.link w z =
    { s with vol := w.setNext y z, clusters := s.clusters ++ [z], cluster := z } := by
  unfold Collect.link
  rw [h]

theorem Chain.take (h : v.Chain c l) {z : Nat} (hz : v.fatCache z = free) : (v.take z).Chain c l :=
  h.congr (geom_take v z) (fun x hx => fatCache_take_ne v (fun hc => h.used x hx (hc ▸ hz)))

/-- **Taking a free cluster and linking it behind a chain.** -/
theorem Chain.extend (hs : v.geom.Sized) {y z : Nat} (h : v.Chain c (l ++ [y])) (hz : v.geom.Index z)
    (hfree : v.fatCache z = free) : ((v.take z).setNext y z).Chain c (l ++ [y] ++ [z]) := by
  have hzl : ∀ x ∈ l ++ [y], x ≠ z := fun x hx hc => h.used x hx (hc ▸ hfree)
  have hyl : ∀ x ∈ l, x ≠ y := fun x hx hc => by
    have := h.nodup
    rw [nodup_append] at this
    exact this.2.2 x hx y (by simp) hc
  refine h.append hs (by simp) (Chain.single (by simpa using hs) (by simpa using hz) ?_) (fatCache_setNext_self ..) ?_
  · rw [fatCache_setNext_ne _ (hzl y (by simp)).symm, fatCache_take_self]
  · intro x hx
    rw [fatCache_setNext_ne _ (hyl x hx), fatCache_take_ne _ (hzl x (mem_append_left _ hx))]

theorem Walked.clusters_all (h : Walked v inode l k e (l.length - k) s) : s.clusters = l.drop k := by
  rw [h.clusters, ← length_drop]
  exact take_length

/-- What the first turn behind the end of the chain leaves: cluster `z` was allocated. -/
structure First (v : Fat32) (inode : Inode) (l : List Nat) (k : Nat) (s : Collect) (z : Nat) : Prop where
  alloc : v.allocCluster = (v.take z, z)
  wasFree : v.fatCache z = free
  clusters : s.clusters = l.drop k ++ [z]
  cache : ∀ x, x ∉ l → x ≠ z → s.vol.fatCache x = v.fatCache x
  grown : Grown v inode l k 1 s [] z

theorem First.empty (hs : v.geom.Sound) (hch : v.Chain inode.firstCluster []) {z : Nat}
    (ha : v.allocCluster = (v.take z, z)) (hz : v.geom.Index z) (hfree : v.fatCache z = free)
    (hino : s.inode = inode) (hcl : s.clusters = []) : First v inode [] k (s.link (v.take z) z) z := by
  have hlink := Collect.link_none (w := v.take z) (z := z) (by rw [hcl]; rfl)
  rw [hcl, hino, if_pos (hch.start rfl)] at hlink
  rw [hlink]
  refine ⟨ha, hfree, by rw [drop_nil], fun x _ hx => fatCache_take_ne _ hx, ?_⟩
  have hsingle : (v.take z).Chain z [z] := Chain.single (by simpa using hs.sized) (by simpa using hz)
    (fatCache_take_self v z)
  exact { geom := geom_take v z, dev := rfl, inode := rfl, length := rfl, last := rfl, chain := fun _ => hsingle,
          loose := fun h => absurd (.inr rfl) h, apart := not_mem_nil, index := hz,
          mark := fatCache_take_self v z, cursor := rfl }

theorem First.behind (hch : v.Chain inode.firstCluster l) (hl : l ≠ []) (hk : k = l.length) {z : Nat}
    (ha : v.allocCluster = (v.take z, z)) (hz : v.geom.Index z) (hfree : v.fatCache z = free)
    (hino : s.inode = inode) (hcl : s.clusters = []) : First v inode l k (s.link (v.take z) z) z := by
  have hlink := Collect.link_none (w := v.take z) (z := z) (by rw [hcl]; rfl)
  rw [hcl, hino, if_neg (hch.start_ne hl)] at hlink
  rw [hlink]
  have hnot : ¬ Attached k l := by
    rintro (h | h)
    · omega
    · exact hl h
  refine ⟨ha, hfree, by rw [hk, drop_length], fun x _ hx => fatCache_take_ne _ hx, ?_⟩
  exact { geom := geom_take v z, dev := rfl, inode := rfl, length := rfl, last := rfl,
          chain := fun h => absurd h hnot, loose := fun _ => hch.take hfree,
          apart := fun h => hch.used z h hfree, index := hz, mark := fatCache_take_self v z, cursor := rfl }

theorem First.inside (hs : v.geom.Sound) (hch : v.Chain inode.firstCluster l) (hk : k < l.length) {z : Nat}
    (ha : v.allocCluster = (v.take z, z)) (hz : v.geom.Index z) (hfree : v.fatCache z = free)
    (hino : s.inode = inode) (hcl : s.clusters = l.drop k) : First v inode l k (s.link (v.take z) z) z := by
  obtain ⟨l', y, rfl⟩ : ∃ l' y, l = l' ++ [y] := by
    rcases eq_nil_or_concat l with rfl | ⟨l', y, rfl⟩
    · exact absurd hk (not_lt_zero k)
    · exact ⟨l', y, by simp⟩
  have hdrop : (l' ++ [y]).drop k = l'.drop k ++ [y] := by
    rw [length_append, length_singleton] at hk
    exact drop_append_of_le_length (by omega)
  have hlink := Collect.link_some (w := v.take z) (z := z) (y := y) (by rw [hcl, hdrop]; simp)
  rw [hlink]
  have hyz : z ≠ y := fun h => hch.used y (by simp) (h ▸ hfree)
  refine ⟨ha, hfree, by rw [hcl], fun x hx hxz => ?_, ?_⟩
  · have hxy : x ≠ y := fun h => hx (h ▸ by simp)
    rw [fatCache_setNext_ne _ hxy, fatCache_take_ne _ hxz]
  exact { geom := by simp, dev := rfl, inode := by rw [hino], length := rfl, last := by simp,
          chain := fun _ => by simpa [hino] using hch.extend hs.sized hz hfree, loose := fun h => absurd (.inl hk) h,
          apart := fun h => hch.used z h hfree, index := hz,
          mark := by rw [fatCache_setNext_ne _ hyz, fatCache_take_self], cursor := rfl }

/-- **The first turn behind the end of the chain.** -/
theorem Walked.first (hs : v.geom.Sound) (hch : v.Chain inode.firstCluster l) (hk : k ≤ l.length)
    (h : Walked v inode l k e (l.length - k) s) :
    collectTurn s = (s, .ret ()) ∨ ∃ s' z, collectTurn s = (s', .next) ∧ First v inode l k s' z := by
  have hcl := h.clusters_all
  obtain ⟨hvol, hino, -, htrail⟩ := h
  rw [drop_of_length_le (by omega)] at htrail
  have hoff : offChain s.cluster = true := by
    rw [htrail.1]
    exact htrail.2
  rcases collectTurn_alloc (by rwa [hvol]) hoff with hr | ⟨z, ha, hz, hfree, hr⟩
  · exact .inl hr
  rw [hvol] at ha hz hfree hr
  refine .inr ⟨_, z, hr, ?_⟩
  by_cases hk' : k < l.length
  · exact First.inside hs hch hk' ha hz hfree hino hcl
  · rw [drop_of_length_le (by omega)] at hcl
    cases l with
    | nil => exact First.empty hs hch ha hz hfree hino hcl
    | cons x l => exact First.behind hch (cons_ne_nil x l) (by omega) ha hz hfree hino hcl

theorem Grown.walk {b z : Nat} {news : List Nat} (hs : v.geom.Sound) (h : Grown v inode l k b s news z)
    (hodd : b % 2 = 1) : ∃ s', collectTurn s = (s', .next) ∧ Grown v inode l k (b + 1) s' news z := by
  have hcur := h.cursor
  rw [if_pos hodd] at hcur
  have hoc : offChain s.cluster = false := by
    rw [hcur]
    exact offChain_of_index hs.sized h.index
  refine ⟨_, collectTurn_walk hoc, ?_⟩
  have hlen := h.length
  exact { geom := h.geom, dev := h.dev, inode := h.inode, length := by omega, last := by simp [hcur], chain := h.chain,
          loose := h.loose, apart := h.apart, index := h.index, mark := h.mark,
          cursor := by
            rw [if_neg (by omega)]
            simp only [hcur, nextCluster_end h.mark]
            exact offChain_eoc }

theorem Grown.alloc {b z : Nat} {news : List Nat} (hs : v.geom.Sound) (h : Grown v inode l k b s news z)
    (heven : b % 2 = 0) : collectTurn s = (s, .ret ()) ∨
      ∃ s' y, collectTurn s = (s', .next) ∧ Grown v inode l k (b + 1) s' (news ++ [z]) y := by
  have hcur := h.cursor
  rw [if_neg (by omega)] at hcur
  have hsv : s.vol.geom.Sound := by rwa [h.geom]
  rcases collectTurn_alloc hsv hcur with hr | ⟨y, -, hy, hfree, hr⟩
  · exact .inl hr
  rw [Collect.link_some h.last] at hr
  refine .inr ⟨_, y, hr, ?_⟩
  have hyz : y ≠ z := by
    rintro rfl
    rw [h.mark] at hfree
    exact absurd hfree (by decide)
  have hyl : y ∉ l := fun hy => by
    by_cases ha : Attached k l
    · exact (h.chain ha).used y (by simp [hy]) hfree
    · exact (h.loose ha).used y hy hfree
  have hlen := h.length
  exact {
    geom := by simp [h.geom]
    dev := h.dev
    inode := h.inode
    length := by rw [length_append, length_singleton]; omega
    last := by simp
    chain := fun ha => by
      have hext := (h.chain ha).extend hsv.sized hy hfree
      rwa [append_assoc l news [z]] at hext
    loose := fun ha => (h.loose ha).congr (by simp) (fun x hx => by
      have hxz : x ≠ z := fun hc => h.apart (hc ▸ hx)
      have hxy : x ≠ y := fun hc => hyl (hc ▸ hx)
      exact (fatCache_setNext_ne _ hxz).trans (fatCache_take_ne _ hxy))
    apart := hyl
    index := by rwa [← h.geom]
    mark := by rw [fatCache_setNext_ne _ hyz, fatCache_take_self]
    cursor := by rw [if_pos (by omega)] }

def Collected (v : Fat32) (inode : Inode) (l : List Nat) (k e j : Nat) (s : Collect) : Prop :=
  (k + j ≤ l.length ∧ Walked v inode l k e j s) ∨
  (k + j = l.length + 1 ∧ ∃ z, First v inode l k s z) ∨
  (l.length + 1 < k + j ∧ ∃ news z, Grown v inode l k (k + j - l.length) s news z)

/-- **One turn of the collecting loop.** -/
theorem Collected.step (hs : v.geom.Sound) (hch : v.Chain inode.firstCluster l) (hk : k ≤ l.length) {j : Nat}
    (h : Collected v inode l k e j s) :
    BodyPost (Collected v inode l k e (j + 1)) (fun _ => False) (fun _ _ => True) (collectTurn s) := by
  have hgrown : ∀ news z, Grown v inode l k (k + j - l.length) s news z → l.length < k + j →
      BodyPost (Collected v inode l k e (j + 1)) (fun _ => False) (fun _ _ => True) (collectTurn s) := by
    intro news z hg hlt
    have hsub : k + j - l.length + 1 = k + (j + 1) - l.length := by omega
    rcases mod_two_eq_zero_or_one (k + j - l.length) with hev | hodd
    · rcases hg.alloc hs hev with hr | ⟨s', y, hr, hg'⟩
      · rw [hr]
        trivial
      · rw [hr]
        rw [hsub] at hg'
        exact .inr (.inr ⟨by omega, _, y, hg'⟩)
    · obtain ⟨s', hr, hg'⟩ := hg.walk hs hodd
      rw [hr]
      rw [hsub] at hg'
      exact .inr (.inr ⟨by omega, news, z, hg'⟩)
  rcases h with ⟨hle, hw⟩ | ⟨heq, z, hf⟩ | ⟨hlt, news, z, hg⟩
  · by_cases hlt : k + j < l.length
    · obtain ⟨s', hr, hw'⟩ := hw.step hlt
      rw [hr]
      exact .inl ⟨by omega, hw'⟩
    obtain rfl : j = l.length - k := by omega
    rcases hw.first hs hch hk with hr | ⟨s', z, hr, hf⟩
    · rw [hr]
      trivial
    · rw [hr]
      exact .inr (.inl ⟨by omega, z, hf⟩)
  · refine hgrown [] z ?_ (by omega)
    have hone : k + j - l.length = 1 := by omega
    rw [hone]
    exact hf.grown
  · exact hgrown news z hg (by omega)

/-- **The collecting loop**: it fails for want of a free cluster, or all its turns were taken. -/
theorem collect_cases (hs : v.geom.Sound) (hch : v.Chain inode.firstCluster l) (hk : k ≤ l.length)
    (htrail : Trail v.nextCluster offChain c (l.drop k) e) (n : Nat) :
    LoopPost (Collected v inode l k e n) (fun _ _ => True)
      (forLoop (fun _ s => collectTurn s) n 0 ⟨v, inode, [], c⟩) := by
  refine forLoop_rule (Collected v inode l k e) n 0 _ (.inl ⟨hk, rfl, rfl, rfl, htrail⟩) (fun s h => ?_) ?_
  · rwa [zero_add] at h
  intro j s _ _ h
  have hstep := h.step hs hch hk
  revert hstep
  rcases collectTurn s with ⟨s', _ | _ | a⟩
  · exact id
  · exact False.elim
  · exact id

end

section
variable {v : Fat32} {buf : Mem} {size : Nat}

@[simp] theorem geom_putData (v : Fat32) (c o n : Nat) (data : Mem) : (v.putData c o n data).geom = v.geom := by
  unfold putData
  split <;> simp

@[simp] theorem fatCache_putData (v : Fat32) (c o n : Nat) (data : Mem) :
    (v.putData c o n data).fatCache = v.fatCache := by
  unfold putData
  split <;> simp

theorem content_putData (hs : v.geom.Sound) {c d o n x : Nat} {data : Mem} (hc : v.geom.Index c) (hd : v.geom.Index d)
    (hx : x < v.bytesPerCluster) (hn : o + n ≤ v.bytesPerCluster) : (v.putData c o n data).content d x =
      if d = c ∧ v.geom.OnDevice c ∧ o ≤ x ∧ x < o + n then data (x - o) else v.content d x := by
  unfold putData
  by_cases hfull : n = v.bytesPerCluster
  · obtain rfl : o = 0 := by omega
    rw [if_pos hfull]
    exact Clusters.window_of_write (content_writeCluster hs hc hd hx) (fun _ => (if_pos (by omega)).symm)
  · rw [if_neg hfull]
    refine Clusters.window_of_write (content_writeCluster hs hc hd hx) (fun hon => ?_)
    rw [readCluster_on hs hc hon]
    rfl

structure Put (v w : Fat32) (buf : Mem) (size : Nat) (ls : List Nat) (off done : Nat) : Prop where
  geom : w.geom = v.geom
  cache : w.fatCache = v.fatCache
  filled : Clusters.Filled v.bytesPerCluster v.geom.OnDevice v.geom.Index buf size ls off done v.content w.content

/-- **The data loop.** -/
theorem writeData_put (buf : Mem) (size : Nat) : ∀ (ls : List Nat) (v : Fat32) (off done : Nat), v.geom.Sound →
    ls.Nodup → (∀ x ∈ ls, v.geom.Index x) → off < v.bytesPerCluster → done ≤ size →
    Put v (writeData buf size ls v off done).1 buf size ls off done
  | [], v, off, done, _, _, _, _, hd => ⟨rfl, rfl, Clusters.Filled.nil⟩
  | c :: ls, v, off, done, hs, hnd, hidx, hoff, hd => by
    obtain ⟨hcl, hnd'⟩ := nodup_cons.1 hnd
    generalize hn : min (v.bytesPerCluster - off) (size - done) = n
    generalize hw : v.putData c off n (fun o => buf (done + o)) = w
    have hgeom : w.geom = v.geom := by rw [← hw]; simp
    have hbpc := bytes_congr hgeom
    have ih := writeData_put buf size ls w 0 (done + n) (by rwa [hgeom]) hnd'
      (fun x hx => by rw [hgeom]; exact hidx x (.tail _ hx)) (by rw [hbpc]; exact hs.bytes_pos) (by omega)
    have heq : writeData buf size (c :: ls) v off done = writeData buf size ls w 0 (done + n) := by
      simp only [writeData, hn, hw]
    rw [heq]
    refine ⟨ih.geom.trans hgeom, by rw [ih.cache, ← hw]; simp, ?_⟩
    have hfilled := ih.filled
    rw [hbpc, hgeom] at hfilled
    refine Clusters.Filled.cons hidx hcl hoff hd hn (fun d x hd hx => ?_) hfilled
    rw [← hw, content_putData hs (hidx c (.head _)) hd hx (by omega)]

theorem writeData_count (buf : Mem) (size : Nat) : ∀ (ls : List Nat) (v : Fat32) (off done : Nat), v.geom.Sound →
    off < v.bytesPerCluster → done ≤ size →
    (writeData buf size ls v off done).2 = min size (done + (ls.length * v.bytesPerCluster - off))
  | [], _, _, _, _, _, hd => by
    simp only [writeData, length_nil]
    omega
  | c :: ls, v, off, done, hs, hoff, hd => by
    have hg := geom_putData v c off (min (v.bytesPerCluster - off) (size - done)) (fun o => buf (done + o))
    have hb : (v.putData c off (min (v.bytesPerCluster - off) (size - done))
      (fun o => buf (done + o))).bytesPerCluster =
        v.bytesPerCluster := congrArg Geom.bytesPerCluster hg
    unfold writeData
    rw [writeData_count buf size ls _ 0 _ (by rwa [hg]) (by rw [hb]; exact hs.bytes_pos) (by omega), hb]
    exact Clusters.count_cons hoff hd rfl c

theorem writeData_frame (buf : Mem) (size : Nat) : ∀ (ls : List Nat) (v : Fat32) (off done : Nat),
    (writeData buf size ls v off done).1.geom = v.geom ∧ (writeData buf size ls v off done).1.fatCache = v.fatCache
  | [], _, _, _ => ⟨rfl, rfl⟩
  | c :: ls, v, off, done => by
    obtain ⟨hg, hc⟩ := writeData_frame buf size ls (v.putData c off (min (v.bytesPerCluster - off) (size - done))
      (fun o => buf (done + o))) 0 (done + min (v.bytesPerCluster - off) (size - done))
    exact ⟨hg.trans (geom_putData ..), hc.trans (fatCache_putData ..)⟩

variable {t : Rtc} {inode : Inode}

@[simp] theorem geom_growEntry (t : Rtc) (v : Fat32) (inode : Inode) : (growEntry t v inode).geom = v.geom := by
  unfold growEntry
  simp

@[simp] theorem fatCache_growEntry (t : Rtc) (v : Fat32) (inode : Inode) :
    (growEntry t v inode).fatCache = v.fatCache := by
  unfold growEntry
  simp

theorem content_growEntry (hs : v.geom.Sound) (hdir : v.geom.Index inode.dirCluster) {d x : Nat} (hd : v.geom.Index d)
    (hne : d ≠ inode.dirCluster) (hx : x < v.bytesPerCluster) : (growEntry t v inode).content d x = v.content d x := by
  unfold growEntry
  rw [content_writeCluster hs hdir hd hx, if_neg (fun h => hne h.1)]

end

end Fat32

end OS64
