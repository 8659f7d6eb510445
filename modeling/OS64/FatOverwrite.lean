import OS64.FatPersist
import OS64.Vfs
/-!
# FatOverwrite — what a write from the start of a file leaves

A write touches the clusters of the file and free ones, and in the directory the size and time of its entry
(`write_rewritten`).
-/
namespace OS64

open List Nat

namespace Fat32

/-! ## The clusters that a write may use -/

def Held (l : List Nat) (s : Collect) (x : Nat) : Prop := x ∈ l ∨ x ∈ s.clusters

/-- The collecting loop keeps to the file's clusters and to free ones. -/
structure Tame (v : Fat32) (inode : Inode) (l : List Nat) (s : Collect) : Prop where
  geom : s.vol.geom = v.geom
  dev : s.vol.dev = v.dev
  inode : s.inode = { inode with firstCluster := s.inode.firstCluster }
  cache : ∀ x, v.fatCache x ≠ free → x ∉ l → s.vol.fatCache x = v.fatCache x
  index : ∀ x, Held l s x → v.geom.Index x
  own : ∀ x ∈ s.clusters, x ∈ l ∨ v.fatCache x = free
  used : ∀ x, Held l s x → s.vol.fatCache x ≠ free
  closed : ∀ x, Held l s x → offChain (s.vol.nextCluster x) = true ∨ Held l s (s.vol.nextCluster x)
  cursor : offChain s.cluster = true ∨ Held l s s.cluster

section
variable {v w : Fat32} {inode inode' f : Inode} {l : List Nat} {s : Collect} {t : Rtc} {buf : Mem} {n size : Nat}

theorem Chain.closed (h : v.Chain inode.firstCluster l) : ∀ x ∈ l,
    offChain (v.nextCluster x) = true ∨ v.nextCluster x ∈ l := by
  obtain ⟨e, he⟩ := h.trail
  intro x hx
  obtain ⟨l₁, l₂, rfl⟩ := append_of_mem hx
  have hsuffix := Trail.split he
  rcases l₂ with _ | ⟨y, l₂⟩
  · left
    rw [hsuffix.2.2.1]
    exact hsuffix.2.2.2
  · right
    rw [← hsuffix.2.2.1]
    exact mem_append_right _ (.tail _ (.head _))

theorem Tame.start (hch : v.Chain inode.firstCluster l) : Tame v inode l ⟨v, inode, [], inode.firstCluster⟩ where
  geom := rfl
  dev := rfl
  inode := rfl
  cache _ _ _ := rfl
  index x hx := hch.index x (hx.resolve_right not_mem_nil)
  own x hx := absurd hx not_mem_nil
  used x hx := hch.used x (hx.resolve_right not_mem_nil)
  closed x hx := (hch.closed x (hx.resolve_right not_mem_nil)).imp_right .inl
  cursor := by
    obtain ⟨e, he⟩ := hch.trail
    rcases l with _ | ⟨x, l⟩
    · left
      rw [he.1]
      exact he.2
    · right
      rw [← he.1]
      exact .inl (.head _)

theorem Tame.walk (h : Tame v inode l s) (hc : offChain s.cluster = false) :
    Tame v inode l { s with clusters := s.clusters ++ [s.cluster], cluster := s.vol.nextCluster s.cluster } := by
  have hheld : Held l s s.cluster := h.cursor.resolve_left (by rw [hc]; exact Bool.false_ne_true)
  have hback : ∀ x, Held l { s with clusters := s.clusters ++ [s.cluster], cluster := s.vol.nextCluster s.cluster } x →
      Held l s x := by
    rintro x (hx | hx)
    · exact .inl hx
    · rcases mem_append.1 hx with hx | hx
      · exact .inr hx
      · rwa [mem_singleton.1 hx]
  have hforth : ∀ x, Held l s x →
      Held l { s with clusters := s.clusters ++ [s.cluster], cluster := s.vol.nextCluster s.cluster } x :=
    fun x hx => hx.imp_right (mem_append_left _)
  refine ⟨h.geom, h.dev, h.inode, h.cache, fun x hx => h.index x (hback x hx), fun x hx => ?_,
    fun x hx => h.used x (hback x hx), fun x hx => (h.closed x (hback x hx)).imp_right (hforth _),
    (h.closed _ hheld).imp_right (hforth _)⟩
  rcases mem_append.1 hx with hx | hx
  · exact h.own x hx
  · rw [mem_singleton.1 hx]
    rcases hheld with hl | hcl
    · exact .inl hl
    · exact h.own _ hcl

theorem Tame.link (hs : v.geom.Sound) (h : Tame v inode l s) {y : Nat} (hy : v.geom.Index y)
    (hfree : s.vol.fatCache y = free) : Tame v inode l (s.link (s.vol.take y) y) := by
  have hnot : ¬ Held l s y := fun hc => h.used y hc hfree
  have hwas : v.fatCache y = free := by
    by_contra hne
    rw [h.cache y hne (fun hl => hnot (.inl hl))] at hfree
    exact hne hfree
  -- what holds of any volume that has `y` as an end, the link of the cluster before it, and the rest as before
  have hkey : ∀ (u : Fat32) (i : Inode), u.geom = v.geom → u.dev = v.dev →
      i = { inode with firstCluster := i.firstCluster } → u.fatCache y = eoc →
      (∀ x, x ≠ y → u.fatCache x = s.vol.fatCache x ∨ (Held l s x ∧ (x ∈ l ∨ v.fatCache x = free) ∧ u.fatCache x = y)) →
      Tame v inode l ⟨u, i, s.clusters ++ [y], y⟩ := fun u i hg hd hi hmark hrest => by
    have hgu : u.geom.Sound := by rwa [hg]
    have hback : ∀ x, Held l ⟨u, i, s.clusters ++ [y], y⟩ x → Held l s x ∨ x = y := by
      rintro x (hx | hx)
      · exact .inl (.inl hx)
      · rcases mem_append.1 hx with hx | hx
        · exact .inl (.inr hx)
        · exact .inr (mem_singleton.1 hx)
    have hforth : ∀ x, Held l s x → Held l ⟨u, i, s.clusters ++ [y], y⟩ x :=
      fun x hx => hx.imp_right (mem_append_left _)
    have hself : Held l ⟨u, i, s.clusters ++ [y], y⟩ y := .inr (mem_append_right _ (mem_singleton_self y))
    refine ⟨hg, hd, hi, fun x hx hl => ?_, fun x hx => ?_, fun x hx => ?_, fun x hx => ?_, fun x hx => ?_, .inr hself⟩
    · have hxy : x ≠ y := fun hc => hx (hc ▸ hwas)
      rcases hrest x hxy with he | ⟨-, hl' | hf, -⟩
      · exact he.trans (h.cache x hx hl)
      · exact absurd hl' hl
      · exact absurd hf hx
    · rcases hback x hx with hx | rfl
      · exact h.index x hx
      · exact hy
    · rcases mem_append.1 hx with hx | hx
      · exact h.own x hx
      · rw [mem_singleton.1 hx]
        exact .inr hwas
    · rcases hback x hx with hx | rfl
      · rcases hrest x (fun hc => hnot (hc ▸ hx)) with he | ⟨-, -, he⟩
        · rw [he]
          exact h.used x hx
        · rw [he]
          have := hy.1
          unfold free
          omega
      · rw [hmark]
        decide
    · rcases hback x hx with hx | rfl
      · rcases hrest x (fun hc => hnot (hc ▸ hx)) with he | ⟨-, -, he⟩
        · rw [nextCluster_congr (hg.trans h.geom.symm) he]
          exact (h.closed x hx).imp_right (hforth _)
        · rw [nextCluster_link hgu.sized (by rw [hg]; exact h.index x hx) (by rwa [hg]) he]
          exact .inr hself
      · rw [nextCluster_end hmark]
        exact .inl offChain_eoc
  have htake : ∀ x, x ≠ y → (s.vol.take y).fatCache x = s.vol.fatCache x := fun x hx => fatCache_take_ne _ hx
  unfold Collect.link
  rcases hlast : s.clusters.getLast? with _ | prev
  · refine hkey (s.vol.take y) _ (by rw [geom_take, h.geom]) h.dev ?_ (fatCache_take_self _ y)
      (fun x hx => .inl (htake x hx))
    split
    · rw [h.inode]
    · exact h.inode
  have hprev : prev ∈ s.clusters := mem_of_getLast? hlast
  have hpy : prev ≠ y := fun hc => hnot (hc ▸ .inr hprev)
  refine hkey ((s.vol.take y).setNext prev y) s.inode (by rw [geom_setNext, geom_take, h.geom]) h.dev h.inode ?_ ?_
  · rw [fatCache_setNext_ne _ (fun hc => hpy hc.symm)]
    exact fatCache_take_self _ y
  intro x hx
  by_cases hxp : x = prev
  · rw [hxp]
    exact .inr ⟨.inr hprev, h.own prev hprev, fatCache_setNext_self ..⟩
  · rw [fatCache_setNext_ne _ hxp]
    exact .inl (htake x hx)

/-- **One turn of the collecting loop.** -/
theorem Tame.turn (hs : v.geom.Sound) (h : Tame v inode l s) :
    BodyPost (Tame v inode l) (Tame v inode l) (fun _ _ => True) (collectTurn s) := by
  cases hc : offChain s.cluster with
  | false =>
    rw [collectTurn_walk hc]
    exact h.walk hc
  | true =>
    rcases collectTurn_alloc (by rwa [h.geom]) hc with hr | ⟨y, -, hy, hfree, hr⟩
    · rw [hr]
      trivial
    · rw [hr]
      exact h.link hs (by rwa [← h.geom]) hfree

theorem length_collectTurn (s : Collect) : (∃ s', collectTurn s = (s', .next) ∧
    s'.clusters.length = s.clusters.length + 1) ∨ ∃ s', collectTurn s = (s', .ret ()) := by
  unfold collectTurn
  split
  · split
    · exact .inr ⟨_, rfl⟩
    · refine .inl ⟨_, rfl, ?_⟩
      unfold Collect.link
      split <;> simp
  · exact .inl ⟨_, rfl, by simp⟩

theorem collect_tame (hs : v.geom.Sound) (hch : v.Chain inode.firstCluster l)
    (h : forLoop (fun _ s => collectTurn s) n 0 ⟨v, inode, [], inode.firstCluster⟩ = (s, none)) :
    Tame v inode l s ∧ s.clusters.length = n := by
  have hloop := forLoop_rule (f := fun (_ : Nat) s => collectTurn s)
    (fun i s => Tame v inode l s ∧ s.clusters.length = i)
    (Q := fun _ (_ : Unit) => True) n 0 ⟨v, inode, [], inode.firstCluster⟩ ⟨Tame.start hch, rfl⟩
    (fun s hs => by rw [zero_add] at hs; exact hs) ?_
  · rw [h] at hloop
    exact hloop.1 rfl
  rintro i s - - ⟨ht, hlen⟩
  have hturn := ht.turn hs
  rcases length_collectTurn s with ⟨s', hr, hl⟩ | ⟨s', hr⟩
  · rw [hr] at hturn ⊢
    exact ⟨hturn, by rw [hl, hlen]⟩
  · rw [hr]
    trivial

theorem writeData_rest (buf : Mem) (size : Nat) : ∀ (ls : List Nat) (v : Fat32) (off done : Nat), v.geom.Sound →
    (∀ x ∈ ls, v.geom.Index x) → off < v.bytesPerCluster → ∀ d x, d ∉ ls → v.geom.Index d → x < v.bytesPerCluster →
    (writeData buf size ls v off done).1.content d x = v.content d x
  | [], _, _, _, _, _, _, _, _, _, _, _ => rfl
  | c :: ls, v, off, done, hs, hidx, hoff, d, x, hd, hdi, hx => by
    have hc := hidx c (.head _)
    have hg := geom_putData v c off (min (v.bytesPerCluster - off) (size - done)) (fun o => buf (done + o))
    have hb : (v.putData c off (min (v.bytesPerCluster - off) (size - done))
      (fun o => buf (done + o))).bytesPerCluster =
        v.bytesPerCluster := congrArg Geom.bytesPerCluster hg
    unfold writeData
    rw [writeData_rest buf size ls _ 0 _ (by rwa [hg]) (fun y hy => by rw [hg]; exact hidx y (.tail _ hy))
      (by rw [hb]; exact hs.bytes_pos) d x (fun h => hd (.tail _ h)) (by rwa [hg]) (by rwa [hb]),
      content_putData hs hc hdi hx (by omega)]
    refine if_neg ?_
    rintro ⟨rfl, -⟩
    exact hd (.head _)

/-! ## What a write from the start leaves -/

/-- Byte `x` of a cluster is not in the fields that an update of the entry of `f` changes. -/
def Untouched (f : Inode) (d x : Nat) : Prop :=
  d ≠ f.dirCluster ∨ x < f.entryOffset + 22 ∨ (f.entryOffset + 26 ≤ x ∧ x < f.entryOffset + 28) ∨ f.entryOffset + 32 ≤ x

/-- **The volume after `size` bytes were written from the start of the file `f`** with the clusters `l`: the other
clusters in use are as before, but for the size and the time in the file's entry. -/
structure Rewritten (v w : Fat32) (f : Inode) (l : List Nat) (size : Nat) : Prop where
  geom : w.geom = v.geom
  cache : ∀ x, v.fatCache x ≠ free → x ∉ l → w.fatCache x = v.fatCache x
  content : ∀ d x, v.geom.Index d → v.fatCache d ≠ free → d ∉ l → x < v.bytesPerCluster → Untouched f d x →
    w.content d x = v.content d x
  entry : v.geom.OnDevice f.dirCluster → f.entryOffset + 32 ≤ v.bytesPerCluster →
    entSize (w.content f.dirCluster) f.entryOffset =
      if f.size < size then size else entSize (v.content f.dirCluster) f.entryOffset

theorem Rewritten.sync (h : Rewritten v w f l size) (hs : v.geom.Sound) (hlay : Layout v) :
    Rewritten v w.sync f l size := by
  have hcon : ∀ d, w.sync.content d = w.content d :=
    fun d => funext (content_sync (by rwa [h.geom]) (hlay.congr h.geom) d)
  refine ⟨by rw [geom_sync, h.geom], fun x hx hl => by rw [fatCache_sync]; exact h.cache x hx hl,
    fun d x hd hu hl hx hap => ?_, fun hon hoff => ?_⟩
  · rw [hcon]
    exact h.content d x hd hu hl hx hap
  · rw [hcon]
    exact h.entry hon hoff

theorem entSize_growEntry (inode : Inode) (hs : v.geom.Sound) (hdir : v.geom.Index inode.dirCluster)
    (hon : v.geom.OnDevice inode.dirCluster) (hoff : inode.entryOffset + 32 ≤ v.bytesPerCluster)
    (hsize : inode.size < 2 ^ 32) :
    entSize ((growEntry t v inode).content inode.dirCluster) inode.entryOffset = inode.size := by
  have hload : entSize ((growEntry t v inode).content inode.dirCluster) inode.entryOffset =
      load (store ((v.readCluster inode.dirCluster).getD blank) (inode.entryOffset + 28) 4 inode.size)
        (inode.entryOffset + 28) 4 := by
    refine load_congr (fun i hi => ?_)
    unfold growEntry
    rw [content_writeCluster hs hdir hdir (show inode.entryOffset + 28 + i < v.bytesPerCluster by omega),
      if_pos ⟨rfl, hon⟩, setWritten_apart (by omega)]
  rw [hload, load_store]
  exact mod_eq_of_lt hsize

theorem Rewritten.rfl' (v : Fat32) (f : Inode) (l : List Nat) : Rewritten v v f l 0 :=
  ⟨rfl, fun _ _ _ => rfl, fun _ _ _ _ _ _ _ => rfl, fun _ _ => (if_neg (not_lt_zero _)).symm⟩

/-- **What a write from the start leaves.** -/
theorem write_rewritten (hs : v.geom.Sound) (hf : FileOk v f l) (hn : n < 2 ^ 32) {k : Nat}
    (hw : v.write t f 0 buf n = .ok (w, inode', some k)) :
    k = n ∧ Rewritten v w f l n ∧ inode'.size = max f.size n := by
  rcases Nat.eq_zero_or_pos n with rfl | hpos
  · cases hw
    exact ⟨rfl, Rewritten.rfl' _ _ l, (Nat.max_zero _).symm⟩
  obtain ⟨s, c, hskip, hloop, hk, hino, hvol⟩ := write_loop hs hf.chain (Nat.zero_le _) hpos hn hw
  obtain rfl : f.firstCluster = c := by
    unfold writeSkip at hskip
    simpa using hskip
  obtain ⟨htame, hlen⟩ := collect_tame hs hf.chain hloop
  have hb : 0 < v.bytesPerCluster := hs.bytes_pos
  have hsv : s.vol.geom.Sound := by rwa [htame.geom]
  have hsb := bytes_congr htame.geom
  have hidx : ∀ x ∈ s.clusters, s.vol.geom.Index x := fun x hx => by rw [htame.geom]; exact htame.index x (.inr hx)
  rw [Nat.zero_div, Nat.sub_zero, Nat.zero_add] at hlen
  have hkn : k = n := by
    rw [hk, writeData_count buf n s.clusters s.vol _ 0 hsv (by rw [hsb]; exact Nat.mod_lt _ hb) (Nat.zero_le _),
      hlen, hsb, Nat.zero_mod, Nat.succ_mul]
    have := Nat.div_add_mod' (n - 1) v.bytesPerCluster
    have := Nat.mod_lt (n - 1) hb
    omega
  obtain ⟨hg, hc⟩ := writeData_frame buf n s.clusters s.vol (0 % v.bytesPerCluster) 0
  have hrest := writeData_rest buf n s.clusters s.vol (0 % v.bytesPerCluster) 0 hsv hidx
    (by rw [hsb]; exact Nat.mod_lt _ hb)
  generalize writeData buf n s.clusters s.vol (0 % v.bytesPerCluster) 0 = r at hvol hg hc hrest
  have hgr : r.1.geom = v.geom := hg.trans htame.geom
  have hsr : r.1.geom.Sound := by rwa [hgr]
  have hrb := bytes_congr hgr
  have hu : u64 (0 + k) = n := by
    rw [Nat.zero_add, hkn]
    exact u64_of_lt (by omega)
  have hfsize : s.inode.size = f.size := by rw [htame.inode]
  rw [hu, hfsize] at hino hvol
  have hplace : inode'.dirCluster = f.dirCluster ∧ inode'.entryOffset = f.entryOffset := by
    rw [hino, htame.inode]
    exact ⟨rfl, rfl⟩
  -- a cluster in use that is not the file's is not written
  have hold : ∀ d x, v.geom.Index d → v.fatCache d ≠ free → d ∉ l → x < v.bytesPerCluster →
      r.1.content d x = v.content d x := fun d x hd hused hl hx => by
    rw [hrest d x (fun hmem => ?_) (by rwa [htame.geom]) (by rwa [hsb])]
    · unfold content
      rw [htame.dev, htame.geom]
    · rcases htame.own d hmem with h | h
      · exact hl h
      · exact hused h
  have hsize : inode'.size = max f.size n := by rw [hino]
  refine ⟨hkn, ?_, hsize⟩
  by_cases hgrow : f.size < n
  · rw [if_pos hgrow] at hvol
    subst hvol
    refine ⟨by rw [geom_growEntry, hgr], fun x hx hl => ?_, fun d x hd hused hl hx hap => ?_, fun hon hoff => ?_⟩
    · rw [fatCache_growEntry, hc]
      exact htame.cache x hx hl
    · rw [content_growEntry_apart hsr (by rw [hgr, hplace.1]; exact hf.dirIndex) (by rwa [hgr])
        (by rwa [hrb]) (by rwa [hplace.1, hplace.2])]
      exact hold d x hd hused hl hx
    · have hent := entSize_growEntry (t := t) inode' hsr (by rw [hgr, hplace.1]; exact hf.dirIndex)
        (by rwa [hgr, hplace.1]) (by rwa [hrb, hplace.2]) (by omega)
      rw [hplace.1, hplace.2] at hent
      rw [if_pos hgrow]
      omega
  · rw [if_neg hgrow] at hvol
    subst hvol
    refine ⟨hgr, fun x hx hl => ?_, fun d x hd hused hl hx _ => hold d x hd hused hl hx, fun hon hoff => ?_⟩
    · rw [hc]
      exact htame.cache x hx hl
    · rw [if_neg hgrow]
      exact load_congr (fun i hi => hold _ _ hf.dirIndex hf.dirUsed hf.dirApart (by omega))

end

end Fat32

end OS64
