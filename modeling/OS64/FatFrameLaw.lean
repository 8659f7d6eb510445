import OS64.FatRemove
/-!
# FatFrameLaw — the calls that change a directory, and its other entries

A call goes with the clusters of its directories.  `FrameRight`: the other entries hold the same bytes and are found,
and nothing of a removed entry is left.  `frame_iff` says for which states before the call that comes true.
-/
namespace OS64

open List Nat

namespace Fat32

inductive DirCall
  | create (t : Rtc) (dir : Inode) (l : List Nat) (name : Name) (mode : Nat)
  | unlink (dir : Inode) (l : List Nat) (name : Name)
  | rename (oldDir : Inode) (l₁ : List Nat) (oldName : Name) (newDir : Inode) (l₂ : List Nat) (newName : Name)

def DirCall.Run (v w : Fat32) : DirCall → Prop
  | create t dir _ name mode => ∃ dir' inode, Fat32.create t v dir name mode = .ok (w, dir', some inode)
  | unlink dir _ name => v.unlink dir name = .ok (w, true)
  | rename oldDir _ oldName newDir _ newName => ∃ dir', v.rename oldDir oldName newDir newName = .ok (w, dir', true)

structure DirWell (v : Fat32) (dir : Inode) (l : List Nat) : Prop where
  ok : DirOk v dir l
  wellFormed : WellFormed (v.slot l) (l.length * v.slotCount)

def CName (name : Name) : Prop := ∀ b ∈ name, b ≠ 0#8

/-- The calls looked at: sound directories, a removed entry with a chain, and two directories that share no cluster. -/
def DirCall.Ok (v : Fat32) : DirCall → Prop
  | create _ dir l name _ => DirWell v dir l ∧ CName name ∧ name.length ≤ 255
  | unlink dir l name => DirWell v dir l ∧ ∀ n, FoundAt (v.slot l) (l.length * v.slotCount) name n →
      ∃ f, v.Chain (entCluster (v.slot l n) 0) f
  | rename oldDir l₁ _ newDir l₂ newName => DirWell v oldDir l₁ ∧ DirWell v newDir l₂ ∧ CName newName ∧
      (oldDir.firstCluster ≠ newDir.firstCluster → ∀ x ∈ l₁, x ∉ l₂)

/-- The entries of a directory but those of `gone` hold the same bytes, and a lookup gives them if it did before. -/
structure DirFrame (v w : Fat32) (dir : Inode) (l : List Nat) (gone : Nat → Prop) : Prop where
  bytes : ∀ j, j < l.length * v.slotCount → Live (v.slot l) j → ¬ gone j → SameSlot (w.slot l j) (v.slot l j)
  found : ∀ name m, FoundAt (v.slot l) (l.length * v.slotCount) name m → ¬ gone m →
    ∃ i, w.lookup dir name = .ok (some i) ∧ i.dirCluster = l.getD (m / v.slotCount) 0 ∧
      i.entryOffset = 32 * (m % v.slotCount)

def DirCall.FrameRight (v w : Fat32) : DirCall → Prop
  | create _ dir l _ _ => DirFrame v w dir l (fun _ => False)
  | unlink dir l name => ∀ n, FoundAt (v.slot l) (l.length * v.slotCount) name n →
      DirFrame v w dir l (Owned (v.slot l) n) ∧ NoRest (v.slot l) (w.slot l) n
  | rename oldDir l₁ oldName newDir l₂ _ => ∀ n, FoundAt (v.slot l₁) (l₁.length * v.slotCount) oldName n →
      DirFrame v w oldDir l₁ (Owned (v.slot l₁) n) ∧
      DirFrame v w newDir l₂ (fun j => oldDir.firstCluster = newDir.firstCluster ∧ Owned (v.slot l₁) n j) ∧
      NoRest (v.slot l₁) (w.slot l₁) n

def slotsMarked (v : Fat32) (oldDir newDir : Inode) (l₁ l₂ : List Nat) (n : Nat) : Nat → Mem :=
  if oldDir.firstCluster = newDir.firstCluster then markedSlots (v.slot l₁) (n - v.scanOf l₁ n) n else v.slot l₂

/-- When the other entries are left as they are: `p` is the slot the new entry goes to, `n` the removed entry. -/
def DirCall.FrameFits (v : Fat32) : DirCall → Prop
  | create t _ l name mode => ∀ p, FirstFree (v.slot l) (l.length * v.slotCount) p →
      EntryFits (v.slot l) (l.length * v.slotCount) (fun _ => False) p (lfnEntries name) name
        (mainBytes t name mode v.allocCluster.2)
  | unlink _ l name => ∀ n, FoundAt (v.slot l) (l.length * v.slotCount) name n →
      (∀ j, j < n → ¬ Owned (v.slot l) n j) ∧
      ∀ f, v.Chain (entCluster (v.slot l n) 0) f → ∀ name' m, FoundAt (v.slot l) (l.length * v.slotCount) name' m →
        m ≠ n → ∀ i, i < m / v.slotCount → l.getD i 0 ∉ f
  | rename oldDir l₁ oldName newDir l₂ newName => ∀ n p, FoundAt (v.slot l₁) (l₁.length * v.slotCount) oldName n →
      FirstFree (v.slotsMarked oldDir newDir l₁ l₂ n) (l₂.length * v.slotCount) p →
      EntryFits (v.slot l₂) (l₂.length * v.slotCount)
        (fun j => oldDir.firstCluster = newDir.firstCluster ∧ Owned (v.slot l₁) n j) p (v.scanOf l₁ n) newName
        (setName (v.slot l₁ n) 0 (nameToEntry newName)) ∧
      ∀ j, j < n → Owned (v.slot l₁) n j → n - v.scanOf l₁ n ≤ j ∨
        oldDir.firstCluster = newDir.firstCluster ∧ p ≤ j ∧ j ≤ p + v.scanOf l₁ n

section
variable {v w u : Fat32} {dir : Inode} {l l' : List Nat} {name : Name} {t : Rtc} {mode n m : Nat} {gone : Nat → Prop}

theorem dirFrame_iff (hs : v.geom.Sound) (hg : w.geom = v.geom) (hw : DirOk w dir l) :
    DirFrame v w dir l gone ↔ Kept (v.slot l) (w.slot l) (l.length * v.slotCount) gone := by
  have hpos := slotCount_pos hs
  have hfound : ∀ name m, m < l.length * v.slotCount → ((∃ i, w.lookup dir name = .ok (some i) ∧
      i.dirCluster = l.getD (m / v.slotCount) 0 ∧ i.entryOffset = 32 * (m % v.slotCount)) ↔
      FoundAt (w.slot l) (l.length * v.slotCount) name m) :=
    fun name m hm => found_iff (f := 0) name hg hw hm (mod_lt m hpos)
  exact ⟨fun h => ⟨h.bytes, fun name m hf hn => (hfound name m hf.lt).1 (h.found name m hf hn)⟩,
    fun h => ⟨h.bytes, fun name m hf hn => (hfound name m hf.lt).2 (h.found name m hf hn)⟩⟩

theorem Kept.dirFrame {rest : List Nat} (h : DirOk v dir l) (hg : w.geom = v.geom)
    (hch : w.Chain dir.firstCluster (l ++ rest)) (hk : Kept (v.slot l) (w.slot l) (l.length * v.slotCount) gone) :
    DirFrame v w dir l gone := by
  have hsc := slotCount_geom hg
  refine ⟨hk.bytes, fun name m hf hn => ?_⟩
  have hf' := hk.found name m hf hn
  rw [← hsc] at hf'
  refine ⟨_, lookup_prefix (by rw [hg]; exact h.sound) hch (fun x hx => by rw [hg]; exact h.onDevice x hx) hf', ?_, ?_⟩
  · show l.getD (m / w.slotCount) 0 = _
    rw [hsc]
  · show 32 * (m % w.slotCount) = _
    rw [hsc]

theorem Kept.of_same {d d' : Nat → Mem} {len : Nat} (h : ∀ j, j < len → SameSlot (d' j) (d j)) : Kept d d' len gone :=
  ⟨fun j hj _ _ => h j hj, fun _ _ hf _ => hf.of_head (fun j hj => (h j hj).symm.head)⟩

/-- **A new entry and the others**: `fat32_create` and `fat32_mkdir`. -/
theorem create_frame (h : DirWell v dir l) (hname : CName name) (hlen : name.length ≤ 255) {dir' inode : Inode}
    (hc : create t v dir name mode = .ok (w, dir', some inode)) :
    (DirCall.create t dir l name mode).FrameRight v w ↔ (DirCall.create t dir l name mode).FrameFits v := by
  obtain ⟨rfl, -, u, l', p, old, hp, hat⟩ := create_cases h.ok hc
  have hs := h.ok.sound
  have hb := hp.base h.ok
  have hk := div_lt_of_lt hb.lt
  have hsu : u.geom.Sound := by rwa [hb.geom]
  obtain ⟨first, hcr, -⟩ := createAt_cases hsu (hb.chain.index _ (getD_mem hk)) hat
  have hg : w.geom = v.geom := hcr.geom.trans hb.geom
  have hch := hcr.chain hb.chain
  have hz := nameToEntry_head hname
  cases hp' : hp with
  | inside _ hn hfree hfirst =>
    have hon : v.geom.OnDevice (l.getD (p / v.slotCount) 0) := h.ok.onDevice _ (getD_mem hk)
    have hentry := newEntry_of h.ok hlen hp hon hcr
    have hw := hp.dirOk h.ok hon hg hch
    have hslot : ∀ j o, j ≤ lfnEntries name → o < 32 → w.slot l (p + j) o =
        placed t (v.content (l.getD (p / v.slotCount) 0)) name mode (p % v.slotCount) first
          (32 * (p % v.slotCount + j) + o) := fun j o hj ho => by
      rw [hcr.slots hs hb hon (by have := hentry.lt; omega) ho, if_pos (by omega), Nat.add_sub_cancel_left]
    have hmain : SameSlot (w.slot l (p + lfnEntries name)) (mainBytes t name mode v.allocCluster.2) := fun o ho => by
      rw [hslot _ o le_rfl ho, placed_mainBytes ho]
      unfold mainBytes
      by_cases hm : mode = ftDir
      · rw [hcr.alloc hm]
      · simp only [if_neg hm]
    have hun : ∀ i, 0 < i → i < lfnEntries name → (w.slot l (p + i) 0).toNat &&& 64 = 0 := fun i hi hlt => by
      rw [hslot i 0 hlt.le (by decide)]
      exact placed_unmarked hi hlt hlen
    have hthin : Thinned (v.slot l) (v.slot l) (l.length * v.slotCount) (fun _ => False) :=
      ⟨fun _ _ _ _ _ => rfl, fun _ _ h => h.elim⟩
    have hff : FirstFree (v.slot l) (l.length * v.slotCount) p := ⟨hn.le, fun _ => hfree, hfirst⟩
    refine ((dirFrame_iff hs hg hw).trans (hentry.kept_iff hthin h.wellFormed (fun _ _ h => h.elim) (fun h => h.elim)
      hun hz hmain)).trans ⟨fun hfits q hq => ?_, fun hfits => hfits p hff⟩
    obtain rfl := hq.unique hff
    exact hfits
  | behind z u' hfull hl =>
    have hsc := slotCount_geom hg
    refine iff_of_true ?_ (fun q hq => ?_)
    · refine Kept.dirFrame h.ok hg hch (Kept.of_same (fun j hj o ho => ?_))
      rw [← slot_append (by rwa [hg]) [z] (by rwa [hsc])]
      by_cases hon : v.geom.OnDevice ((l ++ [z]).getD (l.length * v.slotCount / v.slotCount) 0)
      · have hj' : j < (l ++ [z]).length * v.slotCount := hj.trans hb.lt
        rw [hcr.slots hs hb hon hj' ho, if_neg (by omega), hb.kept j o hj ho]
      · exact hcr.slots_off hs hb hon hj ho
    · have hlen : l.length * v.slotCount ≤ q := by
        refine not_lt.1 (fun hlt => ?_)
        exact hfull q hlt (hq.isFree hlt)
      exact ⟨fun j hj hqj _ _ => absurd hj (by omega), fun _ m hm hf => absurd hf.lt (by omega)⟩

section
variable {f : List Nat} (h : DirOk v dir l) (hg : w.geom = v.geom)
  (hcache : ∀ x, w.fatCache x = if x ∈ f then free else v.fatCache x)
include h hg hcache

theorem readable_upTo : Readable w dir (upTo (fun x => decide (x ∈ f)) l) := by
  obtain ⟨e, he⟩ := h.chain.trail
  obtain ⟨rest, hrest⟩ := upTo_prefix (fun x => decide (x ∈ f)) l
  have hsub : ∀ x ∈ upTo (fun x => decide (x ∈ f)) l, x ∈ l := fun x hx => by
    rw [← hrest]
    exact mem_append_left _ hx
  refine ⟨he.upTo offChain_eoc (fun x _ => ?_), ?_, fun k hk => ?_⟩
  · by_cases hx : x ∈ f
    · have hfree : w.fatCache x = free := by rw [hcache, if_pos hx]
      rw [if_pos (by simpa using hx)]
      unfold nextCluster
      rw [hfree]
      split
      · rfl
      · rw [if_neg (by decide), if_pos (.inl rfl)]
    · rw [if_neg (by simpa using hx)]
      exact nextCluster_congr hg (by rw [hcache, if_neg hx])
  · have hle := congrArg List.length hrest
    have hturns := h.chain.turns
    have hentries : w.fatEntries = v.fatEntries := congrArg Geom.fatEntries hg
    rw [length_append] at hle
    unfold turns at hturns ⊢
    omega
  · have hmem := hsub _ (getD_mem hk)
    exact readCluster_on (by rw [hg]; exact h.sound) (by rw [hg]; exact h.chain.index _ hmem)
      (by rw [hg]; exact h.onDevice _ hmem)

/-- **A lookup in what is left of a directory** finds the entries in the clusters that can be reached. -/
theorem found_upTo (hf : FoundAt (w.slot l) (l.length * v.slotCount) name m) :
    (∃ i, w.lookup dir name = .ok (some i) ∧ i.dirCluster = l.getD (m / v.slotCount) 0 ∧
      i.entryOffset = 32 * (m % v.slotCount)) ↔ ∀ i, i < m / v.slotCount → l.getD i 0 ∉ f := by
  have hpos := slotCount_pos h.sound
  have hsc := slotCount_geom hg
  have hsw : w.geom.Sound := by rw [hg]; exact h.sound
  have hmk := div_lt_of_lt hf.lt
  have hread := readable_upTo h hg hcache
  have hlt := @lt_length_upTo (fun x => decide (x ∈ f)) l (m / v.slotCount) hmk
  simp only [decide_eq_false_iff_not] at hlt
  obtain ⟨rest, hrest⟩ := upTo_prefix (fun x => decide (x ∈ f)) l
  rw [← hlt]
  generalize upTo (fun x => decide (x ∈ f)) l = c at hread hrest ⊢
  have hget : ∀ k, k < c.length → c.getD k 0 = l.getD k 0 := fun k hk => by rw [← hrest, getD_append _ _ _ _ hk]
  constructor
  · rintro ⟨i, hi, hplace, -⟩
    rcases hread.lookup name with ⟨hno, -⟩ | ⟨m', hm', hf'⟩
    · rw [hi] at hno
      cases hno
    rw [hi] at hm'
    cases hm'
    have hk : m' / v.slotCount < c.length := by
      have := hf'.lt
      rw [hsc] at this
      exact (div_lt_iff_lt_mul hpos).2 this
    have hkl : m' / v.slotCount < l.length := by
      rw [← hrest, length_append]
      omega
    have hcl : c.getD (m' / w.slotCount) 0 = l.getD (m / v.slotCount) 0 := hplace
    rw [hsc, hget _ hk, getD_eq_getElem _ _ hkl, getD_eq_getElem _ _ hmk, h.chain.nodup.getElem_inj_iff] at hcl
    rwa [← hcl]
  · intro hk
    have hslot : ∀ j, j < c.length * w.slotCount → w.slot l j = w.slot c j := fun j hj => by
      rw [← hrest]
      exact slot_append hsw rest hj
    have hmc : m < c.length * w.slotCount := by
      rw [hsc]
      exact (div_lt_iff_lt_mul hpos).1 hk
    have hf' : FoundAt (w.slot c) (c.length * w.slotCount) name m := by
      have hup : ∀ j, j ≤ m → SameSlot (w.slot l j) (w.slot c j) := fun j hj o _ => by rw [hslot j (by omega)]
      refine ⟨hmc, hf.main.of_same hup, ?_, fun j hj hmj => ?_⟩
      · rw [← hslot m hmc]
        exact hf.name_eq
      · rw [← hslot j (by omega)]
        exact hf.first j hj (hmj.of_same (fun i hi => (hup i (by omega)).symm))
    rcases hread.lookup name with ⟨-, hno⟩ | ⟨m', hm', hf''⟩
    · exact absurd hf'.name_eq (hno m hf'.lt hf'.main)
    obtain rfl := hf'.unique hf''
    refine ⟨_, hm', ?_, ?_⟩
    · show c.getD (m / w.slotCount) 0 = _
      rw [hsc, hget _ hk]
    · show 32 * (m % w.slotCount) = _
      rw [hsc]

end

/-- **A removed entry and the others**: `fat32_unlink` and `fat32_rmdir`. -/
theorem unlink_frame (h : DirWell v dir l) {f : List Nat} (hf : FoundAt (v.slot l) (l.length * v.slotCount) name n)
    (hchain : v.Chain (entCluster (v.slot l n) 0) f) (hr : v.unlink dir name = .ok (w, true)) :
    (DirFrame v w dir l (Owned (v.slot l) n) ∧ NoRest (v.slot l) (w.slot l) n) ↔
      (∀ j, j < n → ¬ Owned (v.slot l) n j) ∧ ∀ name' m, FoundAt (v.slot l) (l.length * v.slotCount) name' m → m ≠ n →
        ∀ i, i < m / v.slotCount → l.getD i 0 ∉ f := by
  have hs := h.ok.sound
  obtain ⟨w', hw', hun⟩ := unlink_cases h.ok hf hchain
  rw [hr] at hw'
  cases hw'
  have hscan := scan_of hs hf.main
  have hsame : ∀ j, j < l.length * v.slotCount →
      SameSlot (w.slot l j) (markedSlots (v.slot l) (n - v.scanOf l n) n j) := fun j hj o ho => hun.slots j o hj ho
  have hkept := Kept.of_marked hscan.own hsame
  have hrest := noRest_marked_iff (fun j hj => hsame j (hj.trans_lt hf.lt))
  have hfound : ∀ name' m, FoundAt (v.slot l) (l.length * v.slotCount) name' m → ¬ Owned (v.slot l) n m →
      ((∃ i, w.lookup dir name' = .ok (some i) ∧ i.dirCluster = l.getD (m / v.slotCount) 0 ∧
        i.entryOffset = 32 * (m % v.slotCount)) ↔ ∀ i, i < m / v.slotCount → l.getD i 0 ∉ f) :=
    fun name' m hm hg => found_upTo h.ok hun.geom hun.cache (hkept.found name' m hm hg)
  have howned : ∀ {name' m}, FoundAt (v.slot l) (l.length * v.slotCount) name' m → (Owned (v.slot l) n m ↔ m = n) :=
    fun hm => ⟨fun ho => ho.eq_of_main hm.main, fun heq => by rw [heq]; exact Owned.self hf.main⟩
  rw [hrest]
  constructor
  · rintro ⟨hframe, hall⟩
    refine ⟨fun j hj hown => ?_, fun name' m hm hne => ?_⟩
    · obtain ⟨z, hzj, hza, hz⟩ := h.wellFormed.first_before hf.lt hscan.unmarked hj hown
      exact absurd (hall z (by omega) hz) (by omega)
    · have hg : ¬ Owned (v.slot l) n m := fun ho => hne ((howned hm).1 ho)
      exact (hfound name' m hm hg).1 (hframe.found name' m hm hg)
  · rintro ⟨hnone, hcl⟩
    refine ⟨⟨hkept.bytes, fun name' m hm hg => ?_⟩, fun j hj hown => absurd hown (hnone j hj)⟩
    exact (hfound name' m hm hg).2 (hcl name' m hm (fun heq => hg ((howned hm).2 heq)))

/-! ## `fat32_rename` -/

variable {oldDir newDir : Inode} {l₁ l₂ : List Nat} {oldName newName : Name} {p : Nat}

theorem FirstFree.congr {d d' : Nat → Mem} {len : Nat} (hsame : ∀ j, j < len → SameSlot (d' j) (d j))
    (h : FirstFree d len p) : FirstFree d' len p := by
  have hle := h.le
  exact ⟨hle, fun hp => (hsame p hp).unused.2 (h.isFree hp),
    fun j hj hu => h.first j hj ((hsame j (by omega)).unused.1 hu)⟩

theorem Moved.copied (hs : v.geom.Sound) (hm : Moved v w newDir l₁ l₂ n newName p) (hp : p < l₂.length * v.slotCount) :
    p + v.scanOf l₁ n < l₂.length * v.slotCount ∧
    (∀ i o, i < v.scanOf l₁ n → o < 32 → o ≠ 13 → w.slot l₂ (p + i) o = v.slot l₁ (n - v.scanOf l₁ n + i) o) ∧
    SameSlot (w.slot l₂ (p + v.scanOf l₁ n)) (setName (v.slot l₁ n) 0 (nameToEntry newName)) := by
  have hpos := slotCount_pos hs
  obtain ⟨hroom, -, hslot⟩ := hm.inside hp
  have hle := scanOf_le v l₁ n
  have hmod := mod_le n v.slotCount
  have hlt : p + v.scanOf l₁ n < l₂.length * v.slotCount := by
    have hk : p / v.slotCount + 1 ≤ l₂.length := (div_lt_iff_lt_mul hpos).2 hp
    have hmul := mul_le_mul_right v.slotCount hk
    have hpd := div_add_mod' p v.slotCount
    rw [succ_mul] at hmul
    omega
  have hcopy : ∀ i o, i ≤ v.scanOf l₁ n → o < 32 → w.slot l₂ (p + i) o =
      renamed (v.savedSlots l₁ n) (v.scanOf l₁ n) newName (32 * i + o) := fun i o hi ho => by
    rw [hslot _ o (by omega) ho, if_pos (by omega), Nat.add_sub_cancel_left]
  refine ⟨hlt, fun i o hi ho h13 => ?_, fun o ho => ?_⟩
  · rw [hcopy i o hi.le ho, renamed_lfn _ _ hi ho h13, savedSlots_eq hs hi.le]
  · have hsaved : (fun o => v.savedSlots l₁ n (32 * v.scanOf l₁ n + o)) = v.slot l₁ n := by
      funext o
      rw [savedSlots_eq hs le_rfl, Nat.sub_add_cancel (by omega)]
    rw [hcopy _ o le_rfl ho, renamed_main _ _ ho, hsaved]

theorem entName_setName (m : Mem) {short : Name} (hlen : short.length = 11) :
    entName (setName m 0 short) 0 = short := by
  refine ext_getElem (by simp [entName, hlen]) (fun i hi hi' => ?_)
  rw [entName_getElem]
  unfold setName
  rw [blit_at _ _ (by omega), getD_eq_getElem _ _ hi']

theorem Moved.newEntry (hs : v.geom.Sound) (hf : FoundAt (v.slot l₁) (l₁.length * v.slotCount) oldName n)
    (hm : Moved v w newDir l₁ l₂ n newName p) (hp : p < l₂.length * v.slotCount) :
    NewEntry ((v.unmade l₁ n).slot l₂) (w.slot l₂) (l₂.length * v.slotCount) p (v.scanOf l₁ n) newName := by
  obtain ⟨hlt, hlfn, hmain⟩ := hm.copied hs hp
  obtain ⟨-, -, hslot⟩ := hm.inside hp
  have hown := (scan_of hs hf.main).own
  have hle := (scan_of hs hf.main).le
  refine ⟨hlt, hm.free.isFree hp, hm.free.first, fun m hmlt hin o ho => ?_, fun i hi => ?_, ?_, ?_, ?_⟩
  · rw [hslot m o hmlt ho, if_neg hin]
  · have hi' := hown.2.2 (n - v.scanOf l₁ n + i) (by omega) (by omega)
    unfold Unused IsLfn entAttr at hi' ⊢
    rwa [hlfn i 0 hi (by decide) (by decide), hlfn i (0 + 11) hi (by decide) (by decide)]
  · rw [hmain.isLfn]
    have hnot := hf.main.2
    unfold IsLfn entAttr at hnot ⊢
    rwa [setName_apart (by omega)]
  · rw [hmain 0 (by decide)]
    exact @blit_at _ (fun k => (nameToEntry newName).getD k 0#8) 0 11 0 (by decide)
  · rw [hmain.shortName]
    unfold shortName
    rw [entName_setName _ (nameToEntry_length newName)]

theorem unmade_apart (h₁ : DirOk v oldDir l₁) (h₂ : DirOk v newDir l₂) (hdis : ∀ x ∈ l₁, x ∉ l₂)
    (hn : n < l₁.length * v.slotCount) {o : Nat} (hm : m < l₂.length * v.slotCount) (ho : o < 32) :
    (v.unmade l₁ n).slot l₂ m o = v.slot l₂ m o := by
  have hpos := slotCount_pos h₁.sound
  have hmem₁ := getD_div_mem hn
  have hmem₂ := getD_div_mem hm
  have hbytes := slotCount_bytes h₁.sound
  have hmm := mod_lt m hpos
  unfold slot
  rw [slotCount_geom (geom_unmade ..)]
  unfold unmade
  rw [content_writeCluster h₁.sound (h₁.chain.index _ hmem₁) (h₂.chain.index _ hmem₂) (by
    show _ < v.bytesPerCluster
    omega), if_neg]
  rintro ⟨hc, -⟩
  exact hdis _ hmem₁ (hc ▸ hmem₂)

/-- **A moved entry and the others, within one directory.** -/
theorem rename_same (h : DirWell v newDir l) (hname : CName newName)
    (hf : FoundAt (v.slot l) (l.length * v.slotCount) oldName n) (hm : Moved v w newDir l l n newName p) :
    (Kept (v.slot l) (w.slot l) (l.length * v.slotCount) (Owned (v.slot l) n) ↔
      EntryFits (v.slot l) (l.length * v.slotCount) (Owned (v.slot l) n) p (v.scanOf l n) newName
        (setName (v.slot l n) 0 (nameToEntry newName))) ∧
    (NoRest (v.slot l) (w.slot l) n ↔ ∀ j, j < n → Owned (v.slot l) n j → n - v.scanOf l n ≤ j ∨
      p ≤ j ∧ j ≤ p + v.scanOf l n) ∧ p < l.length * v.slotCount := by
  have hs := h.ok.sound
  have hscan := scan_of hs hf.main
  have hle := hscan.le
  have hnlt := hf.lt
  have hz := nameToEntry_head hname
  have hdm : ∀ j, j < l.length * v.slotCount →
      SameSlot ((v.unmade l n).slot l j) (markedSlots (v.slot l) (n - v.scanOf l n) n j) :=
    fun j hj o ho => slots_mark hs h.ok.chain.index h.ok.onDevice h.ok.chain.nodup hf.lt hj ho
  -- the marked slots are free, so there is a free slot, and it is none behind them
  have hpn : p ≤ n - v.scanOf l n := by
    refine not_lt.1 (fun hlt => hm.free.first _ hlt (.inr ?_))
    rw [hdm _ (by omega) 0 (by decide)]
    exact markedSlots_deleted ⟨le_rfl, sub_le ..⟩
  have hp : p < l.length * v.slotCount := by omega
  obtain ⟨hlt, hlfn, hmain⟩ := hm.copied hs hp
  have hentry := hm.newEntry hs hf hp
  have hthin : Thinned (v.slot l) ((v.unmade l n).slot l) (l.length * v.slotCount) (Owned (v.slot l) n) := by
    have ht : Thinned (v.slot l) (markedSlots (v.slot l) (n - v.scanOf l n) n) (l.length * v.slotCount)
        (Owned (v.slot l) n) := thinned_marked hscan.own
    refine ⟨fun j hj hg o ho => (hdm j hj o ho).trans (ht.same j hj hg o ho), fun j hj hg => ?_⟩
    rcases ht.gone j hj hg with hsame | hdel
    · exact .inl (fun o ho => (hdm j hj o ho).trans (hsame o ho))
    · exact .inr ((hdm j hj 0 (by decide)).trans hdel)
  have hpgone : Owned (v.slot l) n p → ∀ j, p < j → j ≤ p + v.scanOf l n → Owned (v.slot l) n j := by
    intro hown j hpj hjk
    refine hown.mono hpj.le ?_
    omega
  have hun : ∀ i, 0 < i → i < v.scanOf l n → (w.slot l (p + i) 0).toNat &&& 64 = 0 := fun i _ hi => by
    rw [hlfn i 0 hi (by decide) (by decide)]
    exact hscan.unmarked _ (by omega) (by omega)
  refine ⟨?_, ?_, hp⟩
  · exact hentry.kept_iff hthin h.wellFormed (closed_owned _ _) hpgone hun hz hmain
  · exact hentry.noRest_iff hdm hscan h.wellFormed hf.lt hz (fun i hi => hlfn i 0 hi (by decide) (by decide))

theorem rename_old (h₁ : DirWell v oldDir l₁) (hdis : ∀ x ∈ l₁, x ∉ l₂)
    (hf : FoundAt (v.slot l₁) (l₁.length * v.slotCount) oldName n) (hm : Moved v w newDir l₁ l₂ n newName p) :
    DirFrame v w oldDir l₁ (Owned (v.slot l₁) n) ∧ (NoRest (v.slot l₁) (w.slot l₁) n ↔
      ∀ j, j < n → Owned (v.slot l₁) n j → n - v.scanOf l₁ n ≤ j) := by
  have hs := h₁.ok.sound
  have hpos := slotCount_pos hs
  have hscan := scan_of hs hf.main
  have hsame : ∀ j, j < l₁.length * v.slotCount →
      SameSlot (w.slot l₁ j) (markedSlots (v.slot l₁) (n - v.scanOf l₁ n) n j) := fun j hj o ho => by
    have hmem := getD_div_mem hj
    have hbytes := slotCount_bytes hs
    have hjm := mod_lt j hpos
    rw [← slots_mark hs h₁.ok.chain.index h₁.ok.onDevice h₁.ok.chain.nodup hf.lt hj ho]
    show w.slot l₁ j o = (v.unmade l₁ n).slot l₁ j o
    unfold slot
    rw [slotCount_geom hm.geom, slotCount_geom (geom_unmade ..)]
    exact hm.others _ _ (h₁.ok.chain.index _ hmem) (h₁.ok.chain.used _ hmem) (hdis _ hmem) (by omega)
  have hkept := Kept.of_marked hscan.own hsame
  have hcache : ∀ x ∈ l₁, w.fatCache x = v.fatCache x := fun x hx => by
    rcases lt_or_eq_of_le hm.free.le with hlt | heq
    · rw [(hm.inside hlt).2.1]
    · obtain ⟨z, -, hfree, -, hcache, -⟩ := hm.behind heq
      exact hcache x (hdis x hx) (fun hc => h₁.ok.chain.used x hx (hc ▸ hfree))
  have hch : w.Chain oldDir.firstCluster (l₁ ++ []) := by
    rw [append_nil]
    exact h₁.ok.chain.congr hm.geom hcache
  exact ⟨Kept.dirFrame h₁.ok hm.geom hch hkept, noRest_marked_iff (fun j hj => hsame j (hj.trans_lt hf.lt))⟩

theorem rename_new (h₁ : DirWell v oldDir l₁) (h₂ : DirWell v newDir l₂) (hname : CName newName)
    (hdis : ∀ x ∈ l₁, x ∉ l₂) (hf : FoundAt (v.slot l₁) (l₁.length * v.slotCount) oldName n)
    (hm : Moved v w newDir l₁ l₂ n newName p) : DirFrame v w newDir l₂ (fun _ => False) ↔
      EntryFits (v.slot l₂) (l₂.length * v.slotCount) (fun _ => False) p (v.scanOf l₁ n) newName
        (setName (v.slot l₁ n) 0 (nameToEntry newName)) := by
  have hs := h₁.ok.sound
  have hscan := scan_of hs hf.main
  have hle := hscan.le
  have hz := nameToEntry_head hname
  have hdm : ∀ j, j < l₂.length * v.slotCount → SameSlot ((v.unmade l₁ n).slot l₂ j) (v.slot l₂ j) :=
    fun j hj o ho => unmade_apart h₁.ok h₂.ok hdis hf.lt hj ho
  rcases lt_or_eq_of_le hm.free.le with hp | hp
  · obtain ⟨hlt, hlfn, hmain⟩ := hm.copied hs hp
    have hentry := hm.newEntry hs hf hp
    have hthin : Thinned (v.slot l₂) ((v.unmade l₁ n).slot l₂) (l₂.length * v.slotCount) (fun _ => False) :=
      ⟨fun j hj _ => hdm j hj, fun _ _ h => h.elim⟩
    have hun : ∀ i, 0 < i → i < v.scanOf l₁ n → (w.slot l₂ (p + i) 0).toNat &&& 64 = 0 := fun i _ hi => by
      rw [hlfn i 0 hi (by decide) (by decide)]
      exact hscan.unmarked _ (by omega) (by omega)
    exact (dirFrame_iff hs hm.geom (h₂.ok.congr hm.geom (hm.inside hp).2.1)).trans
      (hentry.kept_iff hthin h₂.wellFormed (fun _ _ h => h.elim) (fun h => h.elim) hun hz hmain)
  · obtain ⟨z, -, -, hch, -, hslot⟩ := hm.behind hp
    refine iff_of_true ?_ ⟨fun j hj hpj _ _ => absurd hj (by omega), fun _ m hpm hfm => absurd hfm.lt (by omega)⟩
    exact Kept.dirFrame h₂.ok hm.geom hch (Kept.of_same (fun j hj o ho => (hslot j o hj ho).trans (hdm j hj o ho)))

/-- **A moved entry and the others**: `fat32_rename`. -/
theorem rename_frame (h₁ : DirWell v oldDir l₁) (h₂ : DirWell v newDir l₂) (hname : CName newName)
    (hdis : oldDir.firstCluster ≠ newDir.firstCluster → ∀ x ∈ l₁, x ∉ l₂) {dir' : Inode}
    (hr : v.rename oldDir oldName newDir newName = .ok (w, dir', true)) :
    (DirCall.rename oldDir l₁ oldName newDir l₂ newName).FrameRight v w ↔
      (DirCall.rename oldDir l₁ oldName newDir l₂ newName).FrameFits v := by
  obtain ⟨n, p, hf, hm⟩ := rename_cases h₁.ok h₂.ok hr
  have hs := h₁.ok.sound
  have hlists : oldDir.firstCluster = newDir.firstCluster → l₁ = l₂ := fun hsame =>
    h₁.ok.chain.unique (hsame ▸ h₂.ok.chain)
  have hfree : FirstFree (v.slotsMarked oldDir newDir l₁ l₂ n) (l₂.length * v.slotCount) p := by
    unfold slotsMarked
    split
    · obtain rfl := hlists ‹_›
      exact hm.free.congr (fun j hj o ho =>
        (slots_mark hs h₁.ok.chain.index h₁.ok.onDevice h₁.ok.chain.nodup hf.lt hj ho).symm)
    · exact hm.free.congr (fun j hj o ho => (unmade_apart h₁.ok h₂.ok (hdis ‹_›) hf.lt hj ho).symm)
  -- both sides speak of one entry and one place
  refine (⟨fun h => h n hf, fun h n' hn' => hf.unique hn' ▸ h⟩ : _ ↔ _).trans (Iff.trans ?_
    (⟨fun h n' p' hn' hp' => hf.unique hn' ▸ hfree.unique (hf.unique hn' ▸ hp') ▸ h, fun h => h n p hf hfree⟩ : _ ↔ _))
  by_cases hsame : oldDir.firstCluster = newDir.firstCluster
  · obtain rfl := hlists hsame
    obtain ⟨hkept, hrest, hp⟩ := rename_same h₂ hname hf hm
    have hw₂ := h₂.ok.congr hm.geom (hm.inside hp).2.1
    have hw₁ := h₁.ok.congr hm.geom (hm.inside hp).2.1
    simp only [hsame, true_and]
    rw [dirFrame_iff hs hm.geom hw₁, dirFrame_iff hs hm.geom hw₂, hkept, hrest]
    exact ⟨fun h => h.2, fun h => ⟨h.1, h⟩⟩
  · obtain ⟨hold, hrest⟩ := rename_old h₁ (hdis hsame) hf hm
    simp only [hsame, false_and, or_false]
    rw [rename_new h₁ h₂ hname (hdis hsame) hf hm, hrest]
    exact ⟨fun h => h.2, fun h => ⟨hold, h⟩⟩

/-- **When a call leaves the other entries of its directories as they are.** -/
theorem frame_iff (call : DirCall) (hok : call.Ok v) (hrun : call.Run v w) :
    call.FrameRight v w ↔ call.FrameFits v := by
  cases call with
  | create t dir l name mode =>
    obtain ⟨h, hname, hlen⟩ := hok
    obtain ⟨dir', inode, hc⟩ := hrun
    exact create_frame h hname hlen hc
  | unlink dir l name =>
    obtain ⟨h, hchain⟩ := hok
    constructor
    · intro hright n hf
      obtain ⟨f, hc⟩ := hchain n hf
      obtain ⟨hown, hfound⟩ := (unlink_frame h hf hc hrun).1 (hright n hf)
      refine ⟨hown, fun f' hc' => ?_⟩
      obtain rfl := hc.unique hc'
      exact hfound
    · intro hfits n hf
      obtain ⟨f, hc⟩ := hchain n hf
      exact (unlink_frame h hf hc hrun).2 ⟨(hfits n hf).1, (hfits n hf).2 f hc⟩
  | rename oldDir l₁ oldName newDir l₂ newName =>
    obtain ⟨h₁, h₂, hname, hdis⟩ := hok
    obtain ⟨dir', hr⟩ := hrun
    exact rename_frame h₁ h₂ hname hdis hr

end

def longName : Name := (List.range 13).map (fun i => BitVec.ofNat 8 (0x61 + i))

/-- The directory that has the file of that name as its only entry: one long-name slot and the main one. -/
theorem wellFormed_of_long {d : Nat → Mem} {len : Nat} (hlen : 1 < len) (h0 : d 0 0 = 0x41#8) (hlfn : IsLfn (d 0))
    (h1 : d 1 0 = 0x41#8) (hmain : ¬ IsLfn (d 1)) (hend : AtEnd (d 2)) :
    WellFormed d len ∧ Owned d 1 0 ∧ ∀ n, Main d n → n = 1 := by
  have honly : ∀ n, Main d n → n = 1 := fun n hm => by
    have hlt : n < 2 := not_le.1 (fun hle => hm.1.1 2 hle hend)
    have hne : n ≠ 0 := fun hc => hm.2 (hc ▸ hlfn)
    omega
  have hvis : ∀ j, j ≤ 1 → ¬ Unused (d j) := fun j hj => by
    obtain rfl | rfl : j = 0 ∨ j = 1 := by omega
    · unfold Unused
      rw [h0]
      decide
    · unfold Unused
      rw [h1]
      decide
  have hown : Owned d 1 0 := by
    refine ⟨by decide, ⟨⟨fun j hj he => hvis j hj (.inl he), hvis 1 (le_refl 1)⟩, hmain⟩, fun i _ hi => ?_⟩
    obtain rfl : i = 0 := by omega
    exact ⟨hvis 0 (by decide), hlfn⟩
  refine ⟨⟨fun n j _ ho => ?_, fun n j _ hj ho _ => ?_, fun n j _ hj ho => ?_, fun j _ hlive hl => ?_⟩, hown, honly⟩
  · have := honly n ho.2.1
    omega
  · obtain rfl := honly n ho.2.1
    obtain rfl : j = 0 := by omega
    rw [h0]
    decide
  · have := honly n ho.2.1
    omega
  · have hlt : j < 2 := not_le.1 (fun hle => hlive.1 2 hle hend)
    obtain rfl | rfl : j = 0 ∨ j = 1 := by omega
    · exact ⟨1, hlen, by decide, hown⟩
    · exact absurd hl hmain

/-- A file with that name is created; then there is room for another one. -/
theorem longName_created : ∃ v dir' inode,
    create noTime smallVol smallRoot longName ftRegFile = .ok (v, dir', some inode) ∧ DirOk v smallRoot [2] ∧
    (1 < [2].length * v.slotCount ∧ v.slot [2] 0 0 = 0x41#8 ∧ IsLfn (v.slot [2] 0) ∧
      v.slot [2] 1 0 = 0x41#8 ∧ ¬ IsLfn (v.slot [2] 1) ∧ AtEnd (v.slot [2] 2)) ∧
    (shortName (v.slot [2] 1) = nameFromEntry (nameToEntry longName) ∧ entCluster (v.slot [2] 1) 0 = 0) ∧
    ∃ w, (DirCall.create noTime smallRoot [2] [0x61#8] ftRegFile).Run v w :=
  ⟨_, _, _, rfl, smallRoot_ok.congr rfl rfl, by decide, by decide, _, _, _, rfl⟩

theorem second_frame_iff : ∃ v w, Main (v.slot [2]) 1 ∧
    (DirCall.create noTime smallRoot [2] [0x61#8] ftRegFile).Run v w ∧
    ((DirCall.create noTime smallRoot [2] [0x61#8] ftRegFile).FrameRight v w ↔
      (DirCall.create noTime smallRoot [2] [0x61#8] ftRegFile).FrameFits v) := by
  obtain ⟨v, -, -, -, hok, ⟨hlen, h0, hlfn, h1, hmain, hend⟩, -, w, hrun⟩ := longName_created
  obtain ⟨hwell, hown, -⟩ := wellFormed_of_long hlen h0 hlfn h1 hmain hend
  exact ⟨v, w, hown.2.1, hrun, frame_iff _ ⟨⟨hok, hwell⟩, by unfold CName; decide, by decide⟩ hrun⟩

/-- A file with a long name is created and removed, and its long-name slot stays. -/
theorem unlink_leaves_longName : ∃ v dir' inode w,
    create noTime smallVol smallRoot longName ftRegFile = .ok (v, dir', some inode) ∧
    (DirCall.unlink smallRoot [2] (nameFromEntry (nameToEntry longName))).Ok v ∧
    (DirCall.unlink smallRoot [2] (nameFromEntry (nameToEntry longName))).Run v w ∧
    ¬ (DirCall.unlink smallRoot [2] (nameFromEntry (nameToEntry longName))).FrameRight v w := by
  obtain ⟨v, dir', inode, hc, hok, ⟨hlen, h0, hlfn, h1, hmain, hend⟩, ⟨hname, hcl⟩, -⟩ := longName_created
  obtain ⟨hwell, hown, honly⟩ := wellFormed_of_long hlen h0 hlfn h1 hmain hend
  have hf : FoundAt (v.slot [2]) ([2].length * v.slotCount) (nameFromEntry (nameToEntry longName)) 1 :=
    ⟨hlen, hown.2.1, hname, fun j hj hm => absurd (honly j hm) (by omega)⟩
  have hchain : v.Chain (entCluster (v.slot [2] 1) 0) [] :=
    ⟨⟨0, hcl, by decide⟩, fun x hx => absurd hx not_mem_nil, fun x hx => absurd hx not_mem_nil, fun _ => hcl⟩
  obtain ⟨w, hr, -⟩ := unlink_cases hok hf hchain
  refine ⟨v, dir', inode, w, hc, ⟨⟨hok, hwell⟩, fun n hn => ⟨[], ?_⟩⟩, hr, fun hright => ?_⟩
  · rwa [← hf.unique hn]
  · exact ((unlink_frame ⟨hok, hwell⟩ hf hchain hr).1 (hright 1 hf)).1 0 (by decide) hown

end Fat32

end OS64
