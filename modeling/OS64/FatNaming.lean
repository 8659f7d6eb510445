import OS64.FatCreate
import OS64.FatLaw
/-!
# FatNaming — names of new entries

`fat32_create` asks for the name it is given and stores a short one.  The entry is found again under its name exactly
when the short name decodes to it, does not start with the mark of deleted slots, and the cluster it is put in is on the
device (`naming_iff`).
-/
namespace OS64

open List Nat

namespace Fat32

/-- No two main entries of a directory of `len` slots have one name. -/
def NoTwins (d : Nat → Mem) (len : Nat) : Prop :=
  ∀ m n, m < len → n < len → Main d m → Main d n → shortName (d m) = shortName (d n) → m = n

/-- The lookup of the name gives the new entry, and twins do not come into being. -/
structure NamingRight (v w : Fat32) (dir : Inode) (l : List Nat) (name : Name) (inode : Inode) : Prop where
  found : ∃ i, w.lookup dir name = .ok (some i) ∧ i.dirCluster = inode.dirCluster ∧ i.entryOffset = inode.entryOffset
  noTwins : NoTwins (v.slot l) (l.length * v.slotCount) →
    ∀ l', w.Chain dir.firstCluster l' → NoTwins (w.slot l') (l'.length * w.slotCount)

/-- Slot `m` would be a main entry if slot `n` before it were in use. -/
def Behind (d : Nat → Mem) (n m : Nat) : Prop :=
  n < m ∧ (∀ j, n < j → j ≤ m → ¬ AtEnd (d j)) ∧ ¬ Unused (d m) ∧ ¬ IsLfn (d m)

/-- The name survives the short form, the directory's new cluster (if it needs one) is on the device, and no entry that
the end mark hides has the name or that of another entry. -/
structure NamingFits (v : Fat32) (l : List Nat) (name : Name) : Prop where
  round : nameFromEntry (nameToEntry name) = name
  first : (nameToEntry name).getD 0 0#8 ≠ deleted
  device : (∀ n, n < l.length * v.slotCount → ¬ Unused (v.slot l n)) → v.geom.OnDevice v.allocCluster.2
  behind : NoTwins (v.slot l) (l.length * v.slotCount) → ∀ n m, m < l.length * v.slotCount → AtEnd (v.slot l n) →
    (∀ j, j < n → ¬ Unused (v.slot l j)) → Behind (v.slot l) n m → shortName (v.slot l m) ≠ name ∧
      ∀ k, k < l.length * v.slotCount → Main (v.slot l) k ∨ Behind (v.slot l) n k →
        shortName (v.slot l k) = shortName (v.slot l m) → k = m

/-! ## Names -/

theorem nameFromEntry_length (name : Name) : (nameFromEntry (nameToEntry name)).length ≤ 12 := by
  have hlen := nameToEntry_length name
  have hbase := (takeWhile_sublist (fun b => decide (b ≠ space)) (l := (nameToEntry name).take 8)).length_le
  have hext := (takeWhile_sublist (fun b => decide (b ≠ space)) (l := (nameToEntry name).drop 8)).length_le
  rw [length_take] at hbase
  rw [length_drop] at hext
  refine le_trans (takeWhile_sublist _).length_le ?_
  rw [length_append, length_map]
  split
  · rw [length_nil]
    omega
  · rw [length_cons, length_map]
    omega

theorem lfnEntries_of_round {name : Name} (h : nameFromEntry (nameToEntry name) = name) : lfnEntries name = 0 := by
  have hlen := nameFromEntry_length name
  rw [h] at hlen
  exact if_neg (by omega)

theorem upper_ne_zero {b : BitVec 8} (h : b ≠ 0#8) : upper b ≠ 0#8 := by
  unfold upper
  split
  · rename_i hb
    intro hc
    have h1 := hb.1
    have h2 := congrArg BitVec.toNat hc
    rw [BitVec.le_def] at h1
    simp only [BitVec.toNat_sub, BitVec.toNat_ofNat] at h1 h2
    omega
  · exact h

theorem nameToEntry_head {name : Name} (h : ∀ b ∈ name, b ≠ 0#8) : (nameToEntry name).getD 0 0#8 ≠ 0#8 := by
  unfold nameToEntry
  cases hb : (name.take 8).takeWhile (fun b => decide (b ≠ dot)) with
  | nil => exact (by decide : space ≠ 0#8)
  | cons b bs =>
    have hmem : b ∈ name := by
      have hsub := (takeWhile_sublist (fun b => decide (b ≠ dot)) (l := name.take 8)).subset
      rw [hb] at hsub
      exact mem_of_mem_take (hsub (.head _))
    exact upper_ne_zero (h b hmem)

/-! ## Slots that are byte for byte the same -/

def SameHead (a b : Mem) : Prop := ∀ o, o < 12 → a o = b o

def SameSlot (a b : Mem) : Prop := ∀ o, o < 32 → a o = b o

section
variable {a b : Mem} {d d' : Nat → Mem} {len n m f : Nat} {name : Name}

theorem SameHead.atEnd (h : SameHead a b) : AtEnd a ↔ AtEnd b := by
  unfold AtEnd
  rw [h 0 (by decide)]

theorem SameHead.unused (h : SameHead a b) : Unused a ↔ Unused b := by
  unfold Unused
  rw [h 0 (by decide)]

theorem SameHead.isLfn (h : SameHead a b) : IsLfn a ↔ IsLfn b := by
  unfold IsLfn entAttr
  rw [h 11 (by decide)]

theorem SameHead.shortName (h : SameHead a b) : shortName a = shortName b := by
  have hname : entName a 0 = entName b 0 := by
    refine map_congr_left (fun k hk => ?_)
    have := mem_range.1 hk
    exact h _ (by omega)
  unfold Fat32.shortName
  rw [hname]

theorem SameHead.symm (h : SameHead a b) : SameHead b a := fun o ho => (h o ho).symm

section
variable (h : SameSlot a b)
include h

theorem SameSlot.head : SameHead a b := fun o ho => h o (by omega)

theorem SameSlot.symm : SameSlot b a := fun o ho => (h o ho).symm

theorem SameSlot.atEnd : AtEnd a ↔ AtEnd b := h.head.atEnd

theorem SameSlot.unused : Unused a ↔ Unused b := h.head.unused

theorem SameSlot.isLfn : IsLfn a ↔ IsLfn b := h.head.isLfn

theorem SameSlot.shortName : shortName a = shortName b := h.head.shortName

end

theorem Main.of_head (hsame : ∀ j, j ≤ m → SameHead (d' j) (d j)) (h : Main d' m) : Main d m :=
  ⟨⟨fun j hj he => h.1.1 j hj ((hsame j hj).atEnd.2 he), fun hu => h.1.2 ((hsame m (le_refl m)).unused.2 hu)⟩,
    fun hl => h.2 ((hsame m (le_refl m)).isLfn.2 hl)⟩

theorem Main.of_same (hsame : ∀ j, j ≤ m → SameSlot (d' j) (d j)) (h : Main d' m) : Main d m :=
  h.of_head (fun j hj => (hsame j hj).head)

theorem FoundAt.of_head (hsame : ∀ j, j < len → SameHead (d' j) (d j)) (h : FoundAt d' len name n) :
    FoundAt d len name n := by
  have hlt := h.lt
  refine ⟨hlt, h.main.of_head (fun j hj => hsame j (by omega)), ?_, fun j hj hm => ?_⟩
  · rw [← (hsame n hlt).shortName]
    exact h.name_eq
  · rw [← (hsame j (by omega)).shortName]
    exact h.first j hj (hm.of_head (fun i hi => (hsame i (by omega)).symm))

/-- What `fat32_create` makes of the slots `d` of a directory: the entry's slots are `n` to `n + f`, the first of which
was the first free one. -/
structure NewEntry (d d' : Nat → Mem) (len n f : Nat) (name : Name) : Prop where
  lt : n + f < len
  wasFree : Unused (d n)
  firstFree : ∀ j, j < n → ¬ Unused (d j)
  kept : ∀ m, m < len → ¬ (n ≤ m ∧ m ≤ n + f) → SameSlot (d' m) (d m)
  lfn : ∀ j, j < f → ¬ Unused (d' (n + j)) ∧ IsLfn (d' (n + j))
  main : ¬ IsLfn (d' (n + f))
  byte : d' (n + f) 0 = (nameToEntry name).getD 0 0#8
  name_eq : shortName (d' (n + f)) = nameFromEntry (nameToEntry name)

theorem NewEntry.before (h : NewEntry d d' len n f name) {j : Nat} (hj : j < n) : SameSlot (d' j) (d j) :=
  h.kept j (by have := h.lt; omega) (by omega)

theorem NewEntry.visible (h : NewEntry d d' len n f name) (hz : (nameToEntry name).getD 0 0#8 ≠ 0#8) :
    Visible d' (n + f) := fun j hj he => by
  rcases lt_or_ge j n with hlt | hge
  · exact h.firstFree j hlt (.inl ((h.before hlt).atEnd.1 he))
  rcases hj.lt_or_eq with hlt | rfl
  · have := (h.lfn (j - n) (by omega)).1
    rw [Nat.add_sub_cancel' hge] at this
    exact this (.inl he)
  · exact hz (h.byte ▸ he)

/-- **The lookup of its name finds the new entry** exactly when the name survives the short form. -/
theorem NewEntry.foundAt_iff (h : NewEntry d d' len n f name) (hz : (nameToEntry name).getD 0 0#8 ≠ 0#8)
    (hno : ∀ m, m < len → Main d m → shortName (d m) ≠ name) : FoundAt d' len name (n + f) ↔
      nameFromEntry (nameToEntry name) = name ∧ (nameToEntry name).getD 0 0#8 ≠ deleted := by
  constructor
  · intro hf
    exact ⟨h.name_eq ▸ hf.name_eq, fun hd => hf.main.1.2 (.inr (h.byte.trans hd))⟩
  rintro ⟨hround, hdel⟩
  refine ⟨h.lt, ⟨⟨h.visible hz, ?_⟩, h.main⟩, h.name_eq.trans hround, fun j hj hm => ?_⟩
  · rintro (he | he)
    · exact hz (h.byte ▸ he)
    · exact hdel (h.byte ▸ he)
  rcases lt_or_ge j n with hlt | hge
  · rw [(h.before hlt).shortName]
    exact hno j (by have := h.lt; omega) (hm.of_same (fun i hi => h.before (by omega)))
  · have := (h.lfn (j - n) (by omega)).2
    rw [Nat.add_sub_cancel' hge] at this
    exact absurd this hm.2

theorem NewEntry.main_cases (h : NewEntry d d' len n 0 name) (hm : m < len) (hne : m ≠ n) (hmain : Main d' m) :
    Main d m ∨ AtEnd (d n) ∧ Behind d n m := by
  have hsame : ∀ j, j ≤ m → j ≠ n → SameSlot (d' j) (d j) := fun j hj hj' => h.kept j (by omega) (by omega)
  have hlive : ¬ Unused (d m) ∧ ¬ IsLfn (d m) :=
    ⟨fun hu => hmain.1.2 ((hsame m (le_refl m) hne).unused.2 hu),
      fun hl => hmain.2 ((hsame m (le_refl m) hne).isLfn.2 hl)⟩
  have hvis : ∀ j, j ≤ m → j ≠ n → ¬ AtEnd (d j) := fun j hj hj' he => hmain.1.1 j hj ((hsame j hj hj').atEnd.2 he)
  rcases lt_or_gt_of_ne hne with hlt | hgt
  · exact .inl ⟨⟨fun j hj => hvis j hj (by omega), hlive.1⟩, hlive.2⟩
  by_cases hend : AtEnd (d n)
  · exact .inr ⟨hend, hgt, fun j hj hj' => hvis j hj' (by omega), hlive⟩
  refine .inl ⟨⟨fun j hj => ?_, hlive.1⟩, hlive.2⟩
  by_cases hjn : j = n
  · rwa [hjn]
  · exact hvis j hj hjn

theorem NewEntry.main_of_behind (h : NewEntry d d' len n 0 name) (hz : (nameToEntry name).getD 0 0#8 ≠ 0#8)
    (hm : m < len) (hb : Behind d n m) : Main d' m := by
  obtain ⟨hlt, hvis, hlive, hlfn⟩ := hb
  have hsame : ∀ j, n < j → j ≤ m → SameSlot (d' j) (d j) := fun j hj hj' => h.kept j (by omega) (by omega)
  refine ⟨⟨fun j hj he => ?_, fun hu => hlive ((hsame m hlt (le_refl m)).unused.1 hu)⟩,
    fun hl => hlfn ((hsame m hlt (le_refl m)).isLfn.1 hl)⟩
  rcases lt_or_ge n j with hnj | hnj
  · exact hvis j hnj hj ((hsame j hnj hj).atEnd.1 he)
  · exact h.visible hz j (by omega) he

/-- **When a new entry with its own name makes twins**: exactly when the end mark it overwrites hid some. -/
theorem NewEntry.noTwins_iff (h : NewEntry d d' len n 0 name) (hz : (nameToEntry name).getD 0 0#8 ≠ 0#8)
    (hno : ∀ m, m < len → Main d m → shortName (d m) ≠ name) (hf : FoundAt d' len name n) (ht : NoTwins d len) :
    NoTwins d' len ↔ (AtEnd (d n) → ∀ m, m < len → Behind d n m → shortName (d m) ≠ name ∧
      ∀ k, k < len → Main d k ∨ Behind d n k → shortName (d k) = shortName (d m) → k = m) := by
  have hname : ∀ m, m < len → m ≠ n → shortName (d' m) = shortName (d m) :=
    fun m hm hne => (h.kept m hm (by omega)).shortName
  constructor
  · intro htw hend m hm hb
    have hmain := h.main_of_behind hz hm hb
    have hlt := hb.1
    constructor
    · intro hc
      have := htw m n hm hf.lt hmain hf.main (by rw [hname m hm (by omega), hc, hf.name_eq])
      omega
    intro k hk hor heq
    have hkn : k ≠ n ∧ Main d' k := by
      rcases hor with hmk | hbk
      · have hkn : k < n := not_le.1 (fun hle => hmk.1.1 n hle hend)
        exact ⟨by omega, hmk.of_same (fun j hj => (h.before (by omega)).symm)⟩
      · exact ⟨by have := hbk.1; omega, h.main_of_behind hz hk hbk⟩
    exact htw k m hk hm hkn.2 hmain (by rw [hname k hk hkn.1, hname m hm (by omega), heq])
  · intro hcond i j hi hj hmi hmj heq
    by_cases hin : i = n
    · by_cases hjn : j = n
      · rw [hin, hjn]
      · rw [hin, hf.name_eq, hname j hj hjn] at heq
        rcases h.main_cases hj hjn hmj with hm | ⟨hend, hb⟩
        · exact absurd heq.symm (hno j hj hm)
        · exact absurd heq.symm (hcond hend j hj hb).1
    · rw [hname i hi hin] at heq
      by_cases hjn : j = n
      · rw [hjn, hf.name_eq] at heq
        rcases h.main_cases hi hin hmi with hm | ⟨hend, hb⟩
        · exact absurd heq (hno i hi hm)
        · exact absurd heq (hcond hend i hi hb).1
      rw [hname j hj hjn] at heq
      rcases h.main_cases hi hin hmi with hm | ⟨hend, hb⟩
      · rcases h.main_cases hj hjn hmj with hm' | ⟨hend, hb'⟩
        · exact ht i j hi hj hm hm' heq
        · exact (hcond hend j hj hb').2 i hi (.inl hm) heq
      · rcases h.main_cases hj hjn hmj with hm' | ⟨-, hb'⟩
        · exact ((hcond hend i hi hb).2 j hj (.inl hm') heq.symm).symm
        · exact ((hcond hend i hi hb).2 j hj (.inr hb') heq.symm).symm

end

section
variable {t : Rtc} {v u w : Fat32} {dir dir' inode : Inode} {l l' : List Nat} {name : Name} {mode n first : Nat}
  {old : Mem}

theorem Place.free (h : DirOk v dir l) (hp : Place v dir l u l' n old)
    (hon : v.geom.OnDevice (l'.getD (n / v.slotCount) 0)) :
    Unused (u.slot l' n) ∧ ∀ j, j < n → ¬ Unused (u.slot l' j) := by
  have hb := hp.base h
  cases hp with
  | inside n hn hfree hfirst => exact ⟨hfree, hfirst⟩
  | behind z w hfull hl =>
    refine ⟨.inl (hb.zero _ _ le_rfl hb.lt (by decide) hon), fun j hj hu => hfull j hj ?_⟩
    exact (SameSlot.unused (fun o ho => hb.kept j o hj ho)).1 hu

/-- **The slots of a directory with a new entry.** -/
theorem newEntry_of (h : DirOk v dir l) (hlen : name.length ≤ 255) (hp : Place v dir l u l' n old)
    (hon : v.geom.OnDevice (l'.getD (n / v.slotCount) 0))
    (hc : CreatedAt t u w dir name mode old (l'.getD (n / v.slotCount) 0) (n % v.slotCount) first) :
    NewEntry (u.slot l') (w.slot l') (l'.length * v.slotCount) n (lfnEntries name) name := by
  have hb := hp.base h
  obtain ⟨hfree, hfirst⟩ := hp.free h hon
  have hpos := slotCount_pos h.sound
  have hroom := hc.room
  rw [slotCount_geom hb.geom] at hroom
  have hlt : n + lfnEntries name < l'.length * v.slotCount := by
    have hk : n / v.slotCount + 1 ≤ l'.length := (div_lt_iff_lt_mul hpos).2 hb.lt
    have hle := mul_le_mul_right v.slotCount hk
    have hn := div_add_mod' n v.slotCount
    rw [succ_mul] at hle
    omega
  have hf32 : mode = ftDir → first < 2 ^ 32 := fun hm => (hb.geom ▸ h.sound : u.geom.Sound).index_lt (hc.taken hm).1
  have hslot : ∀ j, j ≤ lfnEntries name → SameSlot (w.slot l' (n + j))
      (fun o => placed t old name mode (n % v.slotCount) first (32 * (n % v.slotCount + j) + o)) := fun j hj o ho => by
    rw [hc.slots h.sound hb hon (by omega) ho, if_pos (by omega), Nat.add_sub_cancel_left]
  obtain ⟨hname, hattr, -⟩ := placed_main hf32 rfl
  have hsame := hslot _ le_rfl
  refine ⟨hlt, hfree, hfirst, ?_, fun j hj => ?_, ?_, ?_, ?_⟩
  · intro m hm hout o ho
    rw [hc.slots h.sound hb hon hm ho, if_neg hout]
  · rw [(hslot j (by omega)).unused, (hslot j (by omega)).isLfn]
    exact placed_lfn hj hlen
  · rw [hsame.isLfn]
    unfold IsLfn
    rw [hattr]
    split <;> decide
  · rw [hsame 0 (by decide), ← hname]
    rfl
  · rw [hsame.shortName]
    unfold shortName
    rw [hname]

theorem Place.absent (h : DirOk v dir l) (hp : Place v dir l u l' n old) (hlookup : v.lookup dir name = .ok none)
    (hon : v.geom.OnDevice (l'.getD (n / v.slotCount) 0)) :
    ∀ m, m < l'.length * v.slotCount → Main (u.slot l') m → shortName (u.slot l' m) ≠ name := by
  have hb := hp.base h
  intro m hm hmain
  rcases lt_or_ge m (l.length * v.slotCount) with hlt | hge
  · have hsame : ∀ j, j ≤ m → SameSlot (u.slot l' j) (v.slot l j) := fun j hj o ho => hb.kept j o (by omega) ho
    rw [(hsame m (le_refl m)).shortName]
    rcases lookup_cases h name with ⟨-, hno⟩ | ⟨i, hi, -⟩
    · exact hno m hlt (hmain.of_same hsame)
    · rw [hlookup] at hi
      cases hi
  · exact absurd (hb.zero m 0 hge hm (by decide) hon) (hmain.1.1 m (le_refl m))

theorem inodeOf_place (dir : Inode) {m f : Nat} (hg : w.geom = v.geom) (hnd : l'.Nodup)
    (hn : n < l'.length * v.slotCount) (hf : n % v.slotCount + f < v.slotCount) (hm : m < l'.length * v.slotCount) :
    ((w.inodeOf dir l' m).dirCluster = l'.getD (n / v.slotCount) 0 ∧
      (w.inodeOf dir l' m).entryOffset = 32 * (n % v.slotCount + f)) ↔ m = n + f := by
  have hml := div_lt_of_lt hm
  have hnl := div_lt_of_lt hn
  have hmd := div_add_mod' m v.slotCount
  have hnd' := div_add_mod' n v.slotCount
  unfold inodeOf inodeAt
  simp only [slotCount_geom hg]
  constructor
  · rintro ⟨hcl, hoff⟩
    rw [getD_eq_getElem _ _ hml, getD_eq_getElem _ _ hnl] at hcl
    have hk := hnd.getElem_inj_iff.1 hcl
    rw [hk] at hmd
    omega
  · rintro rfl
    obtain ⟨hdiv, hmod⟩ := div_mod_run hf (le_add_right n f) le_rfl
    rw [hdiv, hmod, Nat.add_sub_cancel_left]
    exact ⟨rfl, rfl⟩

theorem Place.dirOk (h : DirOk v dir l) (hp : Place v dir l u l' n old)
    (hon : v.geom.OnDevice (l'.getD (n / v.slotCount) 0)) (hg : w.geom = v.geom) (hch : w.Chain dir.firstCluster l') :
    DirOk w dir l' := by
  have hb := hp.base h
  refine ⟨by rw [hg]; exact h.sound, hch, fun x hx => ?_, fun hnil => ?_⟩
  · rw [hg]
    by_cases hxt : x = l'.getD (n / v.slotCount) 0
    · rwa [hxt]
    · exact hb.onDevice x hx hxt
  · have := hb.lt
    rw [hnil, length_nil] at this
    omega

theorem found_iff (name : Name) {f : Nat} (hg : w.geom = v.geom) (hw : DirOk w dir l')
    (hn : n < l'.length * v.slotCount) (hf : n % v.slotCount + f < v.slotCount) :
    (∃ i, w.lookup dir name = .ok (some i) ∧ i.dirCluster = l'.getD (n / v.slotCount) 0 ∧
      i.entryOffset = 32 * (n % v.slotCount + f)) ↔ FoundAt (w.slot l') (l'.length * v.slotCount) name (n + f) := by
  have hsc := slotCount_geom hg
  constructor
  · rintro ⟨i, hi, hplace⟩
    rcases lookup_cases hw name with ⟨hno, -⟩ | ⟨m, hm, hfound⟩
    · rw [hi] at hno
      cases hno
    rw [hi] at hm
    cases hm
    rw [hsc] at hfound
    rwa [← (inodeOf_place dir hg hw.chain.nodup hn hf hfound.lt).1 hplace]
  · intro hfound
    have hplace := (inodeOf_place dir hg hw.chain.nodup hn hf hfound.lt).2 rfl
    rw [← hsc] at hfound
    exact ⟨_, lookup_found hw hfound, hplace⟩

theorem Place.noTwins (h : DirOk v dir l) (hp : Place v dir l u l' n old)
    (hon : v.geom.OnDevice (l'.getD (n / v.slotCount) 0)) (ht : NoTwins (v.slot l) (l.length * v.slotCount)) :
    NoTwins (u.slot l') (l'.length * v.slotCount) := by
  have hb := hp.base h
  have hsame : ∀ j, j < l.length * v.slotCount → SameSlot (u.slot l' j) (v.slot l j) :=
    fun j hj o ho => hb.kept j o hj ho
  have hold : ∀ m, m < l'.length * v.slotCount → Main (u.slot l') m → m < l.length * v.slotCount := fun m hm hmain => by
    refine not_le.1 (fun hle => ?_)
    exact hmain.1.1 m (le_refl m) (hb.zero m 0 hle hm (by decide) hon)
  intro i j hi hj hmi hmj heq
  have hi' := hold i hi hmi
  have hj' := hold j hj hmj
  rw [(hsame i hi').shortName, (hsame j hj').shortName] at heq
  exact ht i j hi' hj' (hmi.of_same (fun k hk => hsame k (by omega))) (hmj.of_same (fun k hk => hsame k (by omega))) heq

theorem Place.lookup_off {y : Fat32} (h : DirOk v dir l) (hp : Place v dir l u l' n old)
    (hoff : ¬ v.geom.OnDevice (l'.getD (n / v.slotCount) 0)) (hlookup : v.lookup dir name = .ok none)
    (hg : y.geom = v.geom) (hch : y.Chain dir.firstCluster l')
    (hsame : ∀ m, m < l.length * v.slotCount → SameHead (y.slot l' m) (v.slot l m)) : y.lookup dir name = .ok none := by
  have hpos := slotCount_pos h.sound
  have hsc := slotCount_geom hg
  have hno : ∀ m, m < l.length * v.slotCount → Main (v.slot l) m → shortName (v.slot l m) ≠ name := by
    rcases lookup_cases h name with ⟨-, hno⟩ | ⟨j, hj, -⟩
    · exact hno
    · rw [hlookup] at hj
      cases hj
  cases hp with
  | inside n hn _ _ => exact absurd (h.onDevice _ (getD_div_mem hn)) hoff
  | behind z w' hfull hl =>
    have hz : ¬ v.geom.OnDevice z := by
      rwa [Nat.mul_div_cancel _ hpos, getD_append_right _ _ _ _ le_rfl, Nat.sub_self] at hoff
    have hslot : ∀ m, m < l.length * v.slotCount → y.slot (l ++ [z]) m = y.slot l m :=
      fun m hm => slot_append (by rw [hg]; exact h.sound) [z] (by rwa [hsc])
    refine lookup_unreadable (by rw [hg]; exact h.sound) hch (fun x hx => by rw [hg]; exact h.onDevice x hx)
      (by rwa [hg]) (fun m hm hmain => ?_)
    rw [hsc] at hm
    rw [← hslot m hm, (hsame m hm).shortName]
    refine hno m hm (hmain.of_head (fun j hj => ?_))
    rw [← hslot j (by omega)]
    exact hsame j (by omega)

/-- **A new entry has its name exactly when the name fits.** -/
theorem naming_iff (h : DirOk v dir l) (hlen : name.length ≤ 255) (hnul : ∀ b ∈ name, b ≠ 0#8)
    (hc : create t v dir name mode = .ok (w, dir', some inode)) :
    NamingRight v w dir l name inode ↔ NamingFits v l name := by
  obtain ⟨rfl, hlookup, u, l', n, old, hp, hat⟩ := create_cases h hc
  have hb := hp.base h
  have hpos := slotCount_pos h.sound
  have hk := div_lt_of_lt hb.lt
  have hsu : u.geom.Sound := by rw [hb.geom]; exact h.sound
  obtain ⟨first, hcr, rfl⟩ := createAt_cases hsu (hb.chain.index _ (getD_mem hk)) hat
  have hg : w.geom = v.geom := hcr.geom.trans hb.geom
  have hsc := slotCount_geom hg
  have hch := hcr.chain hb.chain
  have hz := nameToEntry_head hnul
  have hroom := hcr.room
  rw [slotCount_geom hb.geom] at hroom
  by_cases hon : v.geom.OnDevice (l'.getD (n / v.slotCount) 0)
  · have hentry := newEntry_of h hlen hp hon hcr
    have hw := hp.dirOk h hon hg hch
    have hno := hp.absent h hlookup hon
    have hfound := found_iff name hg hw hb.lt hroom
    rw [hentry.foundAt_iff hz hno] at hfound
    constructor
    · rintro ⟨hf, htw⟩
      obtain ⟨hround, hfirst⟩ := hfound.1 hf
      refine ⟨hround, hfirst, fun hfull => ?_, fun ht i m hm hend hbefore hbehind => ?_⟩
      · cases hp with
        | inside n hn hfree _ => exact absurd hfree (hfull n hn)
        | behind z w' _ hl =>
          rw [hl.alloc]
          rwa [Nat.mul_div_cancel _ hpos, getD_append_right _ _ _ _ le_rfl, Nat.sub_self] at hon
      have hlt := hbehind.1
      cases hp with
      | behind z w' hfull _ => exact absurd (.inl hend) (hfull i (by omega))
      | inside n hn hfree hfirst' =>
        obtain rfl : i = n := by
          rcases lt_trichotomy i n with hin | hin | hin
          · exact absurd (.inl hend) (hfirst' i hin)
          · exact hin
          · exact absurd hfree (hbefore n hin)
        rw [lfnEntries_of_round hround] at hentry
        have hfa := (hentry.foundAt_iff hz hno).2 ⟨hround, hfirst⟩
        have htw' := htw ht l hch
        rw [hsc] at htw'
        exact (hentry.noTwins_iff hz hno hfa ht).1 htw' hend m hm hbehind
    · intro hfits
      refine ⟨hfound.2 ⟨hfits.round, hfits.first⟩, fun ht l'' hch'' => ?_⟩
      obtain rfl := hch''.unique hch
      rw [hsc]
      rw [lfnEntries_of_round hfits.round] at hentry
      have hfa := (hentry.foundAt_iff hz hno).2 ⟨hfits.round, hfits.first⟩
      refine (hentry.noTwins_iff hz hno hfa (hp.noTwins h hon ht)).2 (fun hend m hm hbehind => ?_)
      cases hp with
      | inside n hn hfree hfirst => exact hfits.behind ht n m hm hend hfirst hbehind
      | behind z w' hfull hl =>
        exact absurd (hb.zero m 0 (by have := hbehind.1; omega) hm (by decide) hon)
          (hbehind.2.1 m hbehind.1 (le_refl m))
  · cases hp' : hp with
    | inside n hn _ _ => exact absurd (h.onDevice _ (getD_mem hk)) hon
    | behind z w' hfull hl =>
      have htgt : (l ++ [z]).getD (l.length * v.slotCount / v.slotCount) 0 = z := by
        rw [Nat.mul_div_cancel _ hpos, getD_append_right _ _ _ _ le_rfl, Nat.sub_self]
        rfl
      refine iff_of_false ?_ ?_
      · rintro ⟨⟨i, hi, -⟩, -⟩
        rw [hp.lookup_off h hon hlookup hg hch (fun m hm o ho => hcr.slots_off h.sound hb hon hm (by omega))] at hi
        cases hi
      intro hfits
      have := hfits.device hfull
      rw [hl.alloc] at this
      rw [htgt] at hon
      exact hon this

theorem DirOk.congr (h : DirOk v dir l) (hg : w.geom = v.geom) (hc : w.fatCache = v.fatCache) : DirOk w dir l :=
  ⟨by rw [hg]; exact h.sound, h.chain.congr hg (fun x _ => by rw [hc]), fun x hx => by rw [hg]; exact h.onDevice x hx,
    h.nonempty⟩

end

theorem smallRoot_ok : DirOk smallVol smallRoot [2] where
  sound := smallVol_sound
  chain :=
    { trail := ⟨eoc, rfl, by decide, by decide, by decide⟩
      index := by decide
      used := by decide
      start := by simp }
  onDevice := by decide
  nonempty := by simp

theorem second_naming_iff : ∃ v dir' other w dir'' inode,
    create noTime smallVol smallRoot [0x62#8] ftRegFile = .ok (v, dir', some other) ∧
    create noTime v smallRoot [0x61#8] ftRegFile = .ok (w, dir'', some inode) ∧
    (NamingRight v w smallRoot [2] [0x61#8] inode ↔ NamingFits v [2] [0x61#8]) :=
  ⟨_, _, _, _, _, _, rfl, rfl, naming_iff (smallRoot_ok.congr rfl rfl) (by decide) (by decide) rfl⟩

/-- The file `A` is created, and not found. -/
theorem upperCase_not_found : ∃ w dir' inode,
    create noTime smallVol smallRoot [0x41#8] ftRegFile = .ok (w, dir', some inode) ∧
    ¬ NamingRight smallVol w smallRoot [2] [0x41#8] inode := by
  refine ⟨_, _, _, rfl, fun h => ?_⟩
  obtain ⟨i, hi, -⟩ := h.found
  cases hi

end Fat32

end OS64
