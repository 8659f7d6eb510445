import OS64.FatChain
import OS64.FatDir
/-!
# FatSlots — a directory as a row of slots

The slots of a directory's clusters are numbered through: slot `n` of the chain `l` is slot `n % slotCount` of cluster
number `n / slotCount`.  `fat32_lookup` is the first main entry of that row, before the end mark, with the name
(`lookup_cases`), and the search of `fat32_create` the first slot that is free (`searchDir_cases`).
-/
namespace OS64

open List Nat

namespace Fat32

def slot (v : Fat32) (l : List Nat) (n o : Nat) : BitVec 8 :=
  v.content (l.getD (n / v.slotCount) 0) (32 * (n % v.slotCount) + o)

/-- A slot as a buffer, for the functions that read its fields at offset 0. -/
def AtEnd (s : Mem) : Prop := s 0 = 0#8

def Unused (s : Mem) : Prop := s 0 = 0#8 ∨ s 0 = deleted

def IsLfn (s : Mem) : Prop := entAttr s 0 = attrLfn

def shortName (s : Mem) : Name := nameFromEntry (entName s 0)

instance (s : Mem) : Decidable (AtEnd s) := inferInstanceAs (Decidable (_ = _))
instance (s : Mem) : Decidable (Unused s) := inferInstanceAs (Decidable (_ ∨ _))
instance (s : Mem) : Decidable (IsLfn s) := inferInstanceAs (Decidable (_ = _))

def Visible (d : Nat → Mem) (n : Nat) : Prop := ∀ j, j ≤ n → ¬ AtEnd (d j)

def Live (d : Nat → Mem) (n : Nat) : Prop := Visible d n ∧ ¬ Unused (d n)

def Main (d : Nat → Mem) (n : Nat) : Prop := Live d n ∧ ¬ IsLfn (d n)

structure FoundAt (d : Nat → Mem) (len : Nat) (name : Name) (n : Nat) : Prop where
  lt : n < len
  main : Main d n
  name_eq : shortName (d n) = name
  first : ∀ j, j < n → Main d j → shortName (d j) ≠ name

def inodeOf (v : Fat32) (dir : Inode) (l : List Nat) (n : Nat) : Inode :=
  inodeAt dir (l.getD (n / v.slotCount) 0) (v.content (l.getD (n / v.slotCount) 0)) (n % v.slotCount) n

section
variable {v : Fat32} {l : List Nat} {dir : Inode} {name : Name} {i k n o : Nat}

theorem slotCount_bytes (hs : v.geom.Sound) : 32 * v.slotCount = v.bytesPerCluster := by
  have hb : v.bytesPerCluster = 512 * v.sectorsPerCluster := hs.bytes
  unfold slotCount
  omega

theorem slotCount_pos (hs : v.geom.Sound) : 0 < v.slotCount := by
  have hb : v.bytesPerCluster = 512 * v.sectorsPerCluster := hs.bytes
  have hp : 0 < v.sectorsPerCluster := hs.cluster
  unfold slotCount
  omega

theorem slotCount_geom {w : Fat32} (h : w.geom = v.geom) : w.slotCount = v.slotCount := by
  unfold slotCount
  rw [bytes_congr h]

theorem slot_div (hi : i < v.slotCount) : (k * v.slotCount + i) / v.slotCount = k := by
  rw [add_comm, add_mul_div_right _ _ (by omega), div_eq_of_lt hi, zero_add]

theorem slot_mod (hi : i < v.slotCount) : (k * v.slotCount + i) % v.slotCount = i := by
  rw [mul_comm, mul_add_mod, mod_eq_of_lt hi]

theorem slot_at (hi : i < v.slotCount) : v.slot l (k * v.slotCount + i) o = v.content (l.getD k 0) (32 * i + o) := by
  unfold slot
  rw [slot_div hi, slot_mod hi]

theorem slot_append (hs : v.geom.Sound) (rest : List Nat) {m : Nat} (hm : m < l.length * v.slotCount) :
    v.slot (l ++ rest) m = v.slot l m := by
  unfold slot
  rw [getD_append _ _ _ _ ((div_lt_iff_lt_mul (slotCount_pos hs)).2 hm)]

theorem inodeOf_at (hi : i < v.slotCount) : v.inodeOf dir l (k * v.slotCount + i) =
    inodeAt dir (l.getD k 0) (v.content (l.getD k 0)) i (k * v.slotCount + i) := by
  unfold inodeOf
  rw [slot_div hi, slot_mod hi]

theorem entAttr_shift (buf : Mem) (a : Nat) : entAttr (fun o => buf (a + o)) 0 = entAttr buf a := by
  unfold entAttr
  rw [zero_add]

theorem entName_shift (buf : Mem) (a : Nat) : entName (fun o => buf (a + o)) 0 = entName buf a := by
  unfold entName
  simp only [zero_add]

def Passed (name : Name) (s : Mem) : Prop := ¬ AtEnd s ∧ (Unused s ∨ IsLfn s ∨ shortName s ≠ name)

def Hit (name : Name) (s : Mem) : Prop := ¬ Unused s ∧ ¬ IsLfn s ∧ shortName s = name

theorem lookupSlot_cases (dir : Inode) (name : Name) (c : Nat) (buf : Mem) (i index : Nat) {s : Mem}
    (hslot : s = fun o => buf (32 * i + o)) : (AtEnd s ∧ lookupSlot dir name c buf i index = (index, .ret none)) ∨
    (Passed name s ∧ lookupSlot dir name c buf i index = (index + 1, .next)) ∨
    (Hit name s ∧ lookupSlot dir name c buf i index = (index, .ret (some (inodeAt dir c buf i index)))) := by
  have h0 : s 0 = buf (32 * i) := by rw [hslot]; rfl
  have ha : entAttr s 0 = entAttr buf (32 * i) := by rw [hslot]; exact entAttr_shift ..
  have hn : shortName s = nameFromEntry (entName buf (32 * i)) := by
    unfold shortName
    rw [hslot, entName_shift]
  unfold lookupSlot Passed Hit AtEnd Unused IsLfn
  rw [h0, ha, hn]
  by_cases h1 : buf (32 * i) = 0#8
  · exact .inl ⟨h1, if_pos h1⟩
  rw [if_neg h1]
  by_cases h2 : buf (32 * i) = deleted
  · exact .inr (.inl ⟨⟨h1, .inl (.inr h2)⟩, if_pos h2⟩)
  rw [if_neg h2]
  by_cases h3 : entAttr buf (32 * i) = attrLfn
  · exact .inr (.inl ⟨⟨h1, .inr (.inl h3)⟩, if_pos h3⟩)
  rw [if_neg h3]
  by_cases h4 : nameFromEntry (entName buf (32 * i)) = name
  · exact .inr (.inr ⟨⟨by rintro (h | h); exacts [h1 h, h2 h], h3, h4⟩, if_pos h4⟩)
  · exact .inr (.inl ⟨⟨h1, .inr (.inr h4)⟩, if_neg h4⟩)

/-- How the search for a name in slots `0, 1, …` comes out: `d` from slot `a` on, `a` of them passed already. -/
def Outcome (d : Nat → Mem) (name : Name) (len : Nat) (found : Nat → Inode) : Option (Option Inode) → Prop
  | none => ∀ n, n < len → Passed name (d n)
  | some none => ∃ n, n < len ∧ (∀ j, j < n → Passed name (d j)) ∧ AtEnd (d n)
  | some (some inode) => ∃ n, n < len ∧ (∀ j, j < n → Passed name (d j)) ∧ Hit name (d n) ∧ inode = found n

/-- Cluster `k` of the directory reads as `buf`: there lie the slots `d` from `k * slotCount` on. -/
structure Row (v : Fat32) (dir : Inode) (l : List Nat) (d : Nat → Mem) (found : Nat → Inode) (k : Nat) (buf : Mem) :
    Prop where
  read : v.readCluster (l.getD k 0) = some buf
  slot : ∀ i, i < v.slotCount → d (k * v.slotCount + i) = fun o => buf (32 * i + o)
  inode : ∀ i, i < v.slotCount → found (k * v.slotCount + i) = inodeAt dir (l.getD k 0) buf i (k * v.slotCount + i)

theorem row_content (h : v.readCluster (l.getD k 0) = some (v.content (l.getD k 0))) :
    Row v dir l (v.slot l) (v.inodeOf dir l) k (v.content (l.getD k 0)) :=
  ⟨h, fun _ hi => funext (fun _ => slot_at hi), fun _ hi => inodeOf_at hi⟩

variable {d : Nat → Mem} {found : Nat → Inode} {buf : Mem}

theorem lookupSlots_outcome (hrow : Row v dir l d found k buf) (name : Name)
    (hpre : ∀ n, n < k * v.slotCount → Passed name (d n)) :
    LoopPost (fun index => index = (k + 1) * v.slotCount ∧ Outcome d name ((k + 1) * v.slotCount) found none)
      (fun _ r => Outcome d name ((k + 1) * v.slotCount) found (some r))
      (forLoop (lookupSlot dir name (l.getD k 0) buf) v.slotCount 0 (k * v.slotCount)) := by
  refine forLoop_rule (fun j index => index = k * v.slotCount + j ∧
      ∀ n, n < k * v.slotCount + j → Passed name (d n)) v.slotCount 0 _ ⟨rfl, hpre⟩ ?_ ?_
  · rintro index ⟨rfl, h⟩
    rw [zero_add, ← succ_mul] at h ⊢
    exact ⟨rfl, h⟩
  rintro i index - hi ⟨rfl, h⟩
  rw [zero_add] at hi
  have hlt : k * v.slotCount + i < (k + 1) * v.slotCount := by
    rw [succ_mul]
    omega
  rcases lookupSlot_cases dir name (l.getD k 0) buf i (k * v.slotCount + i) (hrow.slot i hi) with
    ⟨hs, hr⟩ | ⟨hs, hr⟩ | ⟨hs, hr⟩
  · rw [hr]
    exact ⟨_, hlt, h, hs⟩
  · rw [hr]
    refine ⟨rfl, fun n hn => ?_⟩
    rcases lt_or_ge n (k * v.slotCount + i) with hlt | hge
    · exact h n hlt
    · obtain rfl : n = k * v.slotCount + i := by omega
      exact hs
  · rw [hr]
    exact ⟨_, hlt, h, hs, (hrow.inode i hi).symm⟩

theorem Outcome.mono {len len' : Nat} {r : Option Inode} (h : len ≤ len')
    (ho : Outcome d name len found (some r)) : Outcome d name len' found (some r) := by
  cases r with
  | none =>
    obtain ⟨n, hn, ho⟩ := ho
    exact ⟨n, by omega, ho⟩
  | some inode =>
    obtain ⟨n, hn, ho⟩ := ho
    exact ⟨n, by omega, ho⟩

structure DirOk (v : Fat32) (dir : Inode) (l : List Nat) : Prop where
  sound : v.geom.Sound
  chain : v.Chain dir.firstCluster l
  onDevice : ∀ x ∈ l, v.geom.OnDevice x
  nonempty : l ≠ []

theorem rows_on (dir : Inode) (hs : v.geom.Sound) (hidx : ∀ x ∈ l, v.geom.Index x) (hon : ∀ x ∈ l, v.geom.OnDevice x) :
    ∀ k, k < l.length → ∃ buf, Row v dir l (v.slot l) (v.inodeOf dir l) k buf :=
  fun _ hk => ⟨_, row_content (readCluster_on hs (hidx _ (getD_mem hk)) (hon _ (getD_mem hk)))⟩

theorem DirOk.read (h : DirOk v dir l) (hk : k < l.length) :
    v.readCluster (l.getD k 0) = some (v.content (l.getD k 0)) :=
  readCluster_on h.sound (h.chain.index _ (getD_mem hk)) (h.onDevice _ (getD_mem hk))

theorem drop_cons {ls : List Nat} {c : Nat} (h : l.drop k = c :: ls) :
    k < l.length ∧ c = l.getD k 0 ∧ l.drop (k + 1) = ls := by
  have hk : k < l.length := by
    rcases lt_or_ge k l.length with hk | hk
    · exact hk
    · rw [drop_of_length_le hk] at h
      cases h
  rw [drop_eq_getElem_cons hk] at h
  cases h
  exact ⟨hk, (getD_eq_getElem _ _ hk).symm, rfl⟩

theorem lookupLoop_outcome (hrow : ∀ k, k < l.length → ∃ buf, Row v dir l d found k buf)
    (name : Name) (e : Nat) (rest : List Nat) : ∀ (ls : List Nat) (k : Nat), l.drop k = ls →
    (∀ n, n < k * v.slotCount → Passed name (d n)) → k ≤ l.length →
    ∃ r, Outcome d name (l.length * v.slotCount) found r ∧ match r with
      | none => listLoop (v.lookupCluster dir name) (ls ++ rest) e (k * v.slotCount) =
          listLoop (v.lookupCluster dir name) rest e (l.length * v.slotCount)
      | some r => ∃ index c, listLoop (v.lookupCluster dir name) (ls ++ rest) e (k * v.slotCount) = (index, c, some r)
  | [], k, hk, hpre, hle => by
    obtain rfl : k = l.length := by
      have := drop_eq_nil_iff.1 hk
      omega
    exact ⟨none, hpre, rfl⟩
  | c :: ls, k, hdrop, hpre, hle => by
    obtain ⟨hk, rfl, hdrop'⟩ := drop_cons hdrop
    have hle : (k + 1) * v.slotCount ≤ l.length * v.slotCount := mul_le_mul_right _ hk
    obtain ⟨buf, hbuf⟩ := hrow k hk
    have hone := lookupSlots_outcome hbuf name hpre
    rw [cons_append]
    revert hone
    rcases hslots : forLoop (lookupSlot dir name (l.getD k 0) buf) v.slotCount 0 (k * v.slotCount) with
      ⟨index, _ | r⟩
    · intro hone
      obtain ⟨rfl, hpre'⟩ := hone.1 rfl
      have hbody : v.lookupCluster dir name (l.getD k 0) (k * v.slotCount) = ((k + 1) * v.slotCount, .next) := by
        unfold lookupCluster
        rw [hbuf.read]
        dsimp only
        rw [hslots]
      rw [listLoop_next hbody]
      exact lookupLoop_outcome hrow name e rest ls (k + 1) hdrop' hpre' hk
    · intro hone
      have hbody : v.lookupCluster dir name (l.getD k 0) (k * v.slotCount) = (index, .ret r) := by
        unfold lookupCluster
        rw [hbuf.read]
        dsimp only
        rw [hslots]
      rw [listLoop_ret hbody]
      exact ⟨some r, Outcome.mono hle (hone.2 r rfl), _, _, rfl⟩

theorem Passed.not_main (h : Passed name (d n)) (hm : Main d n) : shortName (d n) ≠ name := by
  rcases h.2 with hf | hf | hf
  · exact absurd hf hm.1.2
  · exact absurd hf hm.2
  · exact hf

theorem Outcome.cases {len : Nat} : ∀ {r : Option (Option Inode)},
    Outcome d name len found r → (r.getD none = none ∧ ∀ n, n < len → Main d n → shortName (d n) ≠ name) ∨
      ∃ n, r.getD none = some (found n) ∧ FoundAt d len name n
  | none, ho => .inl ⟨rfl, fun n hn hm => (ho n hn).not_main hm⟩
  | some none, ho => by
    obtain ⟨n, hn, hpass, hend⟩ := ho
    refine .inl ⟨rfl, fun j hj hm => ?_⟩
    rcases lt_or_ge j n with hlt | hge
    · exact (hpass j hlt).not_main hm
    · exact absurd hend (hm.1.1 n hge)
  | some (some inode), ho => by
    obtain ⟨n, hn, hpass, ⟨hfree, hlfn, hname⟩, rfl⟩ := ho
    refine .inr ⟨n, rfl, hn, ⟨⟨fun j hj => ?_, hfree⟩, hlfn⟩, hname, fun j hj hm => (hpass j hj).not_main hm⟩
    rcases hj.lt_or_eq with hlt | rfl
    · exact (hpass j hlt).1
    · exact fun hend => hfree (.inl hend)

/-- A directory that can be read to its end; its clusters may be free ones. -/
structure Readable (v : Fat32) (dir : Inode) (l : List Nat) : Prop where
  trail : ∃ e, Trail v.nextCluster offChain dir.firstCluster l e
  turns : l.length ≤ v.turns
  read : ∀ k, k < l.length → v.readCluster (l.getD k 0) = some (v.content (l.getD k 0))

theorem DirOk.readable (h : DirOk v dir l) : Readable v dir l := ⟨h.chain.trail, h.chain.turns, fun _ hk => h.read hk⟩

/-- **`fat32_lookup`** finds the first main entry with the name, or there is none. -/
theorem lookup_rows {e : Nat} (he : Trail v.nextCluster offChain dir.firstCluster l e) (hturns : l.length ≤ v.turns)
    (hrow : ∀ k, k < l.length → ∃ buf, Row v dir l d found k buf) (name : Name) :
    (v.lookup dir name = .ok none ∧ ∀ n, n < l.length * v.slotCount → Main d n → shortName (d n) ≠ name) ∨
    ∃ n, v.lookup dir name = .ok (some (found n)) ∧ FoundAt d (l.length * v.slotCount) name n := by
  obtain ⟨r, ho, hr⟩ := lookupLoop_outcome hrow name e [] l 0 rfl (fun n hn => absurd hn (by omega)) (zero_le _)
  rw [zero_mul, append_nil] at hr
  have hlookup : v.lookup dir name = .ok (r.getD none) := by
    unfold Fat32.lookup
    rw [trailLoop_eq he hturns]
    match r, hr with
    | none, hr =>
      rw [hr]
      rfl
    | some r, ⟨_, _, hr⟩ =>
      rw [hr]
      rfl
  rw [hlookup]
  rcases ho.cases with ⟨hnone, hno⟩ | ⟨n, hsome, hf⟩
  · exact .inl ⟨by rw [hnone], hno⟩
  · exact .inr ⟨n, by rw [hsome], hf⟩

theorem Readable.lookup (h : Readable v dir l) (name : Name) : (v.lookup dir name = .ok none ∧
      ∀ n, n < l.length * v.slotCount → Main (v.slot l) n → shortName (v.slot l n) ≠ name) ∨
    ∃ n, v.lookup dir name = .ok (some (v.inodeOf dir l n)) ∧ FoundAt (v.slot l) (l.length * v.slotCount) name n := by
  obtain ⟨e, he⟩ := h.trail
  exact lookup_rows he h.turns (fun k hk => ⟨_, row_content (h.read k hk)⟩) name

theorem lookup_cases (h : DirOk v dir l) (name : Name) : (v.lookup dir name = .ok none ∧
      ∀ n, n < l.length * v.slotCount → Main (v.slot l) n → shortName (v.slot l n) ≠ name) ∨
    ∃ n, v.lookup dir name = .ok (some (v.inodeOf dir l n)) ∧ FoundAt (v.slot l) (l.length * v.slotCount) name n :=
  h.readable.lookup name

theorem lookup_unreadable {z : Nat} (hs : v.geom.Sound) (hch : v.Chain dir.firstCluster (l ++ [z]))
    (hon : ∀ x ∈ l, v.geom.OnDevice x) (hz : ¬ v.geom.OnDevice z)
    (hno : ∀ n, n < l.length * v.slotCount → Main (v.slot l) n → shortName (v.slot l n) ≠ name) :
    v.lookup dir name = .ok none := by
  obtain ⟨e, he⟩ := hch.trail
  have hrow := rows_on dir hs (fun x hx => hch.index x (mem_append_left _ hx)) hon
  have hzread : v.readCluster z = none := readCluster_off hs (hch.index z (by simp)) hz
  obtain ⟨r, ho, hr⟩ := lookupLoop_outcome hrow name e [z] l 0 rfl (fun n hn => absurd hn (by omega)) (zero_le _)
  rw [zero_mul] at hr
  unfold lookup
  rw [trailLoop_eq he hch.turns]
  match r, ho, hr with
  | none, _, hr =>
    rw [hr]
    unfold listLoop lookupCluster
    rw [hzread]
    rfl
  | some none, _, ⟨_, _, hr⟩ =>
    rw [hr]
    rfl
  | some (some inode), ⟨n, hn, hpass, hhit, _⟩, _ =>
    have hm : Main (v.slot l) n := by
      refine ⟨⟨fun j hj => ?_, hhit.1⟩, hhit.2.1⟩
      rcases hj.lt_or_eq with hlt | rfl
      · exact (hpass j hlt).1
      · exact fun hend => hhit.1 (.inl hend)
    exact absurd hhit.2.2 (hno n hn hm)

theorem FoundAt.unique {len m : Nat} (h : FoundAt d len name n) (h' : FoundAt d len name m) : n = m := by
  rcases lt_trichotomy n m with hlt | heq | hlt
  · exact absurd h.name_eq (h'.first n hlt h.main)
  · exact heq
  · exact absurd h'.name_eq (h.first m hlt h'.main)

theorem lookup_found (h : DirOk v dir l) (hf : FoundAt (v.slot l) (l.length * v.slotCount) name n) :
    v.lookup dir name = .ok (some (v.inodeOf dir l n)) := by
  rcases lookup_cases h name with ⟨-, hno⟩ | ⟨m, hm, hf'⟩
  · exact absurd hf.name_eq (hno n hf.lt hf.main)
  · rwa [hf.unique hf']

theorem lookup_prefix {rest : List Nat} (hs : v.geom.Sound) (hch : v.Chain dir.firstCluster (l ++ rest))
    (hon : ∀ x ∈ l, v.geom.OnDevice x) (hf : FoundAt (v.slot l) (l.length * v.slotCount) name n) :
    v.lookup dir name = .ok (some (v.inodeOf dir l n)) := by
  obtain ⟨e, he⟩ := hch.trail
  have hrow := rows_on dir hs (fun x hx => hch.index x (mem_append_left _ hx)) hon
  obtain ⟨r, ho, hr⟩ := lookupLoop_outcome hrow name e rest l 0 rfl (fun n hn => absurd hn (by omega)) (zero_le _)
  rcases ho.cases with ⟨-, hno⟩ | ⟨m, hsome, hf'⟩
  · exact absurd hf.name_eq (hno n hf.lt hf.main)
  obtain rfl := hf.unique hf'
  unfold lookup
  rw [trailLoop_eq he hch.turns]
  match r, hr, hsome with
  | some r, ⟨_, _, hr⟩, hsome =>
    rw [zero_mul] at hr
    rw [hr]
    exact congrArg Res.ok hsome

/-! ## The search for a free slot -/

theorem freeSlot_cases (v : Fat32) (buf : Mem) :
    (v.freeSlot buf = none ∧ ∀ i, i < v.slotCount → ¬ Unused (fun o => buf (32 * i + o))) ∨
    ∃ i, v.freeSlot buf = some i ∧ i < v.slotCount ∧ Unused (fun o => buf (32 * i + o)) ∧
      ∀ j, j < i → ¬ Unused (fun o => buf (32 * j + o)) := by
  unfold freeSlot Unused
  cases hf : (List.range v.slotCount).find? (fun i => decide (buf (32 * i) = 0#8 ∨ buf (32 * i) = deleted)) with
  | none =>
    refine .inl ⟨rfl, fun i hi => ?_⟩
    have := List.find?_eq_none.1 hf i (mem_range.2 hi)
    simpa using this
  | some i =>
    rw [List.find?_range_eq_some] at hf
    obtain ⟨hp, hi, hlt⟩ := hf
    refine .inr ⟨i, rfl, mem_range.1 hi, by simpa using hp, fun j hj => ?_⟩
    have := hlt j hj
    simpa using this

def SearchOutcome (v : Fat32) (l : List Nat) (r : Search × Nat × Option Unit) : Prop :=
  (∃ n, n < l.length * v.slotCount ∧ Unused (v.slot l n) ∧ (∀ j, j < n → ¬ Unused (v.slot l j)) ∧
    r = ({ buf := v.content (l.getD (n / v.slotCount) 0), index := n, slot := some (n % v.slotCount) },
      l.getD (n / v.slotCount) 0, none)) ∨
  ((∀ n, n < l.length * v.slotCount → ¬ Unused (v.slot l n)) ∧
    ∃ buf e, r = ({ buf := buf, index := l.length * v.slotCount, slot := none }, e, none))

theorem searchLoop_outcome (h : DirOk v dir l) (strict : Bool) (e : Nat) : ∀ (ls : List Nat) (k : Nat) (buf : Mem),
    l.drop k = ls → (∀ n, n < k * v.slotCount → ¬ Unused (v.slot l n)) → k ≤ l.length →
    SearchOutcome v l (listLoop (v.searchCluster strict) ls e { buf := buf, index := k * v.slotCount, slot := none })
  | [], k, buf, hk, hpre, hle => by
    obtain rfl : k = l.length := by
      have := drop_eq_nil_iff.1 hk
      omega
    exact .inr ⟨hpre, _, _, rfl⟩
  | c :: ls, k, buf, hdrop, hpre, hle => by
    obtain ⟨hk, rfl, hdrop'⟩ := drop_cons hdrop
    have hslot : ∀ i, i < v.slotCount → v.slot l (k * v.slotCount + i) = fun o => v.content (l.getD k 0) (32 * i + o) :=
      fun i hi => funext (fun o => slot_at hi)
    rcases freeSlot_cases v (v.content (l.getD k 0)) with ⟨hnone, hall⟩ | ⟨i, hsome, hi, hun, hlt⟩
    · have hbody : v.searchCluster strict (l.getD k 0) { buf := buf, index := k * v.slotCount, slot := none } =
          ({ buf := v.content (l.getD k 0), index := k * v.slotCount + v.slotCount, slot := none }, .next) := by
        unfold searchCluster
        rw [h.read hk]
        simp only [Option.getD_some, hnone]
      rw [listLoop_next hbody, ← succ_mul]
      refine searchLoop_outcome h strict e ls (k + 1) _ hdrop' (fun n hn => ?_) hk
      rcases lt_or_ge n (k * v.slotCount) with hn' | hn'
      · exact hpre n hn'
      · rw [succ_mul] at hn
        have := hall (n - k * v.slotCount) (by omega)
        rwa [← hslot _ (by omega), Nat.add_sub_cancel' hn'] at this
    · have hbody : v.searchCluster strict (l.getD k 0) { buf := buf, index := k * v.slotCount, slot := none } =
          ({ buf := v.content (l.getD k 0), index := k * v.slotCount + i, slot := some i }, .brk) := by
        unfold searchCluster
        rw [h.read hk]
        simp only [Option.getD_some, hsome]
      unfold listLoop
      rw [hbody]
      have hle : (k + 1) * v.slotCount ≤ l.length * v.slotCount := mul_le_mul_right _ hk
      rw [succ_mul] at hle
      refine .inl ⟨k * v.slotCount + i, by omega, by rwa [hslot i hi], fun j hj => ?_,
        by rw [slot_div hi, slot_mod hi]⟩
      rcases lt_or_ge j (k * v.slotCount) with hj' | hj'
      · exact hpre j hj'
      · have := hlt (j - k * v.slotCount) (by omega)
        rwa [← hslot _ (by omega), Nat.add_sub_cancel' hj'] at this

/-- **The search for a free slot.** -/
theorem searchDir_cases (h : DirOk v dir l) (strict : Bool) :
    ∃ r, v.searchDir strict dir = .ok r ∧ SearchOutcome v l r := by
  obtain ⟨e, he⟩ := h.chain.trail
  refine ⟨_, trailLoop_eq he h.chain.turns, ?_⟩
  have := searchLoop_outcome h strict e l 0 blank rfl (fun n hn => absurd hn (by omega)) (zero_le _)
  rwa [zero_mul] at this

/-- **The slots after one cluster of a directory was rewritten**, the cluster of slot `n`. -/
theorem slot_of_content {w : Fat32} (buf : Mem) (hs : v.geom.Sound) (hg : w.geom = v.geom) (hnd : l.Nodup)
    (hn : n < l.length * v.slotCount)
    (hcl : ∀ x, x < v.bytesPerCluster → w.content (l.getD (n / v.slotCount) 0) x = buf x)
    (hother : ∀ d ∈ l, d ≠ l.getD (n / v.slotCount) 0 → ∀ x, x < v.bytesPerCluster → w.content d x = v.content d x)
    {m : Nat} (hm : m < l.length * v.slotCount) (ho : o < 32) : w.slot l m o =
      if m / v.slotCount = n / v.slotCount then buf (32 * (m % v.slotCount) + o) else v.slot l m o := by
  have hpos := slotCount_pos hs
  have hbytes := slotCount_bytes hs
  have hx : 32 * (m % v.slotCount) + o < v.bytesPerCluster := by
    have := mod_lt m hpos
    omega
  have hml := div_lt_of_lt hm
  have hnl := div_lt_of_lt hn
  unfold slot
  rw [slotCount_geom hg]
  by_cases heq : m / v.slotCount = n / v.slotCount
  · rw [if_pos heq, heq]
    exact hcl _ hx
  · rw [if_neg heq, getD_eq_getElem _ _ hml]
    refine hother _ (getElem_mem hml) (fun hc => heq ?_) _ hx
    rw [getD_eq_getElem _ _ hnl] at hc
    exact hnd.getElem_inj_iff.1 hc

end

end Fat32

end OS64
