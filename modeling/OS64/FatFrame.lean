import OS64.FatNaming
/-!
# FatFrame — what a directory keeps when entries come and go

The slots of a directory belong to its entries: a main entry owns the long-name slots right before it.  `EntryFits` is
what the slots before a call must satisfy for a new entry to leave the others as they are (`NewEntry.kept_iff`).
-/
namespace OS64

open Nat

namespace Fat32

/-- Slot `j` is the main entry `n` or one of the long-name slots right before it. -/
def Owned (d : Nat → Mem) (n j : Nat) : Prop :=
  j ≤ n ∧ Main d n ∧ ∀ i, j ≤ i → i < n → ¬ Unused (d i) ∧ IsLfn (d i)

/-- The long-name slots are numbered down to their main entry, the first of them is marked, and none is left over. -/
structure WellFormed (d : Nat → Mem) (len : Nat) : Prop where
  most : ∀ n j, n < len → Owned d n j → n - j ≤ 20
  marked : ∀ n j, n < len → j < n → Owned d n j → (j = 0 ∨ ¬ Owned d n (j - 1)) → (d j 0).toNat = 64 + (n - j)
  numbered : ∀ n j, n < len → j + 1 < n → Owned d n j → (d (j + 1) 0).toNat = n - (j + 1)
  orphans : ∀ j, j < len → Live d j → IsLfn (d j) → ∃ n, n < len ∧ j < n ∧ Owned d n j

/-- The entries but those of `gone` hold the same bytes, and are found if they were. -/
structure Kept (d d' : Nat → Mem) (len : Nat) (gone : Nat → Prop) : Prop where
  bytes : ∀ j, j < len → Live d j → ¬ gone j → SameSlot (d' j) (d j)
  found : ∀ name m, FoundAt d len name m → ¬ gone m → FoundAt d' len name m

structure FirstFree (d : Nat → Mem) (len p : Nat) : Prop where
  le : p ≤ len
  isFree : p < len → Unused (d p)
  first : ∀ j, j < p → ¬ Unused (d j)

/-- The slots behind `p` that a new entry takes hold no other one (or what is written), and no entry behind it has the
name that its short form decodes to. -/
structure EntryFits (d : Nat → Mem) (len : Nat) (gone : Nat → Prop) (p k : Nat) (name : Name) (main : Mem) : Prop where
  room : ∀ j, j < len → p < j → j ≤ p + k → Live d j → gone j ∨ j = p + k ∧ SameSlot (d j) main
  shadow : (nameToEntry name).getD 0 0#8 ≠ deleted → ∀ m, p + k < m →
    FoundAt d len (nameFromEntry (nameToEntry name)) m → gone m

section
variable {d d' : Nat → Mem} {len n m j p k : Nat} {name : Name} {gone : Nat → Prop} {main : Mem}

theorem FirstFree.unique {q : Nat} (hp : FirstFree d len p) (hq : FirstFree d len q) : p = q := by
  have hple := hp.le
  have hqle := hq.le
  rcases lt_trichotomy p q with hlt | heq | hgt
  · exact absurd (hp.isFree (by omega)) (hq.first p hlt)
  · exact heq
  · exact absurd (hq.isFree (by omega)) (hp.first q hgt)

/-! ## Slots and their owners -/

theorem Owned.self (h : Main d n) : Owned d n n := ⟨le_refl n, h, fun i hi hin => absurd hi (by omega)⟩

theorem Owned.live (h : Owned d n j) : Live d j := by
  refine ⟨fun i hi => h.2.1.1.1 i (by have := h.1; omega), ?_⟩
  rcases lt_or_eq_of_le h.1 with hlt | rfl
  · exact (h.2.2 j (le_refl j) hlt).1
  · exact h.2.1.1.2

theorem Owned.mono {i : Nat} (h : Owned d n j) (hj : j ≤ i) (hi : i ≤ n) : Owned d n i :=
  ⟨hi, h.2.1, fun a ha han => h.2.2 a (by omega) han⟩

theorem Owned.isLfn (h : Owned d n j) (hj : j < n) : IsLfn (d j) := (h.2.2 j (le_refl j) hj).2

theorem Owned.unique (h : Owned d n j) (h' : Owned d m j) : n = m := by
  rcases lt_trichotomy n m with hlt | heq | hgt
  · exact absurd (h'.2.2 n h.1 hlt).2 h.2.1.2
  · exact heq
  · exact absurd (h.2.2 m h'.1 hgt).2 h'.2.1.2

theorem Owned.eq_of_main (h : Owned d n m) (hm : Main d m) : m = n := (Owned.self hm).unique h

theorem Owned.exists_first (h : Owned d n j) : ∃ z, z ≤ j ∧ Owned d n z ∧ (z = 0 ∨ ¬ Owned d n (z - 1)) := by
  induction j with
  | zero => exact ⟨0, le_refl 0, h, .inl rfl⟩
  | succ j ih =>
    by_cases hj : Owned d n j
    · obtain ⟨z, hz, hrest⟩ := ih hj
      exact ⟨z, by omega, hrest⟩
    · exact ⟨j + 1, le_rfl, h, .inr hj⟩

theorem and_marked : ∀ x, x ≤ 20 → (64 + x) &&& 64 ≠ 0 := by decide

/-! ## A new entry among the others -/

/-- What the slots before a new entry is written have of the directory: the slots of `gone` may be deleted. -/
structure Thinned (d dm : Nat → Mem) (len : Nat) (gone : Nat → Prop) : Prop where
  same : ∀ j, j < len → ¬ gone j → SameSlot (dm j) (d j)
  gone : ∀ j, j < len → gone j → SameSlot (dm j) (d j) ∨ dm j 0 = deleted

/-- The slots that may be deleted are those of whole entries, from some slot on. -/
def Closed (d : Nat → Mem) (gone : Nat → Prop) : Prop :=
  ∀ n j, gone j → Owned d n j → ∀ i, j ≤ i → i ≤ n → gone i

variable {dm : Nat → Mem}

theorem Thinned.atEnd (h : Thinned d dm len gone) (hj : j < len) (he : AtEnd (dm j)) : AtEnd (d j) := by
  by_cases hg : gone j
  · rcases h.gone j hj hg with hs | hdel
    · exact hs.atEnd.1 he
    · exact absurd (hdel.symm.trans he) (by decide)
  · exact (h.same j hj hg).atEnd.1 he

theorem Thinned.sameSlot (h : Thinned d dm len gone) (hj : j < len) (hu : ¬ Unused (dm j)) : SameSlot (dm j) (d j) := by
  by_cases hg : gone j
  · rcases h.gone j hj hg with hs | hdel
    · exact hs
    · exact absurd (.inr hdel) hu
  · exact h.same j hj hg

theorem FoundAt.of_slots (h : FoundAt d len name m) (hend : ∀ j, j ≤ m → AtEnd (d' j) → AtEnd (d j))
    (hm : SameSlot (d' m) (d m)) (hsame : ∀ j, j < m → Main d' j → shortName (d' j) = name → SameSlot (d' j) (d j)) :
    FoundAt d' len name m := by
  refine ⟨h.lt, ⟨⟨fun j hj he => h.main.1.1 j hj (hend j hj he), fun hu => h.main.1.2 (hm.unused.1 hu)⟩,
    fun hl => h.main.2 (hm.isLfn.1 hl)⟩, hm.shortName.trans h.name_eq, fun j hj hmj hc => ?_⟩
  have hs := hsame j hj hmj hc
  exact h.first j hj ⟨⟨fun i hi => h.main.1.1 i (by omega), fun hu => hmj.1.2 (hs.unused.2 hu)⟩,
    fun hl => hmj.2 (hs.isLfn.2 hl)⟩ (hs.shortName.symm.trans hc)

/-- **A new entry that fits leaves the others as they are.** -/
theorem NewEntry.frame (h : NewEntry dm d' len p k name) (ht : Thinned d dm len gone)
    (hz : (nameToEntry name).getD 0 0#8 ≠ 0#8) (hmain : SameSlot (d' (p + k)) main)
    (hfit : EntryFits d len gone p k name main) : Kept d d' len gone := by
  have hslot : ∀ j, j < len → Live d j → ¬ gone j → SameSlot (d' j) (d j) := fun j hj hlive hg => by
    by_cases hin : p ≤ j ∧ j ≤ p + k
    · rcases lt_or_eq_of_le hin.1 with hpj | rfl
      · rcases hfit.room j hj hpj hin.2 hlive with hc | ⟨rfl, hsame⟩
        · exact absurd hc hg
        · exact fun o ho => (hmain o ho).trans (hsame o ho).symm
      · exact absurd ((ht.same p hj hg).unused.1 h.wasFree) hlive.2
    · exact fun o ho => (h.kept j hj hin o ho).trans (ht.same j hj hg o ho)
  refine ⟨hslot, fun name' m hf hg => ?_⟩
  have hm := hf.lt
  refine hf.of_slots (fun j hj he => ?_) (hslot m hm hf.main.1 hg) (fun j hj hmj hc => ?_)
  · by_cases hin : p ≤ j ∧ j ≤ p + k
    · exact absurd he (h.visible hz j hin.2)
    · exact ht.atEnd (by omega) ((h.kept j (by omega) hin).atEnd.1 he)
  by_cases hin : p ≤ j ∧ j ≤ p + k
  · rcases lt_or_eq_of_le hin.2 with hlt' | rfl
    · have := (h.lfn (j - p) (by omega)).2
      rw [Nat.add_sub_cancel' hin.1] at this
      exact absurd this hmj.2
    · rw [h.name_eq] at hc
      have hdel : (nameToEntry name).getD 0 0#8 ≠ deleted := fun hd => hmj.1.2 (.inr (h.byte.trans hd))
      exact absurd (hfit.shadow hdel m hj (hc ▸ hf)) hg
  · have hk := h.kept j (by omega) hin
    have hd := ht.sameSlot (by omega) (fun hu => hmj.1.2 (hk.unused.2 hu))
    exact fun o ho => (hk o ho).trans (hd o ho)

theorem NewEntry.overwritten (h : NewEntry dm d' len p k name) (hw : WellFormed d len) (hclosed : Closed d gone)
    (hun : ∀ i, 0 < i → i < k → (d' (p + i) 0).toNat &&& 64 = 0) (hpfree : Unused (d p)) (hpj : p < j) (hjk : j < p + k)
    (hlive : Live d j) (hg : ¬ gone j) (hfirst : ∀ i, p < i → i < j → Live d i → gone i) : ¬ SameSlot (d' j) (d j) := by
  intro hsame
  have hlt := h.lt
  have hlfn : IsLfn (d' j) := by
    have := (h.lfn (j - p) (by omega)).2
    rwa [Nat.add_sub_cancel' hpj.le] at this
  obtain ⟨m, hm, hjm, hown⟩ := hw.orphans j (by omega) hlive (hsame.isLfn.1 hlfn)
  -- no slot before it can belong to the same entry, so it carries the mark, and no slot written here does
  have hnot : ¬ Owned d m (j - 1) := fun hc => by
    rcases Nat.lt_or_eq_of_le (Nat.le_sub_one_of_lt hpj) with hlt' | heq
    · exact hg (hclosed m (j - 1) (hfirst (j - 1) hlt' (by omega) hc.live) hc j (by omega) hjm.le)
    · exact hc.live.2 (heq ▸ hpfree)
  have hmark := hw.marked m j hm hjm hown (.inr hnot)
  have hbit := hun (j - p) (by omega) (by omega)
  rw [Nat.add_sub_cancel' hpj.le, hsame 0 (by decide), hmark] at hbit
  exact and_marked _ (hw.most m j hm hown) hbit

/-- **A new entry leaves the others as they are exactly if it fits.** -/
theorem NewEntry.kept_iff (h : NewEntry dm d' len p k name) (ht : Thinned d dm len gone) (hw : WellFormed d len)
    (hclosed : Closed d gone) (hpgone : gone p → ∀ j, p < j → j ≤ p + k → gone j)
    (hun : ∀ i, 0 < i → i < k → (d' (p + i) 0).toNat &&& 64 = 0) (hz : (nameToEntry name).getD 0 0#8 ≠ 0#8)
    (hmain : SameSlot (d' (p + k)) main) : Kept d d' len gone ↔ EntryFits d len gone p k name main := by
  have hlt := h.lt
  refine ⟨fun hk => ⟨?_, fun hdel m hm hf => ?_⟩, h.frame ht hz hmain⟩
  · by_cases hpg : gone p
    · exact fun j _ hpj hjk _ => .inl (hpgone hpg j hpj hjk)
    have hpfree : Unused (d p) := (ht.same p (by omega) hpg).unused.1 h.wasFree
    -- by induction: all slots before `j` are those of `gone`
    have hall : ∀ j, p < j → j < p + k → Live d j → gone j := fun j => by
      induction j using Nat.strongRecOn with
      | _ j ih =>
        intro hpj hjk hlive
        by_contra hg
        exact h.overwritten hw hclosed hun hpfree hpj hjk hlive hg (fun i hi hij => ih i hij hi (by omega))
          (hk.bytes j (by omega) hlive hg)
    intro j hj hpj hjk hlive
    rcases hjk.lt_or_eq with hlt' | rfl
    · exact .inl (hall j hpj hlt' hlive)
    · by_cases hg : gone (p + k)
      · exact .inl hg
      · exact .inr ⟨rfl, fun o ho => (hk.bytes _ hj hlive hg o ho).symm.trans (hmain o ho)⟩
  · by_contra hg
    have hf' := hk.found _ m hf hg
    refine hf'.first (p + k) hm ⟨⟨h.visible hz, ?_⟩, h.main⟩ h.name_eq
    rintro (he | he)
    · exact hz (h.byte ▸ he)
    · exact hdel (h.byte ▸ he)

/-! ## Slots marked as deleted -/

def markedSlots (d : Nat → Mem) (a n : Nat) : Nat → Mem :=
  fun j o => if a ≤ j ∧ j ≤ n ∧ o = 0 then deleted else d j o

variable {a : Nat}

theorem markedSlots_same (h : ¬ (a ≤ j ∧ j ≤ n)) : SameSlot (markedSlots d a n j) (d j) :=
  fun _ _ => if_neg (fun hc => h ⟨hc.1, hc.2.1⟩)

theorem markedSlots_deleted (h : a ≤ j ∧ j ≤ n) : markedSlots d a n j 0 = deleted := if_pos ⟨h.1, h.2, rfl⟩

theorem thinned_marked (hown : Owned d n a) : Thinned d (markedSlots d a n) len (Owned d n) := by
  refine ⟨fun j _ hg => markedSlots_same (fun hc => hg (hown.mono hc.1 hc.2)), fun j _ _ => ?_⟩
  by_cases hin : a ≤ j ∧ j ≤ n
  · exact .inr (markedSlots_deleted hin)
  · exact .inl (markedSlots_same hin)

theorem closed_owned (d : Nat → Mem) (n : Nat) : Closed d (Owned d n) := by
  intro m j hg hown i hji him
  obtain rfl := hg.unique hown
  exact hown.mono hji him

/-- **Marking slots of an entry, its main one among them, leaves the others as they are.** -/
theorem kept_marked (hown : Owned d n a) : Kept d (markedSlots d a n) len (Owned d n) := by
  have ht : Thinned d (markedSlots d a n) len (Owned d n) := thinned_marked hown
  refine ⟨fun j hj _ hg => ht.same j hj hg, fun name m hf hg => ?_⟩
  have hm := hf.lt
  exact hf.of_slots (fun j hj he => ht.atEnd (by omega) he) (ht.same m hm hg)
    (fun j hj hmj _ => ht.sameSlot (by omega) hmj.1.2)

theorem Kept.of_marked (hown : Owned d n a) (hsame : ∀ j, j < len → SameSlot (d' j) (markedSlots d a n j)) :
    Kept d d' len (Owned d n) := by
  have hk : Kept d (markedSlots d a n) len (Owned d n) := kept_marked hown
  exact ⟨fun j hj hlive hg o ho => (hsame j hj o ho).trans (hk.bytes j hj hlive hg o ho),
    fun name m hm hg => (hk.found name m hm hg).of_head (fun j hj => (hsame j hj).symm.head)⟩

theorem WellFormed.first_before (hw : WellFormed d len) (hn : n < len)
    (hscan : ∀ i, a ≤ i → i < n → (d i 0).toNat &&& 64 = 0) (hj : j < n) (hown : Owned d n j) :
    ∃ z, z ≤ j ∧ z < a ∧ Owned d n z := by
  obtain ⟨z, hzj, hz, hfirst⟩ := hown.exists_first
  refine ⟨z, hzj, not_le.1 (fun hc => ?_), hz⟩
  have hbit := hscan z hc (by omega)
  rw [hw.marked n z hn (by omega) hz hfirst] at hbit
  exact and_marked _ (hw.most n z hn hz) hbit

/-! ## What is left of a removed entry -/

/-- No long-name slot of entry `n` is live as it was. -/
def NoRest (d d' : Nat → Mem) (n : Nat) : Prop :=
  ∀ j, j < n → Owned d n j → ¬ (Live d' j ∧ SameSlot (d' j) (d j))

theorem noRest_marked_iff (hsame : ∀ j, j ≤ n → SameSlot (d' j) (markedSlots d a n j)) :
    NoRest d d' n ↔ ∀ j, j < n → Owned d n j → a ≤ j := by
  constructor
  · intro h j hj hown
    by_contra hlt
    have hd : ∀ i, i ≤ j → SameSlot (d' i) (d i) := fun i hi o ho =>
      (hsame i (by omega) o ho).trans (markedSlots_same (fun hc => hlt (by omega)) o ho)
    have hlive := hown.live
    exact h j hj hown ⟨⟨fun i hi he => hlive.1 i hi ((hd i hi).atEnd.1 he),
      fun hu => hlive.2 ((hd j (le_refl j)).unused.1 hu)⟩, hd j (le_refl j)⟩
  · rintro h j hj hown ⟨hlive, -⟩
    have hdel := hsame j hj.le 0 (by decide)
    rw [markedSlots_deleted ⟨h j hj hown, hj.le⟩] at hdel
    exact hlive.2 (.inr hdel)

structure Scan (d : Nat → Mem) (n k : Nat) : Prop where
  le : k ≤ n
  own : Owned d n (n - k)
  unmarked : ∀ i, n - k ≤ i → i < n → (d i 0).toNat &&& 64 = 0

theorem WellFormed.number_cases (hw : WellFormed d len) (hn : n < len) (hj : j < n) (hown : Owned d n j) :
    (d j 0).toNat = n - j ∨ (d j 0).toNat = 64 + (n - j) := by
  by_cases hfirst : j = 0 ∨ ¬ Owned d n (j - 1)
  · exact .inr (hw.marked n j hn hj hown hfirst)
  obtain ⟨h0, hprev⟩ : j ≠ 0 ∧ Owned d n (j - 1) := by
    constructor
    · exact fun hc => hfirst (.inl hc)
    · by_contra hc
      exact hfirst (.inr hc)
  have hnum := hw.numbered n (j - 1) hn (by omega) hprev
  rw [Nat.sub_add_cancel (Nat.one_le_iff_ne_zero.2 h0)] at hnum
  exact .inl hnum

theorem Scan.number (h : Scan d n k) (hw : WellFormed d len) (hn : n < len) (hj : n - k ≤ j) (hjn : j < n) :
    (d j 0).toNat = n - j := by
  have hown := h.own.mono hj hjn.le
  rcases hw.number_cases hn hjn hown with hnum | hnum
  · exact hnum
  · have hbit := h.unmarked j hj hjn
    rw [hnum] at hbit
    exact absurd hbit (and_marked _ (hw.most n j hn hown))

/-- **What is left of an entry that was copied within its directory.** -/
theorem NewEntry.noRest_iff (h : NewEntry dm d' len p k name)
    (hdm : ∀ j, j < len → SameSlot (dm j) (markedSlots d (n - k) n j)) (hscan : Scan d n k) (hw : WellFormed d len)
    (hn : n < len) (hz : (nameToEntry name).getD 0 0#8 ≠ 0#8) (hcopy : ∀ i, i < k → d' (p + i) 0 = d (n - k + i) 0) :
    NoRest d d' n ↔ ∀ j, j < n → Owned d n j → n - k ≤ j ∨ p ≤ j ∧ j ≤ p + k := by
  constructor
  · intro hrest j hj hown
    by_contra hout
    have hd : ∀ i, i ≤ j → ¬ (p ≤ i ∧ i ≤ p + k) → SameSlot (d' i) (d i) := fun i hi hin o ho =>
      ((h.kept i (by omega) hin o ho).trans (hdm i (by omega) o ho)).trans
        (markedSlots_same (fun hc => hout (.inl (by omega))) o ho)
    have hlive := hown.live
    have hj' := hd j (le_refl j) (fun hc => hout (.inr hc))
    refine hrest j hj hown ⟨⟨fun i hi he => ?_, fun hu => hlive.2 (hj'.unused.1 hu)⟩, hj'⟩
    by_cases hin : p ≤ i ∧ i ≤ p + k
    · exact h.visible hz i hin.2 he
    · exact hlive.1 i hi ((hd i hi hin).atEnd.1 he)
  · rintro hall j hj hown ⟨hlive, hsame⟩
    by_cases hin : p ≤ j ∧ j ≤ p + k
    · rcases lt_or_eq_of_le hin.2 with hlt | rfl
      · -- the copy in slot `j` has the number of another slot, unless all were copied in place
        have hbyte := hcopy (j - p) (by omega)
        rw [Nat.add_sub_cancel' hin.1, hsame 0 (by decide)] at hbyte
        have hnum := hscan.number hw hn (j := n - k + (j - p)) (by omega) (by omega)
        rw [← hbyte] at hnum
        have hmost := hw.most n (n - k) hn hscan.own
        have hplace : p = n - k := by rcases hw.number_cases hn hj hown with hc | hc <;> omega
        obtain ⟨z, hzj, hza, hzown⟩ := hw.first_before hn hscan.unmarked hj hown
        rcases hall z (by omega) hzown with hc | hc <;> omega
      · exact h.main (hsame.isLfn.2 (hown.isLfn hj))
    · rcases hall j hj hown with hc | hc
      · have hdel := (h.kept j (by omega) hin 0 (by decide)).trans (hdm j (by omega) 0 (by decide))
        rw [markedSlots_deleted ⟨hc, hj.le⟩] at hdel
        exact hlive.2 (.inr hdel)
      · exact hin hc

end

end Fat32

end OS64
