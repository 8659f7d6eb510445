import OS64.Pmm
/-!
# PmmCount — the page counter agrees with the bitmap

`Counted s`: `used_pages` is the number of set bits below `total_pages`.  Setting a clear bit in range with the counter
going up, clearing a set one with it going down, and setting a bit past the end all keep it (`counted_take`,
`counted_give`, `counted_past`); every loop of the allocator is a sequence of these three.  What the page search does at
each page is said once, in its proof rule (`pmmAllocPage_rule`).
-/
namespace OS64

open Nat
namespace Pmm

variable {s : Pmm} {b t : Nat}

/-- `used_pages` equals the number of set bits among the first `total_pages`. -/
def Counted (s : Pmm) : Prop := s.usedPages = numSet s.used s.totalPages

/-- The bit array has room for every managed page: `pmm_bitmap` holds `2^29` bits. -/
def Fits (s : Pmm) : Prop := s.totalPages ≤ 536870912

instance (s : Pmm) : Decidable s.Counted := inferInstanceAs (Decidable (_ = _))

instance (s : Pmm) : Decidable s.Fits := inferInstanceAs (Decidable (_ ≤ _))

/-! ## What one written byte does to the pages -/

theorem used_set (s : Pmm) (b k i : Nat) (hk : k < 8) :
    (s.setByte b (maskSet (s.bits b) k)).used i = (s.used i || decide (i = 8 * b + k)) :=
  bitAt_set s.bits b k i hk

theorem used_clear (s : Pmm) (b k i : Nat) (hk : k < 8) :
    (s.setByte b (maskClear (s.bits b) k)).used i = (s.used i && !decide (i = 8 * b + k)) :=
  bitAt_clear s.bits b k i hk

theorem used_byte (s : Pmm) (b k : Nat) (hk : k < 8) : s.used (8 * b + k) = maskTest (s.bits b) k :=
  bitAt_byte s.bits b k hk

theorem page_split (i : Nat) : 8 * (i / 8) + i % 8 = i := div_add_mod i 8

theorem setByte_one (s : Pmm) (b : Nat) (h : s.bits b = 0x00#8) :
    s.setByte b 0x01#8 = s.setByte b (maskSet (s.bits b) 0) := by
  rw [h]; rfl

theorem bitmapBytes_of_fits (h : s.Fits) : s.bitmapBytes = (s.totalPages + 7) / 8 := by
  unfold bitmapBytes
  rw [u32_of_lt (by unfold Fits at h; omega)]

@[simp] theorem decUsed_used (s : Pmm) : s.decUsed.used = s.used := by unfold decUsed used; rfl

@[simp] theorem decUsed_totalPages (s : Pmm) : s.decUsed.totalPages = s.totalPages := by unfold decUsed; rfl

@[simp] theorem setByte_totalPages (s : Pmm) (b : Nat) (v : BitVec 8) : (s.setByte b v).totalPages = s.totalPages := rfl

@[simp] theorem setByte_usedPages (s : Pmm) (b : Nat) (v : BitVec 8) : (s.setByte b v).usedPages = s.usedPages := rfl

/-! ## The three updates -/

theorem counted_take (s : Pmm) (b k : Nat) (hk : k < 8) (hf : s.Fits) (hi : 8 * b + k < s.totalPages)
    (hfree : maskTest (s.bits b) k = false) (h : s.Counted) : (s.setByte b (maskSet (s.bits b) k)).incUsed.Counted := by
  have hcount : numSet (s.setByte b (maskSet (s.bits b) k)).used s.totalPages = numSet s.used s.totalPages + 1 := by
    apply numSet_flip hi
    · rw [used_byte s b k hk]; exact hfree
    · rw [used_set s b k _ hk]; simp
    · intro j _ hj
      rw [used_set s b k j hk]; simp [hj]
  have hle := numSet_le s.used s.totalPages
  unfold Fits at hf
  show u32 (s.usedPages + 1) = numSet (s.setByte b (maskSet (s.bits b) k)).used s.totalPages
  rw [hcount, h, u32_of_lt (by omega)]

theorem counted_give (s : Pmm) (b k : Nat) (hk : k < 8) (hf : s.Fits) (hi : 8 * b + k < s.totalPages)
    (hset : maskTest (s.bits b) k = true) (h : s.Counted) : (s.setByte b (maskClear (s.bits b) k)).decUsed.Counted := by
  have hcount : numSet s.used s.totalPages = numSet (s.setByte b (maskClear (s.bits b) k)).used s.totalPages + 1 := by
    apply numSet_flip hi
    · rw [used_clear s b k _ hk]; simp
    · rw [used_byte s b k hk]; exact hset
    · intro j _ hj
      rw [used_clear s b k j hk]; simp [hj]
  have hle := numSet_le s.used s.totalPages
  unfold Counted at h ⊢
  unfold Fits at hf
  rw [decUsed_used, decUsed_totalPages, setByte_totalPages]
  simp only [decUsed, setByte_usedPages, u32]
  omega

theorem counted_past (s : Pmm) (b k : Nat) (hk : k < 8) (hi : s.totalPages ≤ 8 * b + k) (h : s.Counted) :
    (s.setByte b (maskSet (s.bits b) k)).Counted := by
  unfold Counted at h ⊢
  rw [show (s.setByte b (maskSet (s.bits b) k)).usedPages = s.usedPages from rfl, h]
  refine (numSet_congr (fun j hj => ?_)).symm
  rw [used_set s b k j hk]
  have : ¬ j = 8 * b + k := by omega
  simp [this]

/-! ## The page search -/

theorem pageIdx_eq {k : Nat} (hf : s.Fits) (hb : 8 * b < s.totalPages) (hk : k < 8) : u32 (b * 8 + k) = 8 * b + k := by
  unfold Fits at hf
  rw [u32_of_lt (by omega)]
  omega

section
variable {I : Nat → Pmm → Prop} {Q : Pmm → Nat → Prop} (hf : s.Fits)
  (htotal : ∀ n t, I n t → t.totalPages = s.totalPages)
  (hskip : ∀ n t, I n t → t.used n = true → I (n + 1) t)
  (htake : ∀ b k t, k < 8 → I (8 * b + k) t → maskTest (t.bits b) k = false → 8 * b + k < s.totalPages →
    Q (t.setByte b (maskSet (t.bits b) k)).incUsed (t.pageAddr (8 * b + k)))
  (hpast : ∀ b k t, k < 8 → I (8 * b + k) t → maskTest (t.bits b) k = false → s.totalPages ≤ 8 * b + k →
    I (8 * b + (k + 1)) (t.setByte b (maskSet (t.bits b) k)))
include hf htotal hskip htake hpast

theorem allocPageBit_rule {k : Nat} {t : Pmm} (hb : 8 * b < s.totalPages) (hk : k < 8) (h : I (8 * b + k) t) :
    BodyPost (I (8 * b + (k + 1))) (I (8 * b + 8)) Q (allocPageBit b k t) := by
  unfold allocPageBit
  cases hm : maskTest (t.bits b) k with
  | true => exact hskip _ t h ((used_byte t b k hk).trans hm)
  | false =>
    simp only [Bool.not_false, if_true, pageIdx_eq hf hb hk, setByte_totalPages, htotal _ t h]
    split
    · rename_i hlt
      exact htake b k t hk h hm hlt
    · rename_i hge
      exact hpast b k t hk h hm (not_lt.1 hge)

theorem allocPageByte_rule {t : Pmm} (hb : 8 * b < s.totalPages) (h : I (8 * b) t) :
    BodyPost (I (8 * (b + 1))) (I (8 * s.bitmapBytes)) Q (allocPageByte b t) := by
  unfold allocPageByte allocPageZero
  by_cases hz : t.bits b = 0x00#8
  · have hidx : u32 (b * 8) = 8 * b := pageIdx_eq (k := 0) hf hb (by decide)
    have hfree : maskTest (t.bits b) 0 = false := by rw [hz]; rfl
    simp only [if_pos hz, setByte_one t b hz, hidx, setByte_totalPages, htotal _ t h, if_pos hb]
    exact htake b 0 t (by decide) h hfree hb
  simp only [if_neg hz]
  unfold allocPageBits
  by_cases hff : t.bits b = 0xFF#8
  · -- the byte is skipped, and its bits are set
    rw [if_neg (fun hne => hne hff)]
    have hall : ∀ k, k ≤ 8 → I (8 * b + k) t := fun k => by
      induction k with
      | zero => exact fun _ => h
      | succ k ih =>
        intro hk
        have hset : t.used (8 * b + k) = true := bitAt_of_full hff (by omega)
        exact hskip _ t (ih (le_of_succ_le hk)) hset
    exact hall 8 le_rfl
  · rw [if_pos hff]
    have hloop := forLoop_rule (fun k t => I (8 * b + k) t) 8 0 t h (fun _ ht => ht)
      (fun k t _ hk ht => allocPageBit_rule hf htotal hskip htake hpast hb (by omega) ht)
    exact hloop.cases (fun _ h => h) (fun _ _ h => h)

/-- **The rule of the page search**: a page in use is passed, the first free one taken, and bits behind the managed
pages are set. -/
theorem pmmAllocPage_rule (hp : s.bitmap ≠ 0) (h0 : I 0 s) :
    Q s.pmmAllocPage.1 s.pmmAllocPage.2 ∨ (s.pmmAllocPage.2 = 0 ∧ I (8 * s.bitmapBytes) s.pmmAllocPage.1) := by
  have hbytes := bitmapBytes_of_fits hf
  have hloop := forLoop_rule (fun b t => I (8 * b) t) s.bitmapBytes 0 s h0 (fun t ht => by rwa [zero_add] at ht)
    (fun b t _ hb ht => allocPageByte_rule hf htotal hskip htake hpast (by omega) ht)
  unfold pmmAllocPage
  rw [if_neg hp]
  exact hloop.cases (fun _ ht => .inr ⟨rfl, ht⟩) (fun _ _ ht => .inl ht)

end

/-! ## The loops

`Sound t s`: the counter agrees and the managed range is still the `t` pages the call started with. -/

structure Sound (t : Nat) (s : Pmm) : Prop where
  counted : s.Counted
  total : s.totalPages = t
  fits : t ≤ 536870912

theorem Sound.fits' (h : Sound t s) : s.Fits := by
  unfold Fits; rw [h.total]; exact h.fits

theorem Sound.setTake (h : Sound t s) (b k : Nat) (hk : k < 8) (hi : 8 * b + k < t)
    (hfree : maskTest (s.bits b) k = false) : Sound t (s.setByte b (maskSet (s.bits b) k)).incUsed :=
  ⟨counted_take s b k hk h.fits' (by rwa [h.total]) hfree h.counted, h.total, h.fits⟩

theorem Sound.setGive (h : Sound t s) (b k : Nat) (hk : k < 8) (hi : 8 * b + k < t)
    (hset : maskTest (s.bits b) k = true) : Sound t (s.setByte b (maskClear (s.bits b) k)).decUsed :=
  ⟨counted_give s b k hk h.fits' (by rwa [h.total]) hset h.counted, h.total, h.fits⟩

theorem Sound.setPast (h : Sound t s) (b k : Nat) (hk : k < 8) (hi : t ≤ 8 * b + k) :
    Sound t (s.setByte b (maskSet (s.bits b) k)) :=
  ⟨counted_past s b k hk (by rwa [h.total]) h.counted, h.total, h.fits⟩

theorem pmmAllocPage_sound (h : Sound t s) : Sound t s.pmmAllocPage.1 := by
  by_cases hp : s.bitmap = 0
  · unfold pmmAllocPage
    rwa [if_pos hp]
  have hrule := pmmAllocPage_rule (I := fun _ => Sound t) (Q := fun u _ => Sound t u) h.fits'
    (fun _ _ hu => hu.total.trans h.total.symm) (fun _ _ hu _ => hu)
    (fun b k u hk hu hfree hlt => hu.setTake b k hk (h.total ▸ hlt) hfree)
    (fun b k u hk hu _ hge => hu.setPast b k hk (h.total ▸ hge)) hp h
  exact hrule.elim id And.right

theorem markPage_sound {p i : Nat} {mark : Bool} (h : Sound t s) :
    BodyPost (Sound t) (Sound t) (fun s (_ : Unit) => Sound t s) (markPage p mark i s) := by
  unfold markPage
  simp only
  split
  · exact h
  have hi : u32 (p + i) < t := by rw [← h.total]; omega
  have hk : u32 (p + i) % 8 < 8 := mod_lt _ (by decide)
  rw [← page_split (u32 (p + i))] at hi
  cases mark with
  | true =>
    cases hm : maskTest (s.bits (u32 (p + i) / 8)) (u32 (p + i) % 8)
    · exact h.setTake _ _ hk hi hm
    · exact h
  | false =>
    cases hm : maskTest (s.bits (u32 (p + i) / 8)) (u32 (p + i) % 8)
    · exact h
    · exact h.setGive _ _ hk hi hm

theorem pmmMarkRange_sound (p n : Nat) (mark : Bool) (h : Sound t s) : Sound t (s.pmmMarkRange p n mark) := by
  have hloop := forLoop_rule (f := markPage p mark) (fun _ => Sound t)
    n 0 s h (fun _ hs => hs) (fun i s _ _ hs => markPage_sound hs)
  unfold pmmMarkRange
  exact hloop.cases (fun _ h => h) (fun _ _ h => h)

theorem pmmFreePage_sound (addr : Nat) (h : Sound t s) : Sound t (s.pmmFreePage addr) := by
  unfold pmmFreePage
  simp only
  split
  · exact h
  split
  · exact h
  split
  · exact h
  split
  · rename_i hm
    refine h.setGive _ _ (mod_lt _ (by decide)) ?_ hm
    rw [← h.total]
    omega
  · exact h

/-! ## Every operation -/

inductive Op where
  | allocPage
  | allocRange (pageCount : Nat)
  | allocAlignedRange (pageCount alignmentPages : Nat)
  | freePage (addr : Nat)
  | freeRange (addr pageCount : Nat)

/-- The record after a call, and the pointer it returns (`0` for the two that return nothing). -/
def exec (s : Pmm) : Op → Pmm × Nat
  | .allocPage => s.pmmAllocPage
  | .allocRange n => ((s.pmmAllocRange n).1, (s.pmmAllocRange n).2.1)
  | .allocAlignedRange n a => ((s.pmmAllocAlignedRange n a).1, (s.pmmAllocAlignedRange n a).2.1)
  | .freePage addr => (s.pmmFreePage addr, 0)
  | .freeRange addr n => (s.pmmFreeRange addr n, 0)

/-- **The counter stays exact** through every call, whatever its arguments. -/
theorem exec_counted (s : Pmm) (op : Op) (hf : s.Fits) (h : s.Counted) : (s.exec op).1.Counted := by
  have hs : Sound s.totalPages s := ⟨h, rfl, hf⟩
  have hgoal : Sound s.totalPages (s.exec op).1 := by
    cases op with
    | allocPage => exact pmmAllocPage_sound hs
    | allocRange n =>
      simp only [exec, pmmAllocRange]
      split
      · exact hs
      split
      · exact hs
      exact pmmMarkRange_sound _ _ _ hs
    | allocAlignedRange n a =>
      simp only [exec, pmmAllocAlignedRange]
      split
      · exact hs
      split
      · exact hs
      split
      · exact pmmMarkRange_sound _ _ _ hs
      · exact hs
    | freePage addr => exact pmmFreePage_sound addr hs
    | freeRange addr n =>
      simp only [exec, pmmFreeRange]
      split
      · exact hs
      split
      · exact hs
      split
      · exact hs
      exact pmmMarkRange_sound _ _ _ hs
  exact hgoal.counted

/-- Five pages, the first three in use. -/
def fivePages : Pmm := ⟨4096, fun b => if b = 0 then 0x07#8 else 0x00#8, 1048576, 5, 3⟩

theorem fivePages_counted :
    ((fivePages.exec (.allocRange 2)).1.Counted ∧ (fivePages.exec (.allocRange 2)).1.usedPages = 5) ∧
    (fivePages.exec (.freeRange 1048576 2)).1.Counted ∧ (fivePages.exec (.freeRange 1048576 2)).1.usedPages = 1 :=
  ⟨⟨exec_counted fivePages (.allocRange 2) (by decide) (by decide), by decide⟩,
    exec_counted fivePages (.freeRange 1048576 2) (by decide) (by decide), by decide⟩

end Pmm
end OS64
