import OS64.FatEntry
import Mathlib.Data.List.TakeWhile
/-!
# FatNames — the short form of a name and back

`ShortForm base ext`: a name in lower case that fits the short form, with the extension `ext` if there is one.
-/
namespace OS64

open List

namespace Fat32

/-- A character that the short form keeps: no dot, blank, zero or upper-case letter. -/
def Plain (b : BitVec 8) : Prop := b ≠ dot ∧ b ≠ space ∧ b ≠ 0#8 ∧ ¬ (0x41#8 ≤ b ∧ b ≤ 0x5A#8)

def joinName (base ext : Name) : Name := base ++ if ext = [] then [] else dot :: ext

structure ShortForm (base ext : Name) : Prop where
  baseLength : 1 ≤ base.length ∧ base.length ≤ 8
  extLength : ext.length ≤ 3
  basePlain : ∀ b ∈ base, Plain b
  extPlain : ∀ b ∈ ext, Plain b

theorem upper_ne_space {b : BitVec 8} (h : Plain b) : upper b ≠ space := by
  unfold upper
  split
  · rename_i hb
    intro hc
    have h1 := hb.1
    have h2 := congrArg BitVec.toNat hc
    unfold space at h2
    rw [BitVec.le_def] at h1
    simp only [BitVec.toNat_sub, BitVec.toNat_ofNat] at h1 h2
    omega
  · exact h.2.1

theorem lower_upper {b : BitVec 8} (h : Plain b) : lower (upper b) = b := by
  have hcase := h.2.2.2
  unfold upper
  simp only [BitVec.le_def, BitVec.toNat_ofNat] at hcase ⊢
  by_cases hl : 97 ≤ b.toNat ∧ b.toNat ≤ 122
  · have hsub : (b - 32#8).toNat = b.toNat - 32 := by
      rw [BitVec.toNat_sub, BitVec.toNat_ofNat]
      omega
    rw [if_pos (by omega)]
    unfold lower
    simp only [BitVec.le_def, BitVec.toNat_ofNat]
    rw [if_pos (by omega)]
    apply BitVec.eq_of_toNat_eq
    rw [BitVec.toNat_add, BitVec.toNat_ofNat]
    omega
  · rw [if_neg (by omega)]
    unfold lower
    simp only [BitVec.le_def, BitVec.toNat_ofNat]
    rw [if_neg (by omega)]

theorem map_lower_upper {l : Name} (h : ∀ b ∈ l, Plain b) : (l.map upper).map lower = l := by
  rw [map_map]
  exact (map_congr_left (fun b hb => lower_upper (h b hb))).trans (map_id l)

theorem takeWhile_pad {l : Name} (h : ∀ b ∈ l, Plain b) (k : Nat) :
    (l.map upper ++ List.replicate k space).takeWhile (fun b => decide (b ≠ space)) = l.map upper := by
  rw [takeWhile_append_of_pos]
  · cases k with
    | zero => simp
    | succ k => simp [replicate_succ]
  · intro b hb
    obtain ⟨c, hc, rfl⟩ := mem_map.1 hb
    simpa using upper_ne_space (h c hc)

/-- **The short form of a name**: both parts in upper case, filled up with blanks. -/
theorem nameToEntry_join {base ext : Name} (h : ShortForm base ext) : nameToEntry (joinName base ext) =
    base.map upper ++ List.replicate (8 - base.length) space ++
      (ext.map upper ++ List.replicate (3 - ext.length) space) := by
  have hdot : ∀ b ∈ base, decide (b ≠ dot) = true := fun b hb => by simpa using (h.basePlain b hb).1
  have hlen := h.baseLength
  have hbase : ((joinName base ext).take 8).takeWhile (fun b => decide (b ≠ dot)) = base := by
    unfold joinName
    rw [take_append, take_of_length_le hlen.2, takeWhile_append_of_pos hdot]
    by_cases he : ext = []
    · simp [he]
    · rw [if_neg he]
      cases 8 - base.length <;> simp
  have hrest : (if (List.drop base.length (joinName base ext)).head? = some dot
      then (List.drop base.length (joinName base ext)).tail else List.drop base.length (joinName base ext)) = ext := by
    unfold joinName
    by_cases he : ext = []
    · simp [he]
    · simp [he]
  unfold nameToEntry
  simp only [hbase, hrest, take_of_length_le h.extLength]

/-- **The short form gives the name back.** -/
theorem nameFromEntry_join {base ext : Name} (h : ShortForm base ext) :
    nameFromEntry (nameToEntry (joinName base ext)) = joinName base ext := by
  have hlen := h.baseLength
  have hl8 : (base.map upper ++ List.replicate (8 - base.length) space).length = 8 := by
    rw [length_append, length_map, length_replicate]
    omega
  have hzero : ∀ b ∈ joinName base ext, decide (b ≠ 0#8) = true := fun b hb => by
    rcases mem_append.1 hb with hb | hb
    · simpa using (h.basePlain b hb).2.2.1
    by_cases he : ext = []
    · rw [if_pos he] at hb
      cases hb
    · rw [if_neg he] at hb
      rcases mem_cons.1 hb with rfl | hb
      · decide
      · simpa using (h.extPlain b hb).2.2.1
  have hget : (base.map upper ++ List.replicate (8 - base.length) space ++
      (ext.map upper ++ List.replicate (3 - ext.length) space)).getD 8 space = space ↔ ext = [] := by
    rw [getD_append_right _ _ _ _ (by omega), hl8]
    cases ext with
    | nil => simp
    | cons b ext => simpa using upper_ne_space (h.extPlain b (.head _))
  rw [nameToEntry_join h]
  unfold nameFromEntry
  rw [take_left' hl8, drop_left' hl8, takeWhile_pad h.basePlain, takeWhile_pad h.extPlain,
    map_lower_upper h.basePlain, map_lower_upper h.extPlain]
  have hjoin : (base ++ if (base.map upper ++ List.replicate (8 - base.length) space ++
      (ext.map upper ++ List.replicate (3 - ext.length) space)).getD 8 space = space then [] else dot :: ext) =
      joinName base ext := by
    unfold joinName
    by_cases he : ext = []
    · rw [if_pos (hget.2 he), if_pos he]
    · rw [if_neg (fun hc => he (hget.1 hc)), if_neg he]
  show cString (base ++ _) = _
  rw [hjoin]
  exact takeWhile_eq_self_iff.2 hzero

/-- **The short form is a code**: every name that fits it is read back, so no two such names have the same entry. -/
theorem shortForm_codec : (∀ base ext, ShortForm base ext →
      nameFromEntry (nameToEntry (joinName base ext)) = joinName base ext) ∧
    ∀ base ext base' ext', ShortForm base ext → ShortForm base' ext' →
      nameToEntry (joinName base ext) = nameToEntry (joinName base' ext') → joinName base ext =
        joinName base' ext' := by
  refine ⟨fun base ext h => nameFromEntry_join h, fun base ext base' ext' h h' heq => ?_⟩
  rw [← nameFromEntry_join h, heq, nameFromEntry_join h']

theorem abc_codec : nameFromEntry (nameToEntry [0x61#8, 0x62#8, dot, 0x63#8]) = [0x61#8, 0x62#8, dot, 0x63#8] :=
  shortForm_codec.1 [0x61#8, 0x62#8] [0x63#8]
    ⟨by decide, by decide, by simp [Plain, dot, space], by simp [Plain, dot, space]⟩

end Fat32

end OS64
