import OS64.FatSlots
/-!
# FatNewSlots — the bytes of a new entry

What `fat32_create` puts into the cluster's buffer: nothing outside the slots of the new entry, in the long-name slots
an order byte that marks neither the end nor a deleted slot, and in the main one the short name and attributes.
-/
namespace OS64

open List Nat

namespace Fat32

section
variable {buf : Mem} {o x k : Nat} {name : Name} {t : Rtc}

variable {sum : BitVec 8} {first i j num : Nat} {short : Name}

theorem setName_apart (h : x < o ∨ o + 11 ≤ x) (short : Name) : setName buf o short x = buf x := blit_apart _ _ h

theorem setCluster_apart (h : x < o + 20 ∨ o + 22 ≤ x) (h' : x < o + 26 ∨ o + 28 ≤ x) (c : Nat) :
    setCluster buf o c x = buf x := by
  unfold setCluster
  rw [store_apart _ (by omega), store_apart _ (by omega)]

theorem setCreated_apart (h : x < o + 14 ∨ o + 18 ≤ x) : setCreated buf o t x = buf x := by
  unfold setCreated
  rw [store_apart _ (by omega), store_apart _ (by omega)]

theorem setWritten_apart (h : x < o + 22 ∨ o + 26 ≤ x) : setWritten buf o t x = buf x := by
  unfold setWritten
  rw [store_apart _ (by omega), store_apart _ (by omega)]

theorem storeUnits_apart {pos : Nat} : ∀ {k : Nat}, x < o ∨ o + 2 * k ≤ x → storeUnits buf o name pos k x = buf x
  | 0, _ => rfl
  | k + 1, h => by
    unfold storeUnits
    rw [store_apart _ (by omega), storeUnits_apart (by omega)]

theorem putLfn_apart (h : x < o ∨ o + 32 ≤ x) : putLfn buf o name sum i num x = buf x := by
  unfold putLfn
  simp (disch := omega) only [storeUnits_apart, store_apart, fill_apart]

def lfnOrder (i num : Nat) : BitVec 8 := BitVec.ofNat 8 (if i + 1 = num then (i + 1) ||| 0x40 else i + 1)

theorem putLfn_order : putLfn buf o name sum i num o = lfnOrder i num := by
  unfold putLfn
  simp (disch := omega) only [storeUnits_apart, store_apart, store_byte]
  rfl

theorem putLfn_attr : putLfn buf o name sum i num (o + 11) = BitVec.ofNat 8 attrLfn := by
  unfold putLfn
  simp (disch := omega) only [storeUnits_apart, store_apart, store_byte]

theorem putLfns_apart : ∀ {k : Nat} {buf : Mem} {o : Nat}, x < o ∨ o + 32 * k ≤ x → putLfns name sum k buf o x = buf x
  | 0, _, _, _ => rfl
  | k + 1, buf, o, h => by
    unfold putLfns
    rw [putLfns_apart (by omega), putLfn_apart (by omega)]

theorem putLfns_slot : ∀ {k : Nat} {buf : Mem} {o j : Nat}, j < k →
    putLfns name sum k buf o (o + 32 * j) = lfnOrder (k - 1 - j) (lfnCount name) ∧
    putLfns name sum k buf o (o + 32 * j + 11) = BitVec.ofNat 8 attrLfn
  | k + 1, buf, o, 0, _ => by
    unfold putLfns
    rw [putLfns_apart (by omega), putLfns_apart (by omega), Nat.add_zero, putLfn_order, putLfn_attr]
    exact ⟨rfl, rfl⟩
  | k + 1, buf, o, j + 1, h => by
    have hplace : o + 32 * (j + 1) = o + 32 + 32 * j := by omega
    have hidx : k + 1 - 1 - (j + 1) = k - 1 - j := by omega
    rw [hplace, hidx]
    exact putLfns_slot (lt_of_succ_lt_succ h)

theorem lfnOrder_live (h : i + 1 < 64) : lfnOrder i num ≠ 0#8 ∧ lfnOrder i num ≠ deleted := by
  have hlt : (i + 1) ||| 64 < 2 ^ 7 := or_lt_two_pow (by omega) (by omega)
  have hge : 64 ≤ (i + 1) ||| 64 := right_le_or
  unfold lfnOrder deleted
  constructor <;> intro hc <;> have := congrArg BitVec.toNat hc <;> split at this <;>
    simp only [BitVec.toNat_ofNat] at this <;> omega

theorem putEntry_apart (h : x < o ∨ o + 32 ≤ x) : putEntry t buf o short mode x = buf x := by
  unfold putEntry
  rw [store_apart _ (by omega), setWritten_apart (by omega), setCreated_apart (by omega), store_apart _ (by omega),
    setName_apart (by omega), fill_apart _ (by omega)]

theorem putEntry_name (hk : k < 11) : putEntry t buf o short mode (o + k) = short.getD k 0#8 := by
  unfold putEntry
  rw [store_apart _ (by omega), setWritten_apart (by omega), setCreated_apart (by omega), store_apart _ (by omega)]
  exact blit_at _ _ hk

theorem putEntry_attr : putEntry t buf o short mode (o + 11) =
    BitVec.ofNat 8 (if mode = ftDir then attrDirectory else attrArchive) := by
  unfold putEntry
  rw [store_apart _ (by omega), setWritten_apart (by omega), setCreated_apart (by omega), store_byte]

theorem putEntry_zero (h : x = 20 ∨ x = 21 ∨ 26 ≤ x ∧ x < 32) : putEntry t buf o short mode (o + x) = 0#8 := by
  unfold putEntry
  rw [store_apart _ (by omega), setWritten_apart (by omega), setCreated_apart (by omega), store_apart _ (by omega),
    setName_apart (by omega)]
  unfold fill
  rw [if_pos (by omega)]

theorem nameToEntry_length (name : Name) : (nameToEntry name).length = 11 := by
  have h8 : ((name.take 8).takeWhile (fun b => decide (b ≠ dot))).length ≤ 8 := by
    have h1 := (takeWhile_sublist (fun b => decide (b ≠ dot)) (l := name.take 8)).length_le
    have h2 := length_take_le 8 name
    omega
  unfold nameToEntry
  simp only [length_append, length_map, length_replicate, length_take]
  omega

variable {mode s : Nat}

theorem lfnEntries_eq (h : lfnEntries name ≠ 0) : lfnEntries name = lfnCount name := by
  unfold lfnEntries at h ⊢
  by_cases hlt : 12 < name.length
  · rw [if_pos hlt]
  · rw [if_neg hlt] at h
    exact absurd rfl h

theorem newSlots_apart (h : x < 32 * s ∨ 32 * (s + lfnEntries name + 1) ≤ x) :
    newSlots t buf name mode s x = buf x := by
  unfold newSlots
  rw [putEntry_apart (by omega)]
  by_cases hl : lfnEntries name = 0
  · rw [if_pos hl]
  · have hcount := lfnEntries_eq hl
    rw [if_neg hl]
    exact putLfns_apart (by omega)

theorem lfnEntries_le (hlen : name.length ≤ 255) : lfnEntries name ≤ 20 := by
  unfold lfnEntries lfnCount
  split <;> omega

theorem newSlots_order (hj : j < lfnEntries name) :
    newSlots t buf name mode s (32 * (s + j)) = lfnOrder (lfnEntries name - 1 - j) (lfnEntries name) ∧
    newSlots t buf name mode s (32 * (s + j) + 11) = BitVec.ofNat 8 attrLfn := by
  have hne : lfnEntries name ≠ 0 := by omega
  have hcount := lfnEntries_eq hne
  obtain ⟨horder, hattr⟩ : putLfns name (checksum (nameToEntry name)) (lfnCount name) buf (32 * s) (32 * s + 32 * j) =
        lfnOrder (lfnCount name - 1 - j) (lfnCount name) ∧
      putLfns name (checksum (nameToEntry name)) (lfnCount name) buf (32 * s) (32 * s + 32 * j + 11) =
        BitVec.ofNat 8 attrLfn := putLfns_slot (by omega)
  have hbyte : ∀ y, y < 32 → newSlots t buf name mode s (32 * (s + j) + y) =
      putLfns name (checksum (nameToEntry name)) (lfnCount name) buf (32 * s) (32 * s + 32 * j + y) := fun y hy => by
    unfold newSlots
    rw [putEntry_apart (by omega), if_neg hne, mul_add]
    rfl
  exact ⟨(hbyte 0 (by omega)).trans (by rw [add_zero, horder, hcount]), (hbyte 11 (by omega)).trans hattr⟩

theorem newSlots_lfn (hj : j < lfnEntries name) (hlen : name.length ≤ 255) :
    ¬ Unused (fun o => newSlots t buf name mode s (32 * (s + j) + o)) ∧
    IsLfn (fun o => newSlots t buf name mode s (32 * (s + j) + o)) := by
  have hsmall := lfnEntries_le hlen
  have hlive := @lfnOrder_live (lfnEntries name - 1 - j) (lfnEntries name) (by omega)
  obtain ⟨horder, hattr⟩ := @newSlots_order buf name t j mode s hj
  unfold Unused IsLfn entAttr
  beta_reduce
  rw [add_zero, horder, hattr]
  refine ⟨?_, by decide⟩
  rintro (h | h)
  · exact hlive.1 h
  · exact hlive.2 h

/-- The content of the cluster as it is written: a directory's entry has its first cluster. -/
def placed (t : Rtc) (buf : Mem) (name : Name) (mode s first : Nat) : Mem :=
  if mode = ftDir then setCluster (newSlots t buf name mode s) (32 * (s + lfnEntries name)) first
  else newSlots t buf name mode s

theorem placed_eq (h : x < 32 * (s + lfnEntries name) + 20 ∨ 32 * (s + lfnEntries name) + 28 ≤ x) :
    placed t buf name mode s first x = newSlots t buf name mode s x := by
  unfold placed
  by_cases hm : mode = ftDir
  · rw [if_pos hm, setCluster_apart (by omega) (by omega)]
  · rw [if_neg hm]

theorem placed_apart (h : x < 32 * s ∨ 32 * (s + lfnEntries name + 1) ≤ x) :
    placed t buf name mode s first x = buf x := by
  rw [placed_eq (by omega), newSlots_apart h]

theorem placed_lfn (hj : j < lfnEntries name) (hlen : name.length ≤ 255) :
    ¬ Unused (fun o => placed t buf name mode s first (32 * (s + j) + o)) ∧
    IsLfn (fun o => placed t buf name mode s first (32 * (s + j) + o)) := by
  have h : ¬ Unused (fun o => newSlots t buf name mode s (32 * (s + j) + o)) ∧
      IsLfn (fun o => newSlots t buf name mode s (32 * (s + j) + o)) := newSlots_lfn hj hlen
  unfold Unused IsLfn entAttr at h ⊢
  beta_reduce at h ⊢
  rwa [placed_eq (by omega), placed_eq (by omega)]

theorem placed_unmarked (hj : 0 < j) (hlt : j < lfnEntries name) (hlen : name.length ≤ 255) :
    (placed t buf name mode s first (32 * (s + j))).toNat &&& 64 = 0 := by
  have hsmall := lfnEntries_le hlen
  rw [placed_eq (by omega), (newSlots_order hlt).1]
  unfold lfnOrder
  rw [if_neg (by omega)]
  have hall : ∀ i, i < 21 → (i % 2 ^ 8) &&& 64 = 0 := by decide
  exact hall _ (by omega)

def mainBytes (t : Rtc) (name : Name) (mode first : Nat) : Mem :=
  let buf := putEntry t (fun _ => 0#8) 0 (nameToEntry name) mode
  if mode = ftDir then setCluster buf 0 first else buf

theorem putEntry_shift (t : Rtc) (buf : Mem) (short : Name) (mode a : Nat) (hx : x < 32) :
    putEntry t buf a short mode (a + x) = putEntry t (fun _ => 0#8) 0 short mode x := by
  have hfill : fill buf a 32 0#8 (a + x) = fill (fun _ => 0#8) 0 32 0#8 x := by
    unfold fill
    rw [if_pos (by omega), if_pos (by omega)]
  exact store_shift (store_shift (store_shift (store_shift (store_shift (store_shift (blit_shift hfill _ _)
    _ _ _) _ _ _) _ _ _) _ _ _) _ _ _) _ _ _

theorem placed_mainBytes (hx : x < 32) :
    placed t buf name mode s first (32 * (s + lfnEntries name) + x) = mainBytes t name mode first x := by
  unfold placed mainBytes newSlots
  by_cases hm : mode = ftDir
  · simp only [if_pos hm]
    exact store_shift (store_shift (putEntry_shift t _ _ _ _ hx) _ _ _) _ _ _
  · simp only [if_neg hm]
    exact putEntry_shift t _ _ _ _ hx

theorem load_shift (m : Mem) (a b k : Nat) : load (fun o => m (a + o)) b k = load m (a + b) k :=
  load_congr (fun i _ => by rw [add_assoc])

theorem entCluster_shift (m : Mem) (a : Nat) : entCluster (fun o => m (a + o)) 0 = entCluster m a := by
  unfold entCluster
  rw [load_shift, load_shift]

theorem entCluster_setCluster (m : Mem) (a : Nat) {c : Nat} (hc : c < 2 ^ 32) :
    entCluster (setCluster m a c) a = c := by
  have hhi : load (setCluster m a c) (a + 20) 2 = c / 65536 := by
    unfold setCluster
    rw [load_store]
    exact mod_eq_of_lt (by omega)
  have hlo : load (setCluster m a c) (a + 26) 2 = c % 65536 := by
    unfold setCluster
    rw [load_store_apart _ (by omega)]
    exact load_store ..
  unfold entCluster
  rw [hlo, ← shiftLeft_eq _ 16, ← shiftLeft_add_eq_or_of_lt (mod_lt _ (by decide))]
  omega

theorem load_zero {m : Mem} {a : Nat} (h : ∀ i, i < k → m (a + i) = 0#8) : load m a k = 0 := by
  have := load_of_bytes (m := m) (fun i hi => by rw [h i hi, Nat.zero_div]; rfl)
  rwa [Nat.zero_mod] at this

theorem entName_getElem (m : Mem) (a : Nat) (hi : i < (entName m a).length) : (entName m a)[i] = m (a + i) := by
  simp [entName]

/-- **The main slot of a new entry.** -/
theorem placed_main (hf : mode = ftDir → first < 2 ^ 32) {m : Mem}
    (hm : m = fun o => placed t buf name mode s first (32 * (s + lfnEntries name) + o)) :
    entName m 0 = nameToEntry name ∧ entAttr m 0 = (if mode = ftDir then attrDirectory else attrArchive) ∧
    entCluster m 0 = (if mode = ftDir then first else 0) ∧ entSize m 0 = 0 := by
  refine ⟨?_, ?_, ?_, ?_⟩
  · rw [hm, entName_shift]
    refine ext_getElem (by simp [entName, nameToEntry_length]) (fun i hi hi' => ?_)
    rw [nameToEntry_length] at hi'
    rw [entName_getElem, placed_eq (by omega)]
    unfold newSlots
    rw [putEntry_name hi', getD_eq_getElem _ _ (by rwa [nameToEntry_length])]
  · rw [hm, entAttr_shift]
    unfold entAttr
    rw [placed_eq (by omega)]
    unfold newSlots
    rw [putEntry_attr]
    split <;> rfl
  · rw [hm, entCluster_shift]
    unfold placed
    by_cases hd : mode = ftDir
    · rw [if_pos hd, if_pos hd, entCluster_setCluster _ _ (hf hd)]
    have hz : ∀ a, a = 20 ∨ a = 26 → load (newSlots t buf name mode s) (32 * (s + lfnEntries name) + a) 2 = 0 := by
      intro a ha
      refine load_zero (fun i hi => ?_)
      unfold newSlots
      rw [add_assoc, putEntry_zero (by omega)]
    unfold entCluster
    rw [if_neg hd, if_neg hd, hz 20 (.inl rfl), hz 26 (.inr rfl)]
    rfl
  · rw [hm]
    refine load_zero (fun i hi => ?_)
    rw [placed_eq (by omega)]
    unfold newSlots
    rw [putEntry_zero (by omega)]

end

end Fat32

end OS64
