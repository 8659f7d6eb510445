import Mathlib.Data.Finset.Card
import OS64.Bytes
import OS64.Word
/-!
# PciCap — the search for a PCI capability (`drivers/pci/pci.c`)

The capability list of a device starts at the pointer in byte `0x34` of its configuration space.  `pci_find_cap` shifts
the register there by eight bits and so starts at byte `0x35`, and it follows a cyclic list for ever.  It finds the
capabilities of a list only if byte `0x35` holds the pointer too (`findsCap_iff`).
-/
namespace OS64

structure PciAddress where
  bus : Nat
  slot : Nat
  function : Nat
  deriving DecidableEq

abbrev PciConfig := PciAddress → Nat → Nat

/-- `pci_read`: the two low bits of the offset are not part of the address. -/
def pciRead (cfg : PciConfig) (x : PciAddress) (offset : Nat) : Nat := u32 (cfg x (offset &&& 0xFC))

/-- The loop of `pci_find_cap`; `none` is a call that does not return within `turns` rounds. -/
def findCapLoop (cfg : PciConfig) (x : PciAddress) (capId : Nat) : Nat → Nat → Option Nat
  | 0, _ => none
  | turns + 1, offset =>
    if 0x40 ≤ offset ∧ offset < 0xFF then
      if pciRead cfg x offset &&& 0xFF = capId then some offset
      else findCapLoop cfg x capId turns ((pciRead cfg x (offset + 1) >>> 8) &&& 0xFC)
    else some 0

def pciFindCap (cfg : PciConfig) (turns : Nat) (x : PciAddress) (capId : Nat) : Option Nat :=
  let status := pciRead cfg x 0x04 >>> 16
  if status &&& (1 <<< 4) = 0 then some 0
  else
    let capPtr := (pciRead cfg x 0x34 >>> 8) &&& 0xFC
    if capPtr = 0 then some 0 else findCapLoop cfg x capId turns capPtr

/-! ## Configuration spaces of bytes -/

/-- Every function has the configuration space `space`. -/
def configOf (space : Mem) : PciConfig := fun _ offset => load space offset 4

/-- A capability list: dword-aligned offsets, each linked by its second byte, up to a null pointer. -/
inductive CapList (space : Mem) : Nat → List Nat → Prop
  | nil : CapList space 0 []
  | cons {p : Nat} {l : List Nat} (h : p ≠ 0) (aligned : p % 4 = 0) (next : CapList space (space (p + 1)).toNat l) :
      CapList space p (p :: l)

/-- The first capability with an id in a list of them, 0 if there is none. -/
def firstCap (space : Mem) (capId : BitVec 8) (l : List Nat) : Nat := (l.find? (fun p => space p == capId)).getD 0

/-- The bit of the status register that says there is a list. -/
def HasCaps (space : Mem) : Prop := (space 6).toNat / 16 % 2 = 1

/-- `pci_find_cap` returns, and if the space has a capability list then with the first capability of that id in it. -/
def FindsCap (space : Mem) (x : PciAddress) (capId : BitVec 8) : Prop :=
  ∃ turns r, pciFindCap (configOf space) turns x capId.toNat = some r ∧
    (HasCaps space → ∀ l, CapList space (space 0x34).toNat l → r = firstCap space capId l)

/-- The pointer in a byte, without its two low bits. -/
def pointerAt (space : Mem) (a : Nat) : Nat := (space a).toNat / 4 * 4

/-- The pointers from `q` on go through the offsets `w` and then below `0x40`. -/
inductive Walk (space : Mem) : Nat → List Nat → Prop
  | low {q : Nat} (hlow : q < 0x40) : Walk space q []
  | next {q : Nat} {w : List Nat} (hhigh : 0x40 ≤ q) (rest : Walk space (pointerAt space (q + 1)) w) :
      Walk space q (q :: w)

/-- Byte `0x35` holds the pointer to the list `l` too, and every id in `l` is one in front of the first offset below
`0x40`: always so if `l` stays out of the header. -/
structure SamePointer (space : Mem) (l : List Nat) : Prop where
  pointer : pointerAt space 0x35 = (space 0x34).toNat
  seen : ∀ p ∈ l, ∃ q ∈ l.takeWhile (0x40 ≤ ·), space q = space p

variable {space : Mem} {x : PciAddress} {capId : BitVec 8} {p q r : Nat} {l w : List Nat}

theorem pointerAt_aligned (a : Nat) : pointerAt space a % 4 = 0 ∧ pointerAt space a < 256 := by
  unfold pointerAt
  omega

theorem pciRead_configOf (offset : Nat) : pciRead (configOf space) x offset = load space (offset / 4 % 64 * 4) 4 := by
  unfold pciRead configOf
  rw [show (0xFC : Nat) = (2 ^ 6 - 1) * 2 ^ 2 from rfl, land_field]
  exact u32_of_lt (load_lt space 4 _)

/-- What the search takes from a register: its low byte, the pointer in its second byte and a bit of its third. -/
theorem register_fields (space : Mem) (a : Nat) : load space a 4 &&& 0xFF = (space a).toNat ∧
    (load space a 4 >>> 8) &&& 0xFC = pointerAt space (a + 1) ∧
    (load space a 4 >>> 16) &&& (1 <<< 4) = (space (a + 2)).toNat / 16 % 2 * 16 := by
  rw [show (0xFF : Nat) = (2 ^ 8 - 1) * 2 ^ 0 from rfl, show (0xFC : Nat) = (2 ^ 6 - 1) * 2 ^ 2 from rfl,
    show (1 <<< 4 : Nat) = (2 ^ 1 - 1) * 2 ^ 4 from rfl, land_field, land_field, land_field, Nat.shiftRight_eq_div_pow]
  simp only [load, pointerAt, Nat.add_assoc, Nat.reduceAdd]
  omega

theorem findCapLoop_succ (turns : Nat) (ha : q % 4 = 0 ∧ q < 256) :
    findCapLoop (configOf space) x capId.toNat (turns + 1) q =
      if q < 0x40 then some 0 else if space q = capId then some q
      else findCapLoop (configOf space) x capId.toNat turns (pointerAt space (q + 1)) := by
  obtain ⟨hid, hnext, -⟩ := register_fields space q
  rw [findCapLoop, pciRead_configOf, pciRead_configOf, show q / 4 % 64 * 4 = q by omega,
    show (q + 1) / 4 % 64 * 4 = q by omega, hid, hnext, if_congr BitVec.toNat_inj rfl rfl]
  by_cases hlow : q < 0x40
  · rw [if_neg (by omega), if_pos hlow]
  · rw [if_pos (by omega), if_neg hlow]

theorem firstCap_cons : firstCap space capId (p :: l) = if space p = capId then p else firstCap space capId l := by
  unfold firstCap
  rw [List.find?_cons]
  by_cases hid : space p = capId
  · rw [if_pos hid, beq_iff_eq.2 hid]
    rfl
  · rw [if_neg hid, beq_eq_false_iff_ne.2 hid]

/-- **The loop finds the first capability on its way**, given the turns. -/
theorem Walk.findCapLoop (h : Walk space q w) (ha : q % 4 = 0 ∧ q < 256) (turns : Nat) :
    findCapLoop (configOf space) x capId.toNat turns q = some (firstCap space capId w) ∨
      turns ≤ w.length ∧ findCapLoop (configOf space) x capId.toNat turns q = none := by
  induction h generalizing turns with
  | low hlow =>
    cases turns with
    | zero => exact .inr ⟨Nat.zero_le _, rfl⟩
    | succ turns => exact .inl ((findCapLoop_succ turns ha).trans (if_pos hlow))
  | next hhigh _ ih =>
    cases turns with
    | zero => exact .inr ⟨Nat.zero_le _, rfl⟩
    | succ turns =>
      rw [findCapLoop_succ turns ha, if_neg (not_lt.2 hhigh), firstCap_cons]
      split
      · exact .inl rfl
      · exact (ih (pointerAt_aligned _) turns).imp_right (And.imp_left Nat.succ_le_succ)

/-- A loop that ends for an id that no offset has shows where the pointers go. -/
theorem walk_of_findCapLoop (hfree : ∀ q, q % 4 = 0 ∧ q < 256 → space q ≠ capId) : ∀ {turns q : Nat},
    q % 4 = 0 ∧ q < 256 → findCapLoop (configOf space) x capId.toNat turns q = some r → ∃ w, Walk space q w
  | turns + 1, q, ha, h => by
    rw [findCapLoop_succ turns ha, if_neg (hfree q ha)] at h
    by_cases hlow : q < 0x40
    · exact ⟨[], .low hlow⟩
    · rw [if_neg hlow] at h
      obtain ⟨w, hw⟩ := walk_of_findCapLoop hfree (pointerAt_aligned _) h
      exact ⟨q :: w, .next (not_lt.1 hlow) hw⟩

/-- There is such an id: there are 64 aligned offsets and 256 ids. -/
theorem exists_unused_id (space : Mem) : ∃ capId : BitVec 8, ∀ q, q % 4 = 0 ∧ q < 256 → space q ≠ capId := by
  have hcard : ((Finset.range 64).image (fun k => (space (4 * k)).toNat)).card < (Finset.range 256).card := by
    refine Nat.lt_of_le_of_lt Finset.card_image_le ?_
    rw [Finset.card_range, Finset.card_range]
    decide
  obtain ⟨v, hv, hfree⟩ := Finset.exists_mem_notMem_of_card_lt_card hcard
  refine ⟨BitVec.ofNat 8 v, fun q hq heq => hfree (Finset.mem_image.2 ⟨q / 4, Finset.mem_range.2 (by omega), ?_⟩)⟩
  rw [show 4 * (q / 4) = q by omega, heq, BitVec.toNat_ofNat]
  exact Nat.mod_eq_of_lt (Finset.mem_range.1 hv)

theorem pciFindCap_eq (turns : Nat) : pciFindCap (configOf space) turns x capId.toNat =
    if (space 6).toNat / 16 % 2 * 16 = 0 ∨ pointerAt space 0x35 = 0 then some 0
    else findCapLoop (configOf space) x capId.toNat turns (pointerAt space 0x35) := by
  unfold pciFindCap
  dsimp only
  rw [pciRead_configOf, pciRead_configOf, (register_fields space _).2.2, (register_fields space _).2.1, ite_or]

/-- **Where the search ends** for every id: the pointers from byte `0x35` on come below `0x40`. -/
theorem findsCap_walk (hcaps : HasCaps space) : (∀ capId, FindsCap space x capId) ↔
    ∃ w, Walk space (pointerAt space 0x35) w ∧
      ∀ l, CapList space (space 0x34).toNat l → ∀ capId, firstCap space capId w = firstCap space capId l := by
  have hon : (space 6).toNat / 16 % 2 * 16 ≠ 0 := by
    unfold HasCaps at hcaps
    omega
  have hcode : ∀ capId w, Walk space (pointerAt space 0x35) w → ∀ turns,
      pciFindCap (configOf space) turns x capId.toNat = some (firstCap space capId w) ∨
        turns ≤ w.length ∧ pciFindCap (configOf space) turns x capId.toNat = none := fun capId w hw turns => by
    rw [pciFindCap_eq]
    split
    · rename_i hnull
      cases hw with
      | low => exact .inl rfl
      | next hhigh => omega
    · exact hw.findCapLoop (pointerAt_aligned _) turns
  constructor
  · intro h
    obtain ⟨capId, hfree⟩ := exists_unused_id space
    obtain ⟨turns, r, hfind, -⟩ := h capId
    obtain ⟨w, hw⟩ : ∃ w, Walk space (pointerAt space 0x35) w := by
      rw [pciFindCap_eq] at hfind
      split at hfind
      · exact ⟨[], .low (by omega)⟩
      · exact walk_of_findCapLoop hfree (pointerAt_aligned _) hfind
    refine ⟨w, hw, fun l hl capId => ?_⟩
    obtain ⟨turns, r, hfind, hright⟩ := h capId
    rcases hcode capId w hw turns with hw | ⟨-, hw⟩
    · exact (Option.some.inj (hw.symm.trans hfind)).trans (hright hcaps l hl)
    · cases hw.symm.trans hfind
  · rintro ⟨w, hw, hright⟩ capId
    refine ⟨w.length + 1, _, (hcode capId w hw _).resolve_right (fun h => ?_), fun _ l hl => hright l hl capId⟩
    omega

theorem CapList.unique {l' : List Nat} (h : CapList space p l) (h' : CapList space p l') : l = l' := by
  induction h generalizing l' with
  | nil =>
    cases h' with
    | nil => rfl
    | cons hp => exact absurd rfl hp
  | cons hp _ _ ih =>
    cases h' with
    | nil => exact absurd rfl hp
    | cons _ _ next => rw [ih next]

theorem CapList.pointerAt_eq {a : Nat} (h : CapList space (space a).toNat l) : pointerAt space a = (space a).toNat := by
  unfold pointerAt
  generalize (space a).toNat = p at h
  cases h with
  | nil => rfl
  | cons _ aligned => omega

/-- There is a list from each offset of a list on. -/
theorem CapList.suffix (h : CapList space p l) (hq : q ∈ l) : ∃ l', CapList space q (q :: l') ∧ q :: l' <:+ l := by
  induction h with
  | nil => cases hq
  | cons hp aligned next ih =>
    rcases List.mem_cons.1 hq with rfl | hq
    · exact ⟨_, .cons hp aligned next, List.suffix_rfl⟩
    · obtain ⟨l', hl', hsuffix⟩ := ih hq
      exact ⟨l', hl', hsuffix.trans (List.suffix_cons _ _)⟩

/-- **Along a list the pointers go through the part in front of the first offset below `0x40`.** -/
theorem Walk.list (h : Walk space q w) (hl : CapList space q l) : w = l.takeWhile (0x40 ≤ ·) := by
  induction hl generalizing w with
  | nil =>
    cases h with
    | low => rfl
    | next hhigh => omega
  | @cons p l hp aligned next ih =>
    cases h with
    | low hlow => exact (List.takeWhile_cons_of_neg (by simpa using hlow)).symm
    | next hhigh rest =>
      rw [next.pointerAt_eq] at rest
      rw [List.takeWhile_cons_of_pos (by simpa using hhigh), ih rest]

theorem firstCap_mem (h : firstCap space capId l ≠ 0) :
    firstCap space capId l ∈ l ∧ space (firstCap space capId l) = capId := by
  unfold firstCap at *
  cases hfind : l.find? (fun p => space p == capId) with
  | none => exact absurd (by rw [hfind]; rfl) h
  | some q =>
    have hid := List.find?_some hfind
    exact ⟨List.mem_of_find?_eq_some hfind, beq_iff_eq.1 hid⟩

theorem CapList.firstCap_ne_zero (h : CapList space p l) (hq : q ∈ l) : firstCap space (space q) l ≠ 0 := by
  induction h with
  | nil => cases hq
  | cons hp _ _ ih =>
    rw [firstCap_cons]
    split
    · exact hp
    · rename_i hid
      exact ih ((List.mem_cons.1 hq).resolve_left (fun heq => hid (heq ▸ rfl)))

theorem firstCap_seen (h : ∀ p ∈ l, ∃ q ∈ l.takeWhile (0x40 ≤ ·), space q = space p) :
    firstCap space capId (l.takeWhile (0x40 ≤ ·)) = firstCap space capId l := by
  unfold firstCap
  cases hfind : (l.takeWhile (0x40 ≤ ·)).find? (fun p => space p == capId) with
  | some q =>
    conv_rhs => rw [← List.takeWhile_append_dropWhile (p := (0x40 ≤ ·)) (l := l), List.find?_append, hfind]
    rfl
  | none =>
    rw [List.find?_eq_none.2 (fun p hp hid => ?_)]
    obtain ⟨q, hq, heq⟩ := h p hp
    exact List.find?_eq_none.1 hfind q hq (by rw [heq]; exact hid)

/-- Where the pointers from `q` on show the capabilities of the list at `p`, they start there too. -/
theorem Walk.start (hw : Walk space q w) (hl : CapList space p l)
    (h : ∀ capId, firstCap space capId w = firstCap space capId l) : l = [] ∧ q < 0x40 ∨ q = p := by
  -- the first offset of each of the two is in the other
  have hfirst : ∀ {a l l'}, (∀ capId, firstCap space capId (a :: l) = firstCap space capId l') → a ≠ 0 → a ∈ l' :=
    fun {a l l'} h ha => by
      have heq := h (space a)
      rw [firstCap_cons, if_pos rfl] at heq
      exact heq ▸ (firstCap_mem (heq ▸ ha)).1
  cases hl with
  | nil =>
    cases hw with
    | low hlow => exact .inl ⟨rfl, hlow⟩
    | next hhigh => exact absurd (hfirst h (by omega)) List.not_mem_nil
  | @cons _ l hp aligned next =>
    have hpw := hfirst (fun capId => (h capId).symm) hp
    cases hw with
    | low => cases hpw
    | @next _ w hhigh rest =>
      have hl := CapList.cons hp aligned next
      obtain ⟨l₁, hl₁, hsuffix₁⟩ := hl.suffix (hfirst h (by omega))
      rw [(Walk.next hhigh rest).list hl₁] at hpw
      obtain ⟨l₂, hl₂, hsuffix₂⟩ := hl₁.suffix (List.takeWhile_subset _ hpw)
      rw [hl₂.unique hl] at hsuffix₂
      have heq := hsuffix₁.eq_of_length_le hsuffix₂.length_le
      exact .inr (List.cons.inj heq).1

/-- **The search is right for every id exactly under a condition on the bytes**: the pointers from byte `0x35` on come
below `0x40`, and if byte `0x34` starts a list, then the list is empty and byte `0x35` points into the header, or the
two bytes hold the same pointer and every id of the list is one in front of its first offset in the header. -/
theorem findsCap_iff (space : Mem) (x : PciAddress) : (∀ capId, FindsCap space x capId) ↔
    (HasCaps space → (∃ w, Walk space (pointerAt space 0x35) w) ∧ ∀ l, CapList space (space 0x34).toNat l →
      (l = [] ∧ pointerAt space 0x35 < 0x40) ∨ SamePointer space l) := by
  by_cases hcaps : HasCaps space
  swap
  · refine iff_of_true (fun capId => ⟨0, 0, ?_, fun h => absurd h hcaps⟩) (fun h => absurd h hcaps)
    unfold HasCaps at hcaps
    rw [pciFindCap_eq, if_pos (by omega)]
  rw [imp_iff_right hcaps, findsCap_walk hcaps]
  constructor
  · rintro ⟨w, hw, h⟩
    refine ⟨⟨w, hw⟩, fun l hl => ?_⟩
    refine (hw.start hl (h l hl)).imp_right (fun hpointer => ⟨hpointer, fun p hp => ?_⟩)
    rw [hpointer] at hw
    have heq := h l hl (space p)
    rw [hw.list hl] at heq
    exact ⟨_, firstCap_mem (heq ▸ hl.firstCap_ne_zero hp)⟩
  · rintro ⟨⟨w, hw⟩, h⟩
    refine ⟨w, hw, fun l hl capId => ?_⟩
    rcases h l hl with ⟨rfl, hlow⟩ | ⟨hpointer, hseen⟩
    · cases hw with
      | low => rfl
      | next hhigh => omega
    · rw [hpointer] at hw
      rw [hw.list hl]
      exact firstCap_seen hseen

/-- A list of one capability, with id 5, at `0x40`. -/
def oneCap : Mem := fun a => if a = 6 then 0x10 else if a = 0x34 then 0x40 else if a = 0x40 then 5 else 0

theorem oneCap_missed : ¬ FindsCap oneCap ⟨0, 0, 0⟩ 5 := by
  rintro ⟨turns, r, hfind, hright⟩
  have hlist : CapList oneCap 0x40 [0x40] := .cons (by decide) (by decide) .nil
  exact absurd ((Option.some.inj hfind).trans (hright rfl [0x40] hlist)) (by decide)

end OS64
