import OS64.Bytes
/-!
# AmlLength — package lengths in AML (`drivers/acpi/aml.c`)

The two top bits of the lead byte of a package length say how many bytes follow it.  `aml_get_pkg_length` looks at other
bits: it stays inside the bytes it is given, but only lengths in one byte are decoded (`pkgLength_iff`).
-/
namespace OS64

/-- The value returned, `*new_pos` if it is set, and the positions read. -/
structure PkgLength where
  value : Nat
  newPos : Option Nat
  reads : List Nat

/-- `aml_get_pkg_length`; no byte string is so long that `pos + 3` would overflow. -/
def amlGetPkgLength (data : Mem) (len pos : Nat) : PkgLength :=
  if len ≤ pos then ⟨0, none, []⟩
  else
    let lead := data pos
    if lead &&& 0x80#8 = 0#8 then ⟨(lead &&& 0x3F#8).toNat, some (pos + 1), [pos]⟩
    else if lead &&& 0x40#8 ≠ 0#8 ∧ lead &&& 0x1F#8 = 0#8 then
      if len ≤ pos + 1 then ⟨0, some (pos + 1), [pos]⟩
      else ⟨(lead &&& 0x3F#8).toNat <<< 8 ||| (data (pos + 1)).toNat, some (pos + 2), [pos, pos + 1]⟩
    else if lead &&& 0x20#8 ≠ 0#8 ∧ lead &&& 0x0F#8 = 0#8 then
      if len ≤ pos + 2 then ⟨0, some (pos + 1), [pos]⟩
      else ⟨(lead &&& 0x0F#8).toNat <<< 16 ||| (data (pos + 1)).toNat <<< 8 ||| (data (pos + 2)).toNat, some (pos + 3),
        [pos, pos + 1, pos + 2]⟩
    else if lead &&& 0x10#8 ≠ 0#8 ∧ lead &&& 0x07#8 = 0#8 then
      if len ≤ pos + 3 then ⟨0, some (pos + 1), [pos]⟩
      else ⟨(lead &&& 0x07#8).toNat <<< 24 ||| (data (pos + 1)).toNat <<< 16 ||| (data (pos + 2)).toNat <<< 8 |||
        (data (pos + 3)).toNat, some (pos + 4), [pos, pos + 1, pos + 2, pos + 3]⟩
    else ⟨0, some (pos + 1), [pos]⟩

/-- Byte `i` of the encoding of `n` with `follow` bytes behind the lead byte. -/
def pkgByte (n follow i : Nat) : Nat :=
  if i = 0 then if follow = 0 then n else 64 * follow + n % 16 else n / 2 ^ (8 * i - 4) % 256

/-- The bytes at `pos` encode `n` with `follow` bytes behind the lead byte. -/
structure PkgEncoded (data : Mem) (len pos n follow : Nat) : Prop where
  follows : follow ≤ 3
  range : n < if follow = 0 then 64 else 2 ^ (4 + 8 * follow)
  inside : pos + follow < len
  bytes : ∀ i, i ≤ follow → data (pos + i) = BitVec.ofNat 8 (pkgByte n follow i)

theorem pkgLength_reads {data : Mem} {len pos i : Nat} : i ∈ (amlGetPkgLength data len pos).reads → i < len := by
  unfold amlGetPkgLength
  simp only
  repeat' split
  all_goals simp only [List.mem_cons, List.not_mem_nil, or_false, false_implies]
  all_goals omega

theorem lead_short : ∀ n < 64, BitVec.ofNat 8 n &&& 0x80#8 = 0#8 ∧ (BitVec.ofNat 8 n &&& 0x3F#8).toNat = n := by decide

theorem lead_long : ∀ m < 16, BitVec.ofNat 8 (64 * 1 + m) &&& 0x80#8 = 0#8 ∧
    BitVec.ofNat 8 (64 * 2 + m) &&& 0x40#8 = 0#8 ∧ ∀ follow < 4,
      BitVec.ofNat 8 (64 * follow + m) &&& 0x20#8 = 0#8 ∧ BitVec.ofNat 8 (64 * follow + m) &&& 0x10#8 = 0#8 := by decide

variable {data : Mem} {len pos n follow : Nat}

theorem PkgEncoded.lead (h : PkgEncoded data len pos n follow) : data pos = BitVec.ofNat 8 (pkgByte n follow 0) :=
  h.bytes 0 (Nat.zero_le _)

theorem PkgEncoded.decoded (h : PkgEncoded data len pos n 0) :
    (amlGetPkgLength data len pos).value = n ∧ (amlGetPkgLength data len pos).newPos = some (pos + 1) := by
  have hin := h.inside
  have hlead : data pos = BitVec.ofNat 8 n := h.lead
  obtain ⟨h1, h2⟩ := lead_short n h.range
  unfold amlGetPkgLength
  rw [if_neg (by omega), hlead]
  simp only [if_pos h1, h2, and_self]

/-- Behind one byte, or two, the code goes on: never behind as many as there are. -/
theorem PkgEncoded.newPos_ne (h : PkgEncoded data len pos n follow) (h0 : follow ≠ 0) :
    (amlGetPkgLength data len pos).newPos ≠ some (pos + follow + 1) := by
  have hin := h.inside
  have hle := h.follows
  have hlead : data pos = BitVec.ofNat 8 (64 * follow + n % 16) := by rw [h.lead, pkgByte, if_pos rfl, if_neg h0]
  obtain ⟨h1, h2, hall⟩ := lead_long (n % 16) (Nat.mod_lt _ (by decide))
  obtain ⟨h20, h10⟩ := hall follow (by omega)
  unfold amlGetPkgLength
  rw [if_neg (by omega), hlead]
  simp only [h20, h10, ne_eq, not_true, false_and, if_false]
  obtain rfl | rfl | rfl : follow = 1 ∨ follow = 2 ∨ follow = 3 := by omega
  · simp [h1]
  · simp only [h2]
    split <;> simp
  · repeat' split
    all_goals simp

/-- **Package lengths**: whatever the bytes, none behind the end is read; and an encoded length is returned, with the
position behind it, exactly if it is encoded in one byte. -/
theorem pkgLength_iff (data : Mem) (len pos : Nat) : (∀ i ∈ (amlGetPkgLength data len pos).reads, i < len) ∧
    ∀ n follow, PkgEncoded data len pos n follow → ((amlGetPkgLength data len pos).value = n ∧
      (amlGetPkgLength data len pos).newPos = some (pos + follow + 1) ↔ follow = 0) := by
  refine ⟨fun i hi => pkgLength_reads hi, fun n follow h => ⟨fun hr => ?_, fun h0 => ?_⟩⟩
  · exact Decidable.byContradiction (fun h0 => h.newPos_ne h0 hr.2)
  · subst h0
    exact h.decoded

/-- The encoding of 100 in two bytes, 0x44 0x06. -/
def hundredPkg : Mem := fun i => if i = 0 then 0x44#8 else 0x06#8

theorem hundredPkg_encoded : PkgEncoded hundredPkg 2 0 100 1 := by
  refine ⟨by decide, by decide, by decide, fun i hi => ?_⟩
  obtain rfl | rfl : i = 0 ∨ i = 1 := by omega
  · rfl
  · rfl

theorem hundredPkg_iff : (amlGetPkgLength hundredPkg 2 0).value = 100 ∧ (amlGetPkgLength hundredPkg 2 0).newPos =
    some 2 ↔ 1 = 0 := (pkgLength_iff hundredPkg 2 0).2 100 1 hundredPkg_encoded

/-- It is taken for the length 4, in one byte. -/
theorem hundredPkg_misread : PkgEncoded hundredPkg 2 0 100 1 ∧ (amlGetPkgLength hundredPkg 2 0).value = 4 ∧
    (amlGetPkgLength hundredPkg 2 0).newPos = some 1 := ⟨hundredPkg_encoded, rfl, rfl⟩

end OS64
