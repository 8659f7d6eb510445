import OS64.FatEntry
/-!
# Text — the tokeniser and the number reader of `libk/string.c`, and strings in a buffer

A string is the list of its bytes before the NUL.  `strtok_r` cuts the string in place; the pointer that it saves is the
rest of it.
-/
namespace OS64

/-- `strtok_r` at the saved pointer: the token, and the pointer saved for the next call. -/
def strtokR (delim : Name) : Option Name → Option Name × Option Name
  | none => (none, none)
  | some str =>
    let start := str.dropWhile (fun b => decide (b ∈ delim))
    if start = [] then (none, none)
    else
      let token := start.takeWhile (fun b => decide (b ∉ delim))
      match start.dropWhile (fun b => decide (b ∉ delim)) with
      | [] => (some token, none)
      | _ :: rest => (some token, some rest)

def isDigit (b : BitVec 8) : Prop := 48 ≤ b.toNat ∧ b.toNat ≤ 57

instance (b : BitVec 8) : Decidable (isDigit b) := inferInstanceAs (Decidable (_ ∧ _))

/-- The loop over the digits of `atoi`; `int` wraps around. -/
def atoiDigits (result : BitVec 32) : Name → BitVec 32
  | [] => result
  | b :: str => if isDigit b then atoiDigits (result * 10#32 + BitVec.ofNat 32 (b.toNat - 48)) str else result

def atoi (str : Name) : BitVec 32 :=
  match str.dropWhile (fun b => decide (b = 32#8 ∨ b = 9#8)) with
  | [] => 0#32
  | b :: rest =>
    if b = 45#8 then atoiDigits 0#32 rest * (-1#32)
    else if b = 43#8 then atoiDigits 0#32 rest
    else atoiDigits 0#32 (b :: rest)

/-! ## The number that the text stands for -/

def digitsValue (value : Nat) : Name → Nat
  | [] => value
  | b :: str => if isDigit b then digitsValue (value * 10 + (b.toNat - 48)) str else value

def decimal (str : Name) : Int :=
  match str.dropWhile (fun b => decide (b = 32#8 ∨ b = 9#8)) with
  | [] => 0
  | b :: rest =>
    if b = 45#8 then - (digitsValue 0 rest : Int)
    else if b = 43#8 then digitsValue 0 rest
    else digitsValue 0 (b :: rest)

theorem atoiDigits_eq : ∀ (str : Name) (value : Nat),
    atoiDigits (BitVec.ofNat 32 value) str = BitVec.ofNat 32 (digitsValue value str)
  | [], _ => rfl
  | b :: str, value => by
    unfold atoiDigits digitsValue
    split
    · rw [← atoiDigits_eq str, BitVec.ofNat_add, BitVec.ofNat_mul]
    · rfl

/-- **`atoi` reads the number modulo 2^32.** -/
theorem atoi_eq (str : Name) : atoi str = BitVec.ofInt 32 (decimal str) := by
  have hdigits : ∀ rest, atoiDigits 0#32 rest = BitVec.ofNat 32 (digitsValue 0 rest) := fun rest => atoiDigits_eq rest 0
  unfold atoi decimal
  split
  · rfl
  · split
    · rw [hdigits, BitVec.ofInt_neg, BitVec.ofInt_natCast, BitVec.mul_neg, BitVec.mul_one]
    · split
      · rw [hdigits, BitVec.ofInt_natCast]
      · rw [hdigits, BitVec.ofInt_natCast]

theorem signExtend_atoi {str : Name} {n : Nat} (h : decimal str = n) (hn : n < 2 ^ 31) :
    ((atoi str).signExtend 64).toNat = n := by
  rw [atoi_eq, h, BitVec.ofInt_natCast]
  have hmsb : (BitVec.ofNat 32 n).msb = false := by
    rw [BitVec.msb_eq_decide]
    simp only [BitVec.toNat_ofNat]
    exact decide_eq_false (by omega)
  rw [BitVec.signExtend_eq_setWidth_of_msb_false hmsb, BitVec.toNat_setWidth, BitVec.toNat_ofNat]
  omega

/-! ## Strings in a buffer -/

theorem length_cString_range (m : Mem) (k : Nat) : (cString ((List.range k).map m)).length ≤ k := by
  have := (List.takeWhile_sublist (fun b => decide (b ≠ 0#8)) (l := (List.range k).map m)).length_le
  rwa [List.length_map, List.length_range] at this

theorem cString_range {m : Mem} {content : Name} (hnul : 0#8 ∉ content) {k : Nat}
    (hm : ∀ i, i < k → i < content.length → m i = content.getD i 0#8) : cString ((List.range k).map m) = content ↔
      k = content.length ∨ (content.length < k ∧ m content.length = 0#8) := by
  rcases Nat.lt_or_ge k content.length with hlt | hge
  · refine iff_of_false (fun h => ?_) (by omega)
    have hlen := length_cString_range m k
    rw [h] at hlen
    omega
  obtain ⟨j, rfl⟩ := Nat.exists_eq_add_of_le hge
  have hsplit : (List.range (content.length + j)).map m =
      content ++ (List.range j).map (fun i => m (content.length + i)) := by
    rw [List.range_add, List.map_append, List.map_map]
    refine congrArg (· ++ _) (List.ext_getElem (by simp) (fun i h1 h2 => ?_))
    rw [List.getElem_map, List.getElem_range, hm i (by omega) h2, List.getD_eq_getElem _ _ h2]
  have hall : ∀ b ∈ content, decide (b ≠ 0#8) = true := fun b hb => decide_eq_true (fun h => hnul (h ▸ hb))
  unfold cString
  rw [hsplit, List.takeWhile_append_of_pos hall, List.append_right_eq_self]
  rcases j with _ | j
  · exact iff_of_true rfl (.inl rfl)
  · rw [List.range_succ_eq_map, List.map_cons]
    by_cases h0 : m content.length = 0#8
    · exact iff_of_true (List.takeWhile_cons_of_neg (by simpa using h0)) (.inr ⟨by omega, h0⟩)
    · refine iff_of_false ?_ (fun h => h.elim (by omega) (fun h => h0 h.2))
      rw [List.takeWhile_cons_of_pos (by simpa using h0)]
      exact List.cons_ne_nil _ _

theorem cString_range_full {m : Mem} {content : Name} (hnul : 0#8 ∉ content) :
    cString ((List.range content.length).map m) = content ↔ ∀ i, i < content.length → m i = content.getD i 0#8 := by
  constructor
  · intro h i hi
    have hall : (List.range content.length).map m = content := by
      refine (List.IsPrefix.eq_of_length ?_ (by rw [List.length_map, List.length_range])).symm
      have hpre : cString ((List.range content.length).map m) <+: (List.range content.length).map m :=
        List.takeWhile_prefix _
      rwa [h] at hpre
    have hget : ((List.range content.length).map m).getD i 0#8 = content.getD i 0#8 := by rw [hall]
    rw [← hget, List.getD_eq_getElem _ _ (by simpa using hi), List.getElem_map, List.getElem_range]
  · intro h
    exact (cString_range hnul (fun i _ hi => h i hi)).2 (.inl rfl)

/-- The string in the buffer that a read has filled. -/
def ReadsText (r : Res (Mem × Option Nat)) (content : Name) : Prop :=
  ∃ m j, r = .ok (m, some j) ∧ cString ((List.range j).map m) = content

theorem readsText_iff {r : Res (Mem × Option Nat)} {m : Mem} {k : Nat} {content : Name} (hr : r = .ok (m, some k)) :
    ReadsText r content ↔ cString ((List.range k).map m) = content := by
  constructor
  · rintro ⟨m', j, hr', hc⟩
    rw [hr] at hr'
    cases hr'
    exact hc
  · exact fun hc => ⟨m, k, hr, hc⟩

end OS64
