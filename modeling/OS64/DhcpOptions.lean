import OS64.Dhcp
/-!
# DhcpOptions — options are found as they were written

The client writes its options one behind the other, each as its type, its length and its value, and ends them with 255.
`dhcp_find_option` walks from type to type and never reads a value's bytes as a type, so whatever the values hold it
finds the first option of a type.
-/
namespace OS64

open BitVec
namespace Net

/-- An option that can be written: its type is neither the padding's nor the end's, its length fits a byte. -/
structure DhcpOption where
  type : BitVec 8
  value : List (BitVec 8)
  notPad : type.toNat ≠ dhcpOptPad
  notEnd : type.toNat ≠ dhcpOptEnd
  short : value.length ≤ 255

def encodedSize : List DhcpOption → Nat
  | [] => 1
  | o :: os => 2 + o.value.length + encodedSize os

def addOption (a : Nat) (s : Mem × Nat) (o : DhcpOption) : Mem × Nat :=
  dhcpAddOption a s o.type.toNat o.value.length (listBytes o.value)

def writeOptions (a : Nat) (s : Mem × Nat) (os : List DhcpOption) : Mem :=
  (dhcpAddOptionEnd a (os.foldl (addOption a) s)).1

/-- The options lie in the memory from `x` on, the end marker behind them. -/
def Encoded (m : Mem) : Nat → List DhcpOption → Prop
  | x, [] => (m x).toNat = dhcpOptEnd
  | x, o :: os => m x = o.type ∧ (m (x + 1)).toNat = o.value.length ∧
      (∀ i, i < o.value.length → m (x + 2 + i) = listBytes o.value i) ∧ Encoded m (x + 2 + o.value.length) os

theorem addOption_bytes (a : Nat) (s : Mem × Nat) (o : DhcpOption) :
    (addOption a s o).1 (a + s.2) = o.type ∧ ((addOption a s o).1 (a + s.2 + 1)).toNat = o.value.length ∧
    (∀ i, i < o.value.length → (addOption a s o).1 (a + s.2 + 2 + i) = listBytes o.value i) ∧
    ∀ x, x < a + s.2 → (addOption a s o).1 x = s.1 x := by
  simp only [addOption, dhcpAddOption]
  have hshort := o.short
  refine ⟨?_, ?_, fun i hi => blit_at _ _ hi, fun x hx => ?_⟩
  · rw [blit_apart _ _ (by omega), store_apart _ (by omega), store_byte, ofNat_toNat, setWidth_eq]
  · rw [blit_apart _ _ (by omega), store_byte, toNat_ofNat, Nat.mod_eq_of_lt (by omega)]
  · rw [blit_apart _ _ (by omega), store_apart _ (by omega), store_apart _ (by omega)]

/-- **Options written are encoded**, from the offset on at which the writing began; the bytes before it stay. -/
theorem writeOptions_encoded (a : Nat) : ∀ (os : List DhcpOption) (s : Mem × Nat),
    Encoded (writeOptions a s os) (a + s.2) os ∧ ∀ x, x < a + s.2 → writeOptions a s os x = s.1 x
  | [], s => ⟨congrArg BitVec.toNat (store_byte s.1 (a + s.2) dhcpOptEnd), fun x hx => store_apart s.1 (.inl hx)⟩
  | o :: os, s => by
    obtain ⟨henc, hbelow⟩ := writeOptions_encoded a os (addOption a s o)
    have hnext : a + (addOption a s o).2 = a + s.2 + 2 + o.value.length := by
      change a + (s.2 + 2 + o.value.length) = _
      omega
    rw [hnext] at henc hbelow
    obtain ⟨htype, hlen, hvalue, hold⟩ := addOption_bytes a s o
    refine ⟨⟨?_, ?_, fun i hi => ?_, henc⟩, fun x hx => ?_⟩
    · exact (hbelow _ (by omega)).trans htype
    · exact (congrArg BitVec.toNat (hbelow _ (by omega))).trans hlen
    · exact (hbelow _ (by omega)).trans (hvalue i hi)
    · exact (hbelow x (by omega)).trans (hold x hx)

def located (t : BitVec 8) : Nat → List DhcpOption → Option (Nat × DhcpOption)
  | _, [] => none
  | x, o :: os => if o.type = t then some (x + 2, o) else located t (x + 2 + o.value.length) os

theorem located_none (t : BitVec 8) : ∀ (x : Nat) (os : List DhcpOption), located t x os = none ↔ ∀ o ∈ os, o.type ≠ t
  | _, [] => iff_of_true rfl (fun _ h => by cases h)
  | x, o :: os => by
    rw [located, List.forall_mem_cons]
    split
    case isTrue h => exact iff_of_false (Option.some_ne_none _) (fun hne => hne.1 h)
    case isFalse h => rw [located_none t _ os, and_iff_right h]

/-- **The search finds the first option of a type**: it reads types only where options begin. -/
theorem findOption_located {m : Mem} {a : Nat} (t : BitVec 8) : ∀ {os : List DhcpOption} {n off : Nat},
    Encoded m (a + off) os → off + encodedSize os ≤ 300 → encodedSize os ≤ n + 1 →
    findOption m a t.toNat (n + 1) off = (located t (a + off) os).map (fun r => (r.1, r.2.value.length)) ∧
      ∀ r, located t (a + off) os = some r → ∀ i, i < r.2.value.length → m (r.1 + i) = listBytes r.2.value i
  | [], n, off, h, hfit, _ => by
    simp only [Encoded, encodedSize] at h hfit
    refine ⟨?_, fun r hr => by cases hr⟩
    rw [findOption, if_neg (by omega), if_pos h]
    rfl
  | o :: os, 0, _, _, _, hn => by
    simp only [encodedSize] at hn
    omega
  | o :: os, n + 1, off, ⟨htype, hlen, hvalue, hrest⟩, hfit, hn => by
    simp only [encodedSize] at hfit hn
    rw [findOption, if_neg (by omega), htype, if_neg o.notEnd, if_neg o.notPad, hlen, located]
    by_cases ht : o.type = t
    · rw [if_pos (congrArg BitVec.toNat ht), if_pos ht]
      refine ⟨rfl, fun r hr => ?_⟩
      obtain rfl := Option.some.inj hr
      exact hvalue
    · rw [if_neg (fun he => ht (eq_of_toNat_eq he)), if_neg ht]
      rw [show a + off + 2 + o.value.length = a + (off + 2 + o.value.length) by omega] at hrest ⊢
      exact findOption_located t hrest (by omega) (by omega)

/-- **What was written is found**: the first option of a type with its length and a pointer to its value; nothing
exactly for a type that was not written. -/
theorem options_found (m : Mem) (a : Nat) (os : List DhcpOption) (hfit : encodedSize os ≤ 300) (t : BitVec 8) :
    dhcpFindOption (writeOptions (a + dhcpHeaderSize) (m, 0) os) a t.toNat =
      (located t (a + dhcpHeaderSize) os).map (fun r => (r.1, r.2.value.length)) ∧
    (∀ r, located t (a + dhcpHeaderSize) os = some r → ∀ i, i < r.2.value.length →
      writeOptions (a + dhcpHeaderSize) (m, 0) os (r.1 + i) = listBytes r.2.value i) ∧
    (dhcpFindOption (writeOptions (a + dhcpHeaderSize) (m, 0) os) a t.toNat = none ↔ ∀ o ∈ os, o.type ≠ t) := by
  obtain ⟨henc, -⟩ := writeOptions_encoded (a + dhcpHeaderSize) os (m, 0)
  obtain ⟨hfind, hvalue⟩ := findOption_located t henc (by omega) hfit
  refine ⟨hfind, hvalue, Iff.trans ?_ (located_none t (a + dhcpHeaderSize) os)⟩
  unfold dhcpFindOption
  exact hfind ▸ Option.map_eq_none_iff

/-- A requested address that holds an end marker and what looks like a message type. -/
def trickyOptions : List DhcpOption :=
  [⟨50#8, [255#8, 53#8, 1#8, 2#8], by decide, by decide, by decide⟩, ⟨53#8, [1#8], by decide, by decide, by decide⟩]

theorem trickyOptions_found :
    dhcpFindOption (writeOptions (0 + dhcpHeaderSize) (fun _ => 0#8, 0) trickyOptions) 0 (53#8).toNat = none ↔
      ∀ o ∈ trickyOptions, o.type ≠ 53#8 :=
  (options_found (fun _ => 0#8) 0 trickyOptions (by decide) 53#8).2.2

end Net
end OS64
