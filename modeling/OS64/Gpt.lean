import OS64.Crc
import OS64.FatEntry
/-!
# Gpt — partition tables on a disk (`kernel/partition.c`)

`write_gpt_header` computes the checksum of a header with the field of the checksum cleared, `read_gpt_header` that of
the header with the field filled in.  The two agree only if the checksum is zero (`gpt_roundTrip`).  A new table is all
zero and its checksum is not, but `disk_create_gpt` leaves the checksum of the table at zero.

The sector that a header is read into is a `Mem`; `gpt_header_t` has 92 bytes, and the rest of the sector is written
from what lies behind it on the stack.  `none` stands for the return value `-1`.
-/
namespace OS64

open BitVec Option

namespace Gpt

variable {disk d : BlockDev} {count lba : Nat} {buf stack : Mem}

def partTypeEfi : Nat := 0xEE
def signature : Name := Name.ofString "EFI PART"
def revision10 : Nat := 0x00010000
def headerSize : Nat := 92
def partitionEntrySize : Nat := 128

def poly : BitVec 32 := 0xEDB88320#32

def calculateCrc32 (data : Mem) (size : Nat) : Nat := (~~~ Crc.run poly data size 0xFFFFFFFF#32).toNat

def put (disk : BlockDev) (lba count : Nat) (buf : Mem) : Option BlockDev :=
  if disk.ready = true ∧ u64 (lba + count) ≤ disk.totalSectors then some (disk.write lba count buf) else none

/-! ## The header -/

def readGptHeader (disk : BlockDev) (lba : Nat) : Option Mem :=
  match disk.read lba 1 with
  | none => none
  | some header =>
    if (List.range 8).map header ≠ signature then none
    else if load header 8 4 ≠ revision10 then none
    else if calculateCrc32 header (load header 12 4) ≠ load header 16 4 then none
    else some header

/-- The header with its checksum, as `write_gpt_header` leaves it. -/
def sealHeader (header : Mem) : Mem :=
  let cleared := store header 16 4 0
  store cleared 16 4 (calculateCrc32 cleared (load cleared 12 4))

def writeGptHeader (disk : BlockDev) (header : Mem) (lba : Nat) : Option BlockDev := put disk lba 1 (sealHeader header)

/-- The header that `disk_create_gpt` fills in, in front of what lies on the stack. -/
def newHeader (stack : Mem) (totalSectors : Nat) : Mem :=
  let h := blit (fill stack 0 92 0#8) 0 8 (fun k => signature.getD k 0#8)
  let h := store (store (store h 8 4 revision10) 12 4 headerSize) 24 8 1
  let h := store (store (store h 32 8 (sub64 totalSectors 1)) 40 8 34) 48 8 (sub64 totalSectors 34)
  let h := store (store (store h 72 8 2) 80 4 128) 84 4 partitionEntrySize
  store (store (store h 56 4 0x12345678) 60 2 0x9ABC) 62 2 0xDEF0

def protectiveMbr : Mem := store (store (store (store blank 450 1 partTypeEfi) 454 4 1) 458 4 0xFFFFFFFF) 510 2 0xAA55

def diskCreateGpt (disk : BlockDev) (stack : Mem) : Option BlockDev := do
  let disk ← put disk 0 1 protectiveMbr
  let header := newHeader stack disk.totalSectors
  let disk ← writeGptHeader disk header 1
  let header := store (store (sealHeader header) 24 8 (sub64 disk.totalSectors 1)) 32 8 1
  let disk ← writeGptHeader disk header (sub64 disk.totalSectors 1)
  put disk 2 32 blank

/-! ## The scan -/

/-- `partition_t` without its name and its disk. -/
structure PartEntry where
  index : Nat
  type : Nat
  typeGuid : List (BitVec 8)
  startLba : Nat
  sectorCount : Nat
  bootable : Bool
  isLogical : Bool
  isGpt : Bool
  partLabel : Name

def diskIsGpt (disk : BlockDev) : Bool :=
  match disk.read 0 1 with
  | none => false
  | some mbr => decide (load mbr 450 1 = partTypeEfi ∧ load mbr 454 4 = 1)

def readGptPartitionEntries (disk : BlockDev) (header : Mem) : Option Mem :=
  let tableSize := u32 (load header 80 4 * load header 84 4)
  let sectors := u32 (sub64 (u64 (tableSize + disk.sectorSize)) 1 / disk.sectorSize)
  if tableSize = 0 then none
  else
    match disk.read (load header 72 8) sectors with
    | none => none
    | some entries => if calculateCrc32 entries tableSize ≠ load header 88 4 then none else some entries

def utf16leToUtf8 (src : Mem) (o : Nat) : Name :=
  (((List.range 35).map (fun i => load src (o + 2 * i) 2)).takeWhile (fun c => decide (c ≠ 0))).map
    (fun c => if c < 0x80 then BitVec.ofNat 8 c else 0x3F#8)

def gptPart (entries : Mem) (i : Nat) : Option PartEntry :=
  let o := 128 * i
  if load entries (o + 32) 8 = 0 ∧ load entries (o + 40) 8 = 0 then none
  else
    some { index := i + 1, type := 0, typeGuid := (List.range 16).map (fun k => entries (o + k))
           startLba := load entries (o + 32) 8
           sectorCount := u64 (sub64 (load entries (o + 40) 8) (load entries (o + 32) 8) + 1)
           bootable := false, isLogical := false, isGpt := true, partLabel := utf16leToUtf8 entries (o + 56) }

/-- `scan_gpt`: the partitions with those found put in front, `none` for `-1`. -/
def scanGpt (disk : BlockDev) (parts : List PartEntry) : Option (List PartEntry) :=
  match readGptHeader disk 1 with
  | none => none
  | some header =>
    match readGptPartitionEntries disk header with
    | none => none
    | some entries => some (((List.range (load header 80 4)).filterMap (gptPart entries)).reverse ++ parts)

def addPartition (parts : List PartEntry) (index type startLba sectorCount : Nat) (bootable : Bool) : List PartEntry :=
  if 128 ≤ parts.length then parts
  else
    { index := index, type := type, typeGuid := List.replicate 16 0#8, startLba := startLba, sectorCount := sectorCount
      bootable := bootable, isLogical := decide (4 < index), isGpt := false, partLabel := [] } :: parts

/-- One turn of the loop over the extended boot records, with the index of the next logical partition. -/
def ebrTurn (disk : BlockDev) (currentLba : Nat) (s : List PartEntry × Nat) : (List PartEntry × Nat) × Flow Unit :=
  match disk.read currentLba 1 with
  | none => (s, .brk)
  | some ebr =>
    let s := if load ebr 450 1 = 0 then s
      else (addPartition s.1 s.2 (load ebr 450 1) (u32 (currentLba + load ebr 454 4)) (load ebr 458 4) false, s.2 + 1)
    if load ebr 470 4 = 0 then (s, .brk) else (s, .next)

def nextEbr (disk : BlockDev) (lbaFirst currentLba : Nat) : Nat :=
  u32 (lbaFirst + load (fun o => disk.data (disk.sectorSize * currentLba + o)) 470 4)

/-- An entry of the MBR; the loop over the extended boot records is endless when they form a circle. -/
def mbrEntry (disk : BlockDev) (mbr : Mem) (i : Nat) (parts : List PartEntry) : Res (List PartEntry) :=
  let o := 446 + 16 * i
  let type := load mbr (o + 4) 1
  let lbaFirst := load mbr (o + 8) 4
  if type = 0 then .ok parts
  else
    let parts := addPartition parts (i + 1) type lbaFirst (load mbr (o + 12) 4) (decide (load mbr o 1 = 0x80))
    if type = 0x05 ∨ type = 0x0F then
      (trailLoop (nextEbr disk lbaFirst) (fun c => decide (c = 0)) (ebrTurn disk) 4294967297 lbaFirst (parts, 5)).bind
        (fun r => .ok r.1.1)
    else .ok parts

def scanMbr (disk : BlockDev) (mbr : Mem) (parts : List PartEntry) : Res (List PartEntry) :=
  (mbrEntry disk mbr 0 parts).bind (fun parts => (mbrEntry disk mbr 1 parts).bind (fun parts =>
    (mbrEntry disk mbr 2 parts).bind (mbrEntry disk mbr 3)))

/-- `partition_scan_disk`: the partitions known afterwards, and whether the call returns 0. -/
def partitionScanDisk (disk : BlockDev) (parts : List PartEntry) : Res (List PartEntry × Bool) :=
  if disk.ready = false then .ok (parts, false)
  else if diskIsGpt disk = true then
    match scanGpt disk parts with
    | none => .ok (parts, false)
    | some parts => .ok (parts, true)
  else
    match disk.read 0 1 with
    | none => .ok (parts, false)
    | some mbr =>
      if load mbr 510 2 ≠ 0xAA55 then .ok (parts, true)
      else (scanMbr disk mbr parts).bind (fun parts => .ok (parts, true))

/-! ## The checksum -/

theorem poly_top : poly.getLsbD 31 = true := by decide

theorem poly_even : Crc.oddTop poly 32 = false := by decide

theorem calculateCrc32_lt (data : Mem) (size : Nat) : calculateCrc32 data size < 2 ^ 32 := BitVec.isLt _

theorem calculateCrc32_congr {m m' : Mem} {n : Nat} (h : ∀ k, k < n → m' k = m k) :
    calculateCrc32 m' n = calculateCrc32 m n := by
  unfold calculateCrc32
  rw [Crc.run_congr _ h]

theorem word_store (a v : Nat) : Crc.word 32 (store (fun _ => 0#8) a 4 v) a 4 = BitVec.ofNat 32 v := by
  refine eq_of_getLsbD_eq (fun j hj => ?_)
  rw [Crc.getLsbD_word _ _ _ hj, decide_eq_true (by omega), Bool.true_and, getLsbD_ofNat]
  unfold store
  rw [if_pos (by omega), Nat.add_sub_cancel_left, getLsbD_ofNat, decide_eq_true hj, Bool.true_and,
    decide_eq_true (Nat.mod_lt _ (by decide)), Bool.true_and, show 256 ^ (j / 8) = 2 ^ (8 * (j / 8)) by
      rw [Nat.pow_mul], Nat.testBit_div_two_pow, show j % 8 + 8 * (j / 8) = j by omega]

theorem run_store_crc (m : Mem) (v : Nat) (c : BitVec 32) (hm : ∀ i, i < 4 → m (16 + i) = 0#8) :
    Crc.run poly (store m 16 4 v) 92 c = Crc.run poly m 92 c ^^^ Crc.shifts poly 608 (BitVec.ofNat 32 v) := by
  let d : Mem := store (fun _ => 0#8) 16 4 v
  have hsplit : Crc.run poly (store m 16 4 v) 92 c = Crc.run poly (fun k => m k ^^^ d k) 92 (c ^^^ 0#32) := by
    rw [xor_zero]
    refine Crc.run_congr _ (fun k hk => ?_)
    by_cases hin : 16 ≤ k ∧ k < 20
    · have hz := hm (k - 16) (by omega)
      rw [Nat.add_sub_cancel' hin.1] at hz
      simp only [d, store, hz, zero_xor]
    · simp only [d, store, if_neg hin, xor_zero]
  have hbefore : Crc.run poly d 16 0#32 = 0#32 := Crc.run_of_zeros (fun i hi => store_apart _ (by omega))
  have hword : Crc.run poly d 20 0#32 = Crc.shifts poly 32 (BitVec.ofNat 32 v) := by
    have hw := Crc.run_word d 16 hbefore (show 8 * 4 ≤ 32 by decide)
    rw [word_store] at hw
    exact hw
  have hafter := @Crc.run_zeros 32 poly d 0#32 20 72 (fun i hi => store_apart _ (by omega))
  rw [hsplit, Crc.run_xor, hafter, hword, ← Crc.shifts_add]

/-- **The checksum of a header that holds its checksum** is that checksum only if it is zero. -/
theorem crc_seal_iff (header : Mem) : calculateCrc32 (store (store header 16 4 0) 16 4
      (calculateCrc32 (store header 16 4 0) 92)) 92 = calculateCrc32 (store header 16 4 0) 92 ↔
    calculateCrc32 (store header 16 4 0) 92 = 0 := by
  have hzero : ∀ i, i < 4 → store header 16 4 0 (16 + i) = 0#8 := fun i hi => by
    unfold store
    rw [if_pos (by omega), Nat.zero_div]
  generalize store header 16 4 0 = m at hzero ⊢
  have hrun := run_store_crc m (calculateCrc32 m 92) 0xFFFFFFFF#32 hzero
  have hof : BitVec.ofNat 32 (calculateCrc32 m 92) = ~~~ Crc.run poly m 92 0xFFFFFFFF#32 := ofNat_toNat ..
  rw [hof] at hrun
  have hnum : ∀ x : BitVec 32, (~~~ x).toNat = 0 ↔ ~~~ x = 0#32 := fun x => by
    rw [← toNat_inj]
    rfl
  unfold calculateCrc32 at hrun ⊢
  rw [hrun, hnum, toNat_inj]
  generalize Crc.run poly m 92 0xFFFFFFFF#32 = r
  constructor
  · intro h
    have hsame : r ^^^ Crc.shifts poly 608 (~~~ r) = r ^^^ 0#32 := by rw [BitVec.not_inj.1 h, BitVec.xor_zero]
    exact Crc.shifts_eq_zero poly_top ((xor_right_inj _).1 hsame)
  · intro h
    rw [h, Crc.shifts_zero, xor_zero, h]

theorem crc_zeros {m : Mem} (h : ∀ k, k < 16384 → m k = 0#8) : calculateCrc32 m 16384 ≠ 0 := by
  intro hc
  have hrun := @Crc.run_zeros 32 poly m 0xFFFFFFFF#32 0 16384 (fun i hi => by rw [Nat.zero_add]; exact h i hi)
  have hone : Crc.run poly m 16384 0xFFFFFFFF#32 = 0xFFFFFFFF#32 := by
    have hnot : ~~~ Crc.run poly m 16384 0xFFFFFFFF#32 = ~~~ 0xFFFFFFFF#32 := toNat_inj.1 hc
    exact BitVec.not_inj.1 hnot
  rw [hone] at hrun
  have hone := Crc.shifts_two_pow_ne poly_even (k := 17) hrun.symm
  exact absurd hone (show 0xFFFFFFFF#32 ≠ 0#32 by decide)

/-- **A burst changes the checksum**: two messages that differ, and only in 32 bits in a row, have different ones. -/
theorem crc_burst {m m' : Mem} {n s : Nat} (hne : ∃ i, i < n ∧ m i ≠ m' i)
    (hburst : ∀ i < n, ∀ j < 8, (m i).getLsbD j ≠ (m' i).getLsbD j → s ≤ 8 * i + j ∧ 8 * i + j < s + 32) :
    calculateCrc32 m n ≠ calculateCrc32 m' n := fun h => by
  obtain ⟨i, hi, hne⟩ := hne
  have hrun : Crc.run poly m n 0xFFFFFFFF#32 = Crc.run poly m' n 0xFFFFFFFF#32 :=
    BitVec.not_inj.1 (BitVec.toNat_inj.1 h)
  have hdiff := Crc.run_xor (P := poly) m m' 0xFFFFFFFF#32 0xFFFFFFFF#32 n
  rw [hrun, BitVec.xor_self, BitVec.xor_self] at hdiff
  have hzero := Crc.burst_eq_zero poly_top (k := 4) rfl (fun i hi j hj hb => hburst i hi j hj ?_) hdiff i hi
  · exact hne (BitVec.xor_eq_zero_iff.1 hzero)
  · rw [BitVec.getLsbD_xor] at hb
    intro heq
    rw [heq, Bool.xor_self] at hb
    cases hb

theorem crc_last_bits : calculateCrc32 blank 5 ≠ calculateCrc32 (store blank 1 4 0xFFFFFFFF) 5 :=
  crc_burst (s := 8) ⟨1, by decide, by decide⟩ (by decide)

/-! ## What stands on the disk -/

theorem put_some (h : put disk lba count buf = some d) :
    (disk.ready = true ∧ u64 (lba + count) ≤ disk.totalSectors) ∧ d = disk.write lba count buf := by
  unfold put at h
  split at h
  · cases h
    exact ⟨‹_›, rfl⟩
  · cases h

theorem put_data (h512 : disk.sectorSize = 512) (h : put disk lba count buf = some d) (a : Nat) :
    d.data a = if 512 * lba ≤ a ∧ a < 512 * lba + 512 * count then buf (a - 512 * lba) else disk.data a := by
  obtain ⟨hacc, rfl⟩ := put_some h
  rw [BlockDev.write_data, h512]
  simp only [and_iff_right hacc]

theorem put_shape (h : put disk lba count buf = some d) :
    d.ready = disk.ready ∧ d.sectorSize = disk.sectorSize ∧ d.totalSectors = disk.totalSectors := by
  obtain ⟨-, rfl⟩ := put_some h
  exact BlockDev.write_shape ..

theorem readGptHeader_put {header : Mem} (h512 : disk.sectorSize = 512)
    (h : writeGptHeader disk header lba = some d) : ∃ m, d.read lba 1 = some m ∧ ∀ o, o < 512 →
      m o = sealHeader header o := by
  obtain ⟨hready, hsize, htotal⟩ := put_shape h
  obtain ⟨hacc, -⟩ := put_some h
  unfold BlockDev.read
  rw [hready, htotal, if_pos hacc, hsize, h512]
  refine ⟨_, rfl, fun o ho => ?_⟩
  rw [put_data h512 h, if_pos (by omega), Nat.add_sub_cancel_left]

theorem sealHeader_apart (header : Mem) {x : Nat} (h : x < 16 ∨ 20 ≤ x) : sealHeader header x = header x := by
  unfold sealHeader
  rw [store_apart _ h, store_apart _ h]

theorem header_iff {header : Mem} (h512 : disk.sectorSize = 512)
    (hsize : load header 12 4 = headerSize) (h : writeGptHeader disk header lba = some d) :
    (readGptHeader d lba).isSome ↔ (List.range 8).map header = signature ∧ load header 8 4 = revision10 ∧
      calculateCrc32 (store header 16 4 0) 92 = 0 := by
  obtain ⟨m, hm, hbytes⟩ := readGptHeader_put h512 h
  have hfield : ∀ a k, a + k ≤ 16 → load m a k = load header a k := fun a k hak => by
    refine load_congr (fun i hi => ?_)
    rw [hbytes _ (by omega), sealHeader_apart _ (.inl (by omega))]
  have hsig : (List.range 8).map m = (List.range 8).map header := by
    refine List.map_congr_left (fun k hk => ?_)
    rw [List.mem_range] at hk
    rw [hbytes _ (by omega), sealHeader_apart _ (.inl (by omega))]
  have hcleared : load (store header 16 4 0) 12 4 = headerSize := by rw [load_store_apart _ (.inl (by decide)), hsize]
  have hseal : sealHeader header = store (store header 16 4 0) 16 4 (calculateCrc32 (store header 16 4 0) 92) := by
    unfold sealHeader
    simp only [hcleared]
    rfl
  have hcrc : load m 16 4 = calculateCrc32 (store header 16 4 0) 92 := by
    have hcong : load m 16 4 = load (sealHeader header) 16 4 := load_congr (fun i hi => hbytes _ (by omega))
    rw [hcong, hseal, load_store]
    exact Nat.mod_eq_of_lt (calculateCrc32_lt ..)
  have hsum : calculateCrc32 m 92 = calculateCrc32 (store (store header 16 4 0) 16 4
      (calculateCrc32 (store header 16 4 0) 92)) 92 := by
    rw [← hseal]
    exact calculateCrc32_congr (fun k hk => hbytes k (by omega))
  unfold readGptHeader
  rw [hm]
  simp only [hsig, hfield 8 4 (by decide), hfield 12 4 (by decide), hsize, hcrc]
  rw [show headerSize = 92 from rfl, hsum, ← crc_seal_iff header]
  split
  · exact iff_of_false (by decide) (fun hc => absurd hc.1 ‹_›)
  split
  · exact iff_of_false (by decide) (fun hc => absurd hc.2.1 ‹_›)
  split
  · exact iff_of_false (by decide) (fun hc => absurd hc.2.2 ‹_›)
  · exact iff_of_true rfl ⟨not_ne_iff.1 ‹_›, not_ne_iff.1 ‹_›, not_ne_iff.1 ‹_›⟩

/-- The disk that `disk_create_gpt` leaves: the MBR, the header and an empty table. -/
structure Created (disk d : BlockDev) (stack : Mem) : Prop where
  ready : d.ready = true
  size : d.sectorSize = 512
  total : d.totalSectors = disk.totalSectors
  mbr : ∀ o, o < 512 → d.data o = protectiveMbr o
  header : ∀ o, o < 512 → d.data (512 + o) = sealHeader (newHeader stack disk.totalSectors) o
  table : ∀ o, o < 16384 → d.data (1024 + o) = 0#8

theorem diskCreateGpt_created (h512 : disk.sectorSize = 512)
    (h68 : 68 ≤ disk.totalSectors) (hlt : disk.totalSectors < 2 ^ 64)
    (h : diskCreateGpt disk stack = some d) : Created disk d stack := by
  obtain ⟨d₀, h₀, h⟩ := bind_eq_some_iff.1 h
  obtain ⟨d₁, h₁, h⟩ := bind_eq_some_iff.1 h
  obtain ⟨d₂, h₂, h₃⟩ := bind_eq_some_iff.1 h
  obtain ⟨r₀, s₀, t₀⟩ := put_shape h₀
  obtain ⟨r₁, s₁, t₁⟩ := put_shape h₁
  obtain ⟨r₂, s₂, t₂⟩ := put_shape h₂
  obtain ⟨r₃, s₃, t₃⟩ := put_shape h₃
  have hs₀ : d₀.sectorSize = 512 := s₀.trans h512
  have hs₁ : d₁.sectorSize = 512 := s₁.trans hs₀
  have hs₂ : d₂.sectorSize = 512 := s₂.trans hs₁
  have hlast : sub64 d₁.totalSectors 1 = disk.totalSectors - 1 := by rw [t₁, t₀, sub64_of_le hlt (by omega)]
  have hfar : ∀ a, a < 17408 → d₂.data a = d₁.data a := fun a ha => by
    rw [put_data hs₁ h₂, hlast, if_neg (by omega)]
  refine ⟨?_, s₃.trans hs₂, t₃.trans (t₂.trans (t₁.trans t₀)), fun o ho => ?_, fun o ho => ?_, fun o ho => ?_⟩
  · rw [r₃, r₂, r₁, r₀]
    exact (put_some h₀).1.1
  · rw [put_data hs₂ h₃, if_neg (by omega), hfar _ (by omega), put_data hs₀ h₁, if_neg (by omega), put_data h512 h₀,
      if_pos (by omega), Nat.sub_zero]
  · rw [put_data hs₂ h₃, if_neg (by omega), hfar _ (by omega), put_data hs₀ h₁, if_pos (by omega),
      Nat.add_sub_cancel_left, t₀]
  · rw [put_data hs₂ h₃, if_pos (by omega)]
    rfl

theorem Created.read (h : Created disk d stack) (h68 : 68 ≤ disk.totalSectors)
    (hin : lba + count ≤ 34) : d.read lba count = some (fun o => d.data (512 * lba + o)) := by
  unfold BlockDev.read
  rw [h.ready, h.total, h.size, if_pos]
  refine ⟨rfl, ?_⟩
  unfold u64
  omega

theorem Created.isGpt (h : Created disk d stack) (h68 : 68 ≤ disk.totalSectors) : diskIsGpt d = true := by
  unfold diskIsGpt
  rw [h.read h68 (by decide)]
  have hfield : ∀ a k, a + k ≤ 512 → load (fun o => d.data (512 * 0 + o)) a k = load protectiveMbr a k := by
    intro a k hak
    refine load_congr (fun i hi => ?_)
    rw [Nat.zero_add, h.mbr _ (by omega)]
  simp only [hfield 450 1 (by decide), hfield 454 4 (by decide)]
  decide

theorem Created.field (h : Created disk d stack) {a k : Nat} (ha : 20 ≤ a)
    (hak : a + k ≤ 92) : load (fun o => d.data (512 * 1 + o)) a k = load (newHeader stack disk.totalSectors) a k := by
  refine load_congr (fun i hi => ?_)
  rw [h.header _ (by omega), sealHeader_apart _ (.inr (by omega))]

theorem newHeader_fields (stack : Mem) (n : Nat) : load (newHeader stack n) 72 8 = 2 ∧
    load (newHeader stack n) 80 4 = 128 ∧ load (newHeader stack n) 84 4 = 128 ∧ load (newHeader stack n) 88 4 = 0 := by
  have hclear : load (blit (fill stack 0 92 0#8) 0 8 (fun k => signature.getD k 0#8)) 88 4 = 0 := by
    refine (load_of_bytes (fun i hi => ?_)).trans (Nat.zero_mod _)
    rw [blit_apart _ _ (.inr (by omega)), Nat.zero_div]
    unfold fill
    rw [if_pos (by omega)]
    rfl
  unfold newHeader
  simp (disch := decide) only [load_store_apart]
  exact ⟨load_store .., load_store .., load_store .., hclear⟩

/-- The empty table is refused: its checksum is not the zero in the header. -/
theorem Created.refused (h : Created disk d stack) (h68 : 68 ≤ disk.totalSectors) :
    readGptPartitionEntries d (fun o => d.data (512 * 1 + o)) = none := by
  obtain ⟨hlba, hcount, hsize, hcrc⟩ := newHeader_fields stack disk.totalSectors
  unfold readGptPartitionEntries
  simp only [h.field (show 20 ≤ 72 by decide) (show 72 + 8 ≤ 92 by decide),
    h.field (show 20 ≤ 80 by decide) (show 80 + 4 ≤ 92 by decide),
    h.field (show 20 ≤ 84 by decide) (show 84 + 4 ≤ 92 by decide),
    h.field (show 20 ≤ 88 by decide) (show 88 + 4 ≤ 92 by decide), hlba, hcount, hsize, hcrc, h.size]
  rw [if_neg (by decide), h.read h68 (by decide)]
  have hne := crc_zeros h.table
  exact if_pos hne

theorem Created.scan (h : Created disk d stack) (h68 : 68 ≤ disk.totalSectors)
    (parts : List PartEntry) : partitionScanDisk d parts = .ok (parts, false) := by
  have hscan : scanGpt d parts = none := by
    unfold scanGpt readGptHeader
    rw [h.read h68 (by decide)]
    simp only
    split
    · rfl
    rename_i header hh
    have hheader : header = fun o => d.data (512 * 1 + o) := by
      repeat' split at hh
      all_goals cases hh
      rfl
    rw [hheader, h.refused h68]
  unfold partitionScanDisk
  rw [h.ready, if_neg (by decide), h.isGpt h68, if_pos rfl, hscan]

/-- **The GPT round trip** never holds for a new table: `disk_create_gpt` succeeds, the disk is taken for one with a
GPT, and the scan fails.  A header of 92 bytes with signature and revision is accepted again exactly if its checksum is
zero. -/
theorem gpt_roundTrip (disk : BlockDev) (h512 : disk.sectorSize = 512) :
    (∀ (d : BlockDev) (stack : Mem) (parts : List PartEntry), disk.ready = true →
      68 ≤ disk.totalSectors → disk.totalSectors < 18446744073709551616 → diskCreateGpt disk stack = some d →
      diskIsGpt d = true ∧ partitionScanDisk d parts = .ok (parts, false)) ∧
    ∀ (d : BlockDev) (header : Mem) (lba : Nat), load header 12 4 = headerSize →
      writeGptHeader disk header lba = some d →
      ((readGptHeader d lba).isSome ↔ (List.range 8).map header = signature ∧ load header 8 4 = revision10 ∧
        calculateCrc32 (store header 16 4 0) 92 = 0) := by
  refine ⟨fun d stack parts _ h68 hlt h => ?_, fun d header lba hsize h => header_iff h512 hsize h⟩
  have hc := diskCreateGpt_created h512 h68 hlt h
  exact ⟨hc.isGpt h68, hc.scan h68 parts⟩

def smallDisk : BlockDev := { ready := true, sectorSize := 512, totalSectors := 68, data := blank }

theorem smallDisk_roundTrip : (∃ d, diskCreateGpt smallDisk blank = some d ∧ diskIsGpt d = true ∧
      partitionScanDisk d [] = .ok ([], false)) ∧
    ∃ d, writeGptHeader smallDisk (newHeader blank 68) 1 = some d ∧ ((readGptHeader d 1).isSome ↔
      (List.range 8).map (newHeader blank 68) = signature ∧ load (newHeader blank 68) 8 4 = revision10 ∧
        calculateCrc32 (store (newHeader blank 68) 16 4 0) 92 = 0) :=
  ⟨⟨_, rfl, (gpt_roundTrip smallDisk rfl).1 _ blank [] rfl (by decide) (by decide) rfl⟩,
    ⟨_, rfl, (gpt_roundTrip smallDisk rfl).2 _ (newHeader blank 68) 1 (by decide) rfl⟩⟩

/-- The new header itself is refused on that disk, and the scan fails. -/
theorem smallDisk_refused :
    (∃ d, diskCreateGpt smallDisk blank = some d ∧ ∃ parts, partitionScanDisk d [] = .ok (parts, false)) ∧
    ∃ d, writeGptHeader smallDisk (newHeader blank 68) 1 = some d ∧ load (newHeader blank 68) 12 4 = headerSize ∧
      readGptHeader d 1 = none := by
  have h512 : smallDisk.sectorSize = 512 := rfl
  refine ⟨⟨_, rfl, [], ?_⟩, _, rfl, by decide, ?_⟩
  · exact (@diskCreateGpt_created smallDisk _ blank h512 (by decide) (by decide) rfl).scan (by decide) []
  · refine not_isSome_iff_eq_none.1 (fun hs => ?_)
    have hcrc := ((@header_iff smallDisk _ 1 (newHeader blank 68) h512 (by decide) rfl).1 hs).2.2
    exact absurd hcrc (by decide +kernel)

end Gpt

end OS64
