import OS64.Gpt
import OS64.Text
/-!
# PartCreate — a new entry of the MBR (`kernel/cmd/part.c`)

`cmd_part_create` takes the first empty entry and puts the partition behind the entries in front of it.  It looks
neither at the entries behind the empty one nor at the size of the disk, and the entry has 32 bits for the number of
sectors: the new entry is right exactly when the space that it takes happens to be there (`part_create_iff`).
-/
namespace OS64

open List Nat
namespace Mbr

def partTypeExfat : Nat := 0x07
def partTypeFat32Lba : Nat := 0x0C
def partTypeLinux : Nat := 0x83
def partTypeSwap : Nat := 0x82
def partFlagBootable : Nat := 0x80

/-! ## The four entries -/

def entryAt (i : Nat) : Nat := 446 + 16 * i

def partType (mbr : Mem) (i : Nat) : Nat := load mbr (entryAt i + 4) 1
def lbaFirst (mbr : Mem) (i : Nat) : Nat := load mbr (entryAt i + 8) 4
def sectorCount (mbr : Mem) (i : Nat) : Nat := load mbr (entryAt i + 12) 4

/-- The entry that `partition_create_mbr` fills in; both CHS addresses are zero. -/
def setEntry (mbr : Mem) (i type startLba sectorCount : Nat) (bootable : Bool) : Mem :=
  let status := store mbr (entryAt i) 1 (if bootable then partFlagBootable else 0)
  let range := store (store (store status (entryAt i + 4) 1 type) (entryAt i + 8) 4 startLba) (entryAt i + 12) 4
    sectorCount
  store (store range (entryAt i + 1) 3 0) (entryAt i + 5) 3 0

/-- `read_mbr`: `none` for -1.  A sector that is larger than `mbr_t` is read over the end of the variable. -/
def readMbr (disk : BlockDev) : Res (Option Mem) :=
  match disk.read 0 1 with
  | none => .ok none
  | some mbr => if 512 < disk.sectorSize then .panic "mbr_t" else .ok (some mbr)

/-- `partition_create_mbr`: the disk, `none` for -1. -/
def partitionCreateMbr (disk : BlockDev) (index type startLba sectorCount : Nat) (bootable : Bool) :
    Res (Option BlockDev) :=
  if index < 1 ∨ 4 < index then .ok none
  else
    (readMbr disk).bind fun
      | none => .ok none
      | some mbr => .ok (Gpt.put disk 0 1 (setEntry mbr (index - 1) type startLba sectorCount bootable))

def freeSlot (mbr : Mem) : Option Nat := (List.range 4).find? (fun i => decide (partType mbr i = 0))

/-- The start that the loop over the entries before the empty one computes; the sums have 32 bits. -/
def startLba (mbr : Mem) (slot : Nat) : Nat :=
  (List.range slot).foldl (fun start i =>
    if start < u32 (lbaFirst mbr i + sectorCount mbr i) then u32 (lbaFirst mbr i + sectorCount mbr i) else start) 2048

def partTypeOf (type : Name) : Option Nat :=
  if type = Name.ofString "exfat" then some partTypeExfat
  else if type = Name.ofString "fat32" then some partTypeFat32Lba
  else if type = Name.ofString "linux" then some partTypeLinux
  else if type = Name.ofString "swap" then some partTypeSwap
  else none

/-- The registered disks by their names, and the partitions known so far. -/
structure State where
  disks : Name → Option BlockDev
  parts : List Gpt.PartEntry

inductive Reply where
  | usage
  | missingArguments
  | diskNotFound (name : Name)
  | unknownType (type : Name)
  | mbrUnread
  | noFreeSlot
  | created
  | failed

def tokens (args : Name) : Option Name × Option Name × Option Name × Option Name :=
  let disk := strtokR [32#8] (some args)
  let type := strtokR [32#8] disk.2
  let size := strtokR [32#8] type.2
  let bootable := strtokR [32#8] size.2
  (disk.1, type.1, size.1, bootable.1)

def sectorsFor (size : Name) (sectorSize : Nat) : Nat :=
  u64 (u64 (((atoi size).signExtend 64).toNat * 1024) * 1024) / sectorSize

def createOn (disk : BlockDev) (type sectors : Nat) (bootable : Bool) : Res (Except Reply BlockDev) :=
  (readMbr disk).bind fun
    | none => .ok (.error .mbrUnread)
    | some mbr =>
      match freeSlot mbr with
      | none => .ok (.error .noFreeSlot)
      | some slot =>
        (partitionCreateMbr disk (slot + 1) type (startLba mbr slot) sectors bootable).bind fun
          | none => .ok (.error .failed)
          | some disk' => .ok (.ok disk')

/-- `cmd_part_create` up to the new entry: the name of the disk and the disk with the entry, or what is printed. -/
def createEntry (s : State) (args : Option Name) : Res (Except Reply (Name × BlockDev)) :=
  match args with
  | none => .ok (.error .usage)
  | some args =>
    if args = [] then .ok (.error .usage)
    else
      match tokens args with
      | (some name, some type, some size, bootable) =>
        match s.disks name with
        | none => .ok (.error (.diskNotFound name))
        | some disk =>
          if disk.sectorSize = 0 then .panic "division by zero"
          else
            match partTypeOf type with
            | none => .ok (.error (.unknownType type))
            | some t => (createOn disk t (sectorsFor size disk.sectorSize)
                (decide (bootable = some (Name.ofString "bootable")))).bind fun
              | .error reply => .ok (.error reply)
              | .ok disk' => .ok (.ok (name, disk'))
      | _ => .ok (.error .missingArguments)

/-- `cmd_part_create`: with the new entry on the disk, the disk is scanned again. -/
def cmdPartCreate (s : State) (args : Option Name) : Res (State × Reply) :=
  (createEntry s args).bind fun
    | .error reply => .ok (s, reply)
    | .ok (name, disk') => (Gpt.partitionScanDisk disk' s.parts).bind fun r =>
        .ok ({ disks := Function.update s.disks name (some disk'), parts := r.1 }, .created)

/-! ## What a new entry should be -/

def Apart (a n b m : Nat) : Prop := ∀ x, ¬ ((a ≤ x ∧ x < a + n) ∧ b ≤ x ∧ x < b + m)

def requested (size : Name) (sectorSize : Nat) : Int := decimal size * 1048576 / sectorSize

/-- **The new entry is right**: in the entry that was empty there is a range of the requested length, inside the disk
and apart from the other entries in use. -/
def CreatedRight (disk disk' : BlockDev) (length : Int) : Prop :=
  ∃ slot, slot < 4 ∧ partType disk.data slot = 0 ∧ partType disk'.data slot ≠ 0 ∧
    (sectorCount disk'.data slot : Int) = length ∧
    lbaFirst disk'.data slot + sectorCount disk'.data slot ≤ disk.totalSectors ∧
    ∀ j, j < 4 → j ≠ slot → partType disk'.data j ≠ 0 →
      Apart (lbaFirst disk'.data slot) (sectorCount disk'.data slot) (lbaFirst disk'.data j) (sectorCount disk'.data j)

/-- The end of the entries before `slot`, as a number of 32 bits, and 2048 at least. -/
def usedEnd (mbr : Mem) (slot : Nat) : Nat :=
  ((List.range slot).map (fun i => u32 (lbaFirst mbr i + sectorCount mbr i))).foldl max 2048

/-- **There is room**: the length fits 32 bits, and so many sectors behind the entries before the first empty one are on
the disk and apart from every entry in use. -/
def Room (disk : BlockDev) (length : Int) : Prop :=
  0 ≤ length ∧ length < 4294967296 ∧ ∀ slot, slot < 4 → partType disk.data slot = 0 →
    (∀ i, i < slot → partType disk.data i ≠ 0) →
      usedEnd disk.data slot + length.toNat ≤ disk.totalSectors ∧
      ∀ j, j < 4 → j ≠ slot → partType disk.data j ≠ 0 →
        Apart (usedEnd disk.data slot) length.toNat (lbaFirst disk.data j) (sectorCount disk.data j)

/-! ## What is stored -/

section
variable {mbr : Mem} {i j type start count : Nat} {bootable : Bool}

theorem partType_setEntry : partType (setEntry mbr i type start count bootable) i = type % 256 := by
  unfold partType setEntry
  simp (disch := omega) only [load_store_apart]
  exact load_store ..

theorem lbaFirst_setEntry : lbaFirst (setEntry mbr i type start count bootable) i = u32 start := by
  unfold lbaFirst setEntry
  simp (disch := omega) only [load_store_apart, load_store]
  rfl

theorem sectorCount_setEntry : sectorCount (setEntry mbr i type start count bootable) i = u32 count := by
  unfold sectorCount setEntry
  rw [load_store_apart _ (by omega), load_store_apart _ (by omega), load_store]
  rfl

theorem load_setEntry_apart {k o : Nat} (hne : j ≠ i) (ho : o + k ≤ 16) :
    load (setEntry mbr i type start count bootable) (entryAt j + o) k = load mbr (entryAt j + o) k := by
  have hapart : entryAt j + 16 ≤ entryAt i ∨ entryAt i + 16 ≤ entryAt j := by
    unfold entryAt
    omega
  unfold setEntry
  simp (disch := omega) only [load_store_apart]

end

theorem startLba_eq (mbr : Mem) (slot : Nat) : startLba mbr slot = usedEnd mbr slot := by
  unfold startLba usedEnd
  rw [foldl_map]
  congr 1
  funext start i
  split
  · exact (max_eq_right (le_of_lt ‹_›)).symm
  · exact (max_eq_left (not_lt.1 ‹_›)).symm

theorem foldl_max_lt {b : Nat} : ∀ (l : List Nat) (a : Nat), a < b → (∀ x ∈ l, x < b) → l.foldl max a < b
  | [], _, ha, _ => ha
  | x :: l, _, ha, hl => foldl_max_lt l _ (Nat.max_lt.2 ⟨ha, hl x (.head _)⟩) (forall_mem_cons.1 hl).2

theorem usedEnd_lt (mbr : Mem) (slot : Nat) : usedEnd mbr slot < 2 ^ 32 := by
  refine foldl_max_lt _ _ (by decide) (fun x hx => ?_)
  obtain ⟨i, -, rfl⟩ := mem_map.1 hx
  exact u32_lt _

theorem stored_iff (size : Name) : ((u32 (sectorsFor size 512) : Nat) : Int) = requested size 512 ↔
    0 ≤ requested size 512 ∧ requested size 512 < 2 ^ 32 := by
  have hlt := u32_lt (sectorsFor size 512)
  constructor
  · intro h
    omega
  rintro ⟨hnonneg, hsmall⟩
  have hreq : requested size 512 = decimal size * 2048 := by
    unfold requested
    omega
  obtain ⟨n, hn⟩ : ∃ n : Nat, decimal size = n := ⟨(decimal size).toNat, by omega⟩
  have hsectors : sectorsFor size 512 = n * 2048 := by
    unfold sectorsFor
    rw [signExtend_atoi hn (by omega), u64_of_lt (show n * 1024 < 2 ^ 64 by omega), u64_of_lt (by omega)]
    omega
  rw [hreq, u32_of_lt (by omega)]
  omega

/-- **What has been written when there is a new entry.** -/
theorem createOn_created {disk disk' : BlockDev} {type sectors : Nat} {bootable : Bool}
    (h : createOn disk type sectors bootable = .ok (.ok disk')) :
    disk.sectorSize ≤ 512 ∧ ∃ slot, freeSlot disk.data = some slot ∧
      Gpt.put disk 0 1 (setEntry disk.data slot type (startLba disk.data slot) sectors bootable) = some disk' := by
  have hread : ∀ {r}, readMbr disk = .ok (some r) → disk.sectorSize ≤ 512 ∧ r = disk.data := fun {r} hr => by
    unfold readMbr BlockDev.read at hr
    split at hr
    · cases hr
    rename_i mbr hmbr
    split at hr
    · cases hr
    split at hmbr
    · cases hr
      cases hmbr
      refine ⟨not_lt.1 ‹_›, funext (fun o => ?_)⟩
      rw [mul_zero, zero_add]
    · cases hmbr
  obtain ⟨mbr, hmbr, h⟩ := Res.bind_ok h
  rcases mbr with _ | mbr
  · cases h
  obtain ⟨hsize, rfl⟩ := hread hmbr
  refine ⟨hsize, ?_⟩
  dsimp only at h
  cases hslot : freeSlot disk.data with
  | none =>
    rw [hslot] at h
    cases h
  | some slot =>
    rw [hslot] at h
    obtain ⟨made, hmade, h⟩ := Res.bind_ok h
    rcases made with _ | d
    · cases h
    cases h
    refine ⟨slot, rfl, ?_⟩
    unfold partitionCreateMbr at hmade
    split at hmade
    · cases hmade
    · rw [hmbr] at hmade
      exact Res.ok.inj hmade

theorem freeSlot_some {mbr : Mem} {slot : Nat} (h : freeSlot mbr = some slot) :
    slot < 4 ∧ partType mbr slot = 0 ∧ ∀ i, i < slot → partType mbr i ≠ 0 := by
  unfold freeSlot at h
  rw [List.find?_range_eq_some] at h
  obtain ⟨hempty, hlt, hbefore⟩ := h
  refine ⟨mem_range.1 hlt, of_decide_eq_true hempty, fun i hi hzero => ?_⟩
  have hfalse := hbefore i hi
  rw [decide_eq_true hzero] at hfalse
  cases hfalse

theorem partTypeOf_ne_zero {type : Name} {t : Nat} (h : partTypeOf type = some t) : t % 256 ≠ 0 := by
  unfold partTypeOf at h
  split at h
  · cases h
    decide
  split at h
  · cases h
    decide
  split at h
  · cases h
    decide
  split at h
  · cases h
    decide
  · cases h

structure Stored (disk disk' : BlockDev) (slot type start count : Nat) : Prop where
  newType : partType disk'.data slot = type % 256
  newFirst : lbaFirst disk'.data slot = u32 start
  newCount : sectorCount disk'.data slot = u32 count
  other : ∀ j, j < 4 → j ≠ slot → partType disk'.data j = partType disk.data j ∧
    lbaFirst disk'.data j = lbaFirst disk.data j ∧ sectorCount disk'.data j = sectorCount disk.data j

theorem stored_of_put {disk disk' : BlockDev} {slot type start count : Nat} {bootable : Bool}
    (h512 : disk.sectorSize = 512)
    (hslot : slot < 4) (h : Gpt.put disk 0 1 (setEntry disk.data slot type start count bootable) = some disk') :
    Stored disk disk' slot type start count := by
  have hload : ∀ j o k, j < 4 → o + k ≤ 16 → load disk'.data (entryAt j + o) k =
      load (setEntry disk.data slot type start count bootable) (entryAt j + o) k := fun j o k hj ho => by
    refine load_congr (fun i hi => ?_)
    rw [Gpt.put_data h512 h, if_pos (by unfold entryAt; omega)]
    rfl
  have hrest : ∀ j o k, j < 4 → o + k ≤ 16 → j ≠ slot → load disk'.data (entryAt j + o) k =
    load disk.data (entryAt j + o) k :=
    fun j o k hj ho hne => by rw [hload j o k hj ho, load_setEntry_apart hne ho]
  refine ⟨?_, ?_, ?_, fun j hj hne => ⟨hrest j 4 1 hj (by decide) hne, hrest j 8 4 hj (by decide) hne,
    hrest j 12 4 hj (by decide) hne⟩⟩
  · unfold partType
    rw [hload slot 4 1 hslot (by decide)]
    exact partType_setEntry
  · unfold lbaFirst
    rw [hload slot 8 4 hslot (by decide)]
    exact lbaFirst_setEntry
  · unfold sectorCount
    rw [hload slot 12 4 hslot (by decide)]
    exact sectorCount_setEntry

theorem Stored.right_iff {disk disk' : BlockDev} {slot type count : Nat} {length : Int}
    (h : Stored disk disk' slot type (usedEnd disk.data slot) count) (hslot : freeSlot disk.data = some slot)
    (htype : type % 256 ≠ 0) (hlength : ((u32 count : Nat) : Int) = length ↔ 0 ≤ length ∧ length < 2 ^ 32) :
    CreatedRight disk disk' length ↔ Room disk length := by
  obtain ⟨hlt, hempty, hbefore⟩ := freeSlot_some hslot
  have hfirst : lbaFirst disk'.data slot = usedEnd disk.data slot := by rw [h.newFirst, u32_of_lt (usedEnd_lt _ _)]
  constructor
  · rintro ⟨k, hk, hkempty, hkused, hcount, hinside, hapart⟩
    -- the only entry that was empty and is not any more is the new one
    obtain rfl : k = slot := by
      by_contra hne
      rw [(h.other k hk hne).1] at hkused
      exact hkused hkempty
    rw [hfirst, h.newCount] at hinside hapart
    rw [h.newCount] at hcount
    obtain ⟨hnonneg, hsmall⟩ := hlength.1 hcount
    have hnat : length.toNat = u32 count := by omega
    refine ⟨hnonneg, hsmall, fun slot' hlt' hempty' hbefore' => ?_⟩
    obtain rfl : slot' = k := by
      rcases lt_trichotomy slot' k with hl | he | hg
      · exact absurd hempty' (hbefore slot' hl)
      · exact he
      · exact absurd hkempty (hbefore' k hg)
    rw [hnat]
    refine ⟨hinside, fun j hj hne hused => ?_⟩
    obtain ⟨htj, hfj, hcj⟩ := h.other j hj hne
    have := hapart j hj hne (by rwa [htj])
    rwa [hfj, hcj] at this
  · rintro ⟨hnonneg, hsmall, hroom⟩
    have hcount := hlength.2 ⟨hnonneg, hsmall⟩
    have hnat : length.toNat = u32 count := by omega
    obtain ⟨hinside, hapart⟩ := hroom slot hlt hempty hbefore
    rw [hnat] at hinside hapart
    refine ⟨slot, hlt, hempty, by rwa [h.newType], by rwa [h.newCount], ?_, fun j hj hne hused => ?_⟩
    · rwa [hfirst, h.newCount]
    · obtain ⟨htj, hfj, hcj⟩ := h.other j hj hne
      rw [htj] at hused
      rw [hfirst, h.newCount, hfj, hcj]
      exact hapart j hj hne hused

/-- **What is on the disk when `cmd_part_create` has written a new entry.** -/
theorem createEntry_stored {s : State} {args name name' type size : Name} {bootable : Option Name}
    {disk disk' : BlockDev}
    (htokens : tokens args = (some name, some type, some size, bootable)) (hdisk : s.disks name = some disk)
    (hsector : 512 ≤ disk.sectorSize) (h : createEntry s (some args) = .ok (.ok (name', disk'))) :
    disk.sectorSize = 512 ∧ ∃ slot t, freeSlot disk.data = some slot ∧ t % 256 ≠ 0 ∧
      Stored disk disk' slot t (usedEnd disk.data slot) (sectorsFor size 512) := by
  unfold createEntry at h
  dsimp only at h
  split at h
  · cases h
  rw [htokens] at h
  dsimp only at h
  rw [hdisk] at h
  dsimp only at h
  split at h
  · cases h
  cases htype : partTypeOf type with
  | none =>
    rw [htype] at h
    cases h
  | some t =>
    rw [htype] at h
    obtain ⟨made, hmade, h⟩ := Res.bind_ok h
    rcases made with reply | d
    · cases h
    cases h
    obtain ⟨hsize, slot, hslot, hput⟩ := createOn_created hmade
    have h512 : disk.sectorSize = 512 := le_antisymm hsize hsector
    rw [startLba_eq, h512] at hput
    exact ⟨h512, slot, t, hslot, partTypeOf_ne_zero htype, stored_of_put h512 (freeSlot_some hslot).1 hput⟩

/-- **Partition creation**: when `cmd_part_create` has written a new entry, the entry is right exactly when there is
room for it behind the entries before the first empty one. -/
theorem part_create_iff {s : State} {args name name' type size : Name} {bootable : Option Name} {disk disk' : BlockDev}
    (htokens : tokens args = (some name, some type, some size, bootable)) (hdisk : s.disks name = some disk)
    (hsector : 512 ≤ disk.sectorSize) (h : createEntry s (some args) = .ok (.ok (name', disk'))) :
    CreatedRight disk disk' (requested size disk.sectorSize) ↔ Room disk (requested size disk.sectorSize) := by
  obtain ⟨h512, slot, t, hslot, ht, hstored⟩ := createEntry_stored htokens hdisk hsector h
  rw [h512]
  exact hstored.right_iff hslot ht (stored_iff size)

def smallDisk (mbr : Mem) : BlockDev := { ready := true, sectorSize := 512, totalSectors := 8192, data := mbr }

def smallState (mbr : Mem) : State :=
  { disks := fun name => if name = Name.ofString "d" then some (smallDisk mbr) else none, parts := [] }

def createArgs : Name := Name.ofString "d exfat 1"

theorem tokens_createArgs : tokens createArgs =
    (some (Name.ofString "d"), some (Name.ofString "exfat"), some (Name.ofString "1"), none) := by decide

def firstOnly : Mem := setEntry (fun _ => 0#8) 0 partTypeExfat 2048 2048 false

theorem part_create_second : ∃ name' disk', createEntry (smallState firstOnly) (some createArgs) =
    .ok (.ok (name', disk')) ∧ (CreatedRight (smallDisk firstOnly) disk' (requested (Name.ofString "1") 512) ↔
      Room (smallDisk firstOnly) (requested (Name.ofString "1") 512)) := by
  have hrun : ∃ name' disk', createEntry (smallState firstOnly) (some createArgs) = .ok (.ok (name', disk')) :=
    ⟨_, _, rfl⟩
  obtain ⟨name', disk', h⟩ := hrun
  exact ⟨name', disk', h, part_create_iff tokens_createArgs rfl (le_refl 512) h⟩

def secondOnly : Mem := setEntry (fun _ => 0#8) 1 partTypeExfat 2048 2048 false

/-- The new partition is put over the one of the second entry, and the command reports success. -/
theorem created_over_second : (∃ s', cmdPartCreate (smallState secondOnly) (some createArgs) = .ok (s', .created)) ∧
    ∃ name' disk', createEntry (smallState secondOnly) (some createArgs) = .ok (.ok (name', disk')) ∧
      ¬ CreatedRight (smallDisk secondOnly) disk' (requested (Name.ofString "1") 512) := by
  have hrun : ∃ name' disk', createEntry (smallState secondOnly) (some createArgs) = .ok (.ok (name', disk')) :=
    ⟨_, _, rfl⟩
  obtain ⟨name', disk', h⟩ := hrun
  obtain ⟨-, slot, t, hslot, ht, hstored⟩ := createEntry_stored tokens_createArgs rfl (le_refl 512) h
  refine ⟨⟨_, rfl⟩, name', disk', h, fun hright => ?_⟩
  obtain ⟨-, -, hroom⟩ := (hstored.right_iff hslot ht (stored_iff _)).1 hright
  exact (hroom 0 (by decide) (by decide) (fun i hi => absurd hi (not_lt_zero i))).2 1 (by decide) (by decide)
    (by decide)
    2048 (by decide)

end Mbr
end OS64
