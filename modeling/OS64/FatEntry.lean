import OS64.Fat
/-!
# FatEntry — the 32-byte slots of a FAT32 directory: fields, times and names

A directory entry is read from the bytes of its cluster at its offset.  Names are C strings: lists of bytes without a
zero.  `char` is signed, which shows only where a name's byte is widened to the 16-bit unit of a long-name slot.
-/
namespace OS64

abbrev Name := List (BitVec 8)

def Name.ofString (s : String) : Name := s.toList.map (fun c => BitVec.ofNat 8 c.toNat)

def cString (bytes : Name) : Name := bytes.takeWhile (fun b => decide (b ≠ 0#8))

/-- What `read_rtc_time` and `read_rtc_date` give. -/
structure Rtc where
  hh : Nat
  mm : Nat
  ss : Nat
  year : Nat
  month : Nat
  day : Nat

def Rtc.fatDate (t : Rtc) : Nat := u32 (sub32 t.year 1980 * 512) ||| u32 (t.month * 32) ||| t.day

def Rtc.fatTime (t : Rtc) : Nat := u32 (t.hh * 2048) ||| u32 (t.mm * 32) ||| t.ss / 2

namespace Fat32

def attrDirectory : Nat := 0x10
def attrArchive : Nat := 0x20
def attrLfn : Nat := 0x0F
def ftRegFile : Nat := 1
def ftDir : Nat := 2

def deleted : BitVec 8 := 0xE5#8

def space : BitVec 8 := 0x20#8
def dot : BitVec 8 := 0x2E#8

/-! ## The fields of the slot at offset `o` of a buffer -/

def entName (buf : Mem) (o : Nat) : Name := (List.range 11).map (fun k => buf (o + k))
def entAttr (buf : Mem) (o : Nat) : Nat := (buf (o + 11)).toNat
def entCluster (buf : Mem) (o : Nat) : Nat := load buf (o + 20) 2 * 65536 ||| load buf (o + 26) 2
def entSize (buf : Mem) (o : Nat) : Nat := load buf (o + 28) 4

def setName (buf : Mem) (o : Nat) (name : Name) : Mem := blit buf o 11 (fun k => name.getD k 0#8)

def setCluster (buf : Mem) (o cluster : Nat) : Mem := store (store buf (o + 26) 2 cluster) (o + 20) 2 (cluster / 65536)

def setCreated (buf : Mem) (o : Nat) (t : Rtc) : Mem := store (store buf (o + 16) 2 t.fatDate) (o + 14) 2 t.fatTime

def setWritten (buf : Mem) (o : Nat) (t : Rtc) : Mem := store (store buf (o + 24) 2 t.fatDate) (o + 22) 2 t.fatTime

/-! ## Names -/

def checksum (name : Name) : BitVec 8 :=
  name.foldl (fun sum b => (if sum.toNat % 2 = 1 then 0x80#8 else 0#8) + BitVec.ofNat 8 (sum.toNat / 2) + b) 0#8

def lower (b : BitVec 8) : BitVec 8 := if 0x41#8 ≤ b ∧ b ≤ 0x5A#8 then b + 32#8 else b
def upper (b : BitVec 8) : BitVec 8 := if 0x61#8 ≤ b ∧ b ≤ 0x7A#8 then b - 32#8 else b

def nameFromEntry (name : Name) : Name :=
  let base := ((name.take 8).takeWhile (fun b => decide (b ≠ space))).map lower
  let ext := ((name.drop 8).takeWhile (fun b => decide (b ≠ space))).map lower
  cString (base ++ if name.getD 8 space = space then [] else dot :: ext)

def nameToEntry (name : Name) : Name :=
  let base := (name.take 8).takeWhile (fun b => decide (b ≠ dot))
  let rest := name.drop base.length
  let rest := if rest.head? = some dot then rest.tail else rest
  let ext := rest.take 3
  base.map upper ++ List.replicate (8 - base.length) space ++
    (ext.map upper ++ List.replicate (3 - ext.length) space)

/-! ## Long-name slots -/

/-- A 16-bit unit of a long-name slot: the `char` at that place, 0 behind the end of the name. -/
def lfnUnit (name : Name) (pos : Nat) : Nat :=
  match name[pos]? with
  | none => 0
  | some b => if b.toNat < 128 then b.toNat else 0xFF00 + b.toNat

def storeUnits (buf : Mem) (o : Nat) (name : Name) (pos : Nat) : Nat → Mem
  | 0 => buf
  | k + 1 => store (storeUnits buf o name pos k) (o + 2 * k) 2 (lfnUnit name (pos + k))

def putLfn (buf : Mem) (o : Nat) (name : Name) (sum : BitVec 8) (i num : Nat) : Mem :=
  let buf := fill buf o 32 0#8
  let buf := store buf o 1 (if i + 1 = num then (i + 1) ||| 0x40 else i + 1)
  let buf := store buf (o + 11) 1 attrLfn
  let buf := store buf (o + 13) 1 sum.toNat
  storeUnits (storeUnits (storeUnits buf (o + 1) name (13 * i) 5) (o + 14) name (13 * i + 5) 6)
    (o + 28) name (13 * i + 11) 2

def lfnCount (name : Name) : Nat := (name.length + 12) / 13

/-- The loop of `fat32_create_lfn_entries`, slots `k - 1` down to 0 from offset `o` on. -/
def putLfns (name : Name) (sum : BitVec 8) : Nat → Mem → Nat → Mem
  | 0, buf, _ => buf
  | k + 1, buf, o => putLfns name sum k (putLfn buf o name sum k (lfnCount name)) (o + 32)

/-- `fat32_create_lfn_entries` with `is_last` set: the buffer and the offset behind the slots. -/
def createLfnEntries (buf : Mem) (o : Nat) (name : Name) (sum : BitVec 8) : Mem × Nat :=
  (putLfns name sum (lfnCount name) buf o, o + 32 * lfnCount name)

end Fat32

end OS64
