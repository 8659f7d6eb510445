import OS64.Loop
import OS64.Word
import OS64.ByteBits
/-!
# Pmm — the physical page allocator (`kernel/mm/pmm.c`)

The record `pmm_t` with the contents of the array its `bitmap` field points to.  A set bit is a page in use.  The
operations return the new record and the pointer the C function returns, `0` for `NULL`; a pointer argument is a 64-bit
word, a page count a 32-bit one, converted on entry as the call converts it.  The range allocators also clear the
pages they hand out: `Cleared` is the argument pair of that `memset`, for the callers whose memory it changes.
-/
namespace OS64

def pageSize : Nat := 4096

/-- `pmm_t`: `bitmap` is the address of the bit array, `bits` what it holds. -/
structure Pmm where
  bitmap : Nat
  bits : Nat → BitVec 8
  baseAddr : Nat
  totalPages : Nat
  usedPages : Nat

namespace Pmm

def used (s : Pmm) (i : Nat) : Bool := bitAt s.bits i

def bitmapBytes (s : Pmm) : Nat := u32 (s.totalPages + 7) / 8

def setByte (s : Pmm) (b : Nat) (v : BitVec 8) : Pmm := { s with bits := Function.update s.bits b v }

/-- `pmm->base_addr + (page_idx * PAGE_SIZE)`: the product is taken in 32 bits before it is widened. -/
def pageAddr (s : Pmm) (pageIdx : Nat) : Nat := u64 (s.baseAddr + u32 (pageIdx * pageSize))

def incUsed (s : Pmm) : Pmm := { s with usedPages := u32 (s.usedPages + 1) }

def decUsed (s : Pmm) : Pmm := { s with usedPages := u32 (s.usedPages + 4294967295) }

/-! ## One page -/

def allocPageBit (byteIdx bit : Nat) (s : Pmm) : Pmm × Flow Nat :=
  if !maskTest (s.bits byteIdx) bit then
    let s := s.setByte byteIdx (maskSet (s.bits byteIdx) bit)
    let pageIdx := u32 (byteIdx * 8 + bit)
    if pageIdx < s.totalPages then (s.incUsed, .ret (s.pageAddr pageIdx)) else (s, .next)
  else (s, .next)

/-- The `== 0x00` branch of `pmm_alloc_page`: take the first bit of a byte that is wholly free. -/
def allocPageZero (byteIdx : Nat) (s : Pmm) : Pmm × Flow Nat :=
  if s.bits byteIdx = 0x00#8 then
    let s := s.setByte byteIdx 0x01#8
    let pageIdx := u32 (byteIdx * 8)
    if pageIdx < s.totalPages then (s.incUsed, .ret (s.pageAddr pageIdx)) else (s, .next)
  else (s, .next)

def allocPageBits (byteIdx : Nat) (s : Pmm) : Pmm × Flow Nat :=
  if s.bits byteIdx ≠ 0xFF#8 then
    match forLoop (allocPageBit byteIdx) 8 0 s with
    | (s, some a) => (s, .ret a)
    | (s, none) => (s, .next)
  else (s, .next)

def allocPageByte (byteIdx : Nat) (s : Pmm) : Pmm × Flow Nat :=
  match allocPageZero byteIdx s with
  | (s, .next) => allocPageBits byteIdx s
  | r => r

def pmmAllocPage (s : Pmm) : Pmm × Nat :=
  if s.bitmap = 0 then (s, 0)
  else
    let r := forLoop allocPageByte s.bitmapBytes 0 s
    (r.1, r.2.getD 0)

def pmmFreePage (s : Pmm) (addr : Nat) : Pmm :=
  let addr := u64 addr
  if s.bitmap = 0 ∨ addr = 0 then s
  else
    let pageAddr := clearLow 12 addr
    if pageAddr < s.baseAddr then s
    else
      let pageIdx := u32 ((pageAddr - s.baseAddr) / pageSize)
      if pageIdx ≥ s.totalPages then s
      else
        let byteIdx := pageIdx / 8
        let bit := pageIdx % 8
        if maskTest (s.bits byteIdx) bit then
          (s.setByte byteIdx (maskClear (s.bits byteIdx) bit)).decUsed
        else s

/-! ## Ranges -/

structure Scan where
  continuous : Nat
  startPage : Nat

def findBit (s : Pmm) (count byteIdx bit : Nat) (c : Scan) : Scan × Flow Nat :=
  let pageIdx := u32 (byteIdx * 8 + bit)
  if pageIdx ≥ s.totalPages then (c, .brk)
  else if !maskTest (s.bits byteIdx) bit then
    let c := if c.continuous = 0 then { c with startPage := pageIdx } else c
    let c := { c with continuous := u32 (c.continuous + 1) }
    if c.continuous = count then (c, .ret c.startPage) else (c, .next)
  else ({ c with continuous := 0 }, .next)

def findByte (s : Pmm) (count byteIdx : Nat) (c : Scan) : Scan × Flow Nat :=
  if s.bits byteIdx = 0xFF#8 then ({ c with continuous := 0 }, .next)
  else
    match forLoop (findBit s count byteIdx) 8 0 c with
    | (c, some p) => (c, .ret p)
    | (c, none) => (c, .next)

/-- `(u32)-1`, the search's failure value. -/
def noPage : Nat := 4294967295

def pmmFindContinuousPages (s : Pmm) (count : Nat) : Nat :=
  if count = 0 ∨ count > s.totalPages then noPage
  else (forLoop (findByte s count) s.bitmapBytes 0 ⟨0, 0⟩).2.getD noPage

def markPage (startPage : Nat) (mark : Bool) (i : Nat) (s : Pmm) : Pmm × Flow Unit :=
  let pageIdx := u32 (startPage + i)
  if pageIdx ≥ s.totalPages then (s, .brk)
  else
    let byteIdx := pageIdx / 8
    let bit := pageIdx % 8
    if mark then
      if !maskTest (s.bits byteIdx) bit then
        ((s.setByte byteIdx (maskSet (s.bits byteIdx) bit)).incUsed, .next)
      else (s, .next)
    else
      if maskTest (s.bits byteIdx) bit then
        ((s.setByte byteIdx (maskClear (s.bits byteIdx) bit)).decUsed, .next)
      else (s, .next)

def pmmMarkRange (s : Pmm) (startPage count : Nat) (mark : Bool) : Pmm :=
  (forLoop (markPage startPage mark) count 0 s).1

/-- The destination and length of the `memset` over a range handed out. -/
structure Cleared where
  addr : Nat
  len : Nat

def pmmAllocRange (s : Pmm) (pageCount : Nat) : Pmm × Nat × Option Cleared :=
  let pageCount := u32 pageCount
  if pageCount = 0 then (s, 0, none)
  else
    let startPage := s.pmmFindContinuousPages pageCount
    if startPage = noPage then (s, 0, none)
    else
      let s := s.pmmMarkRange startPage pageCount true
      let addr := s.pageAddr startPage
      (s, addr, some ⟨addr, u32 (pageCount * pageSize)⟩)

/-- `pmm_free_range`; the loop that only prints a warning for each page already free is left out. -/
def pmmFreeRange (s : Pmm) (addr pageCount : Nat) : Pmm :=
  let addr := u64 addr
  let pageCount := u32 pageCount
  if addr = 0 ∨ pageCount = 0 then s
  else
    let pageAddr := clearLow 12 addr
    if pageAddr < s.baseAddr then s
    else
      let startPage := u32 ((pageAddr - s.baseAddr) / pageSize)
      if startPage ≥ s.totalPages then s
      else s.pmmMarkRange startPage pageCount false

structure AlignedScan where
  continuous : Nat
  startPage : Nat
  inAligned : Bool

/-- One turn of the bit loop of `pmm_alloc_aligned_range`; the value returned is the start page it marks. -/
def alignedBit (s : Pmm) (pageCount alignment byteIdx bit : Nat) (c : AlignedScan) : AlignedScan × Flow Nat :=
  let pageIdx := u32 (byteIdx * 8 + bit)
  if pageIdx ≥ s.totalPages then (c, .brk)
  else if !c.inAligned ∧ pageIdx % alignment ≠ 0 then (c, .next)
  else if !maskTest (s.bits byteIdx) bit then
    let c := if c.continuous = 0 then { c with startPage := pageIdx, inAligned := true } else c
    let c := { c with continuous := u32 (c.continuous + 1) }
    if c.continuous = pageCount then (c, .ret c.startPage) else (c, .next)
  else ({ c with continuous := 0, inAligned := false }, .next)

def alignedByte (s : Pmm) (pageCount alignment byteIdx : Nat) (c : AlignedScan) : AlignedScan × Flow Nat :=
  if s.bits byteIdx = 0xFF#8 then ({ c with continuous := 0, inAligned := false }, .next)
  else
    match forLoop (alignedBit s pageCount alignment byteIdx) 8 0 c with
    | (c, some p) => (c, .ret p)
    | (c, none) => (c, .next)

def pmmAllocAlignedRange (s : Pmm) (pageCount alignmentPages : Nat) : Pmm × Nat × Option Cleared :=
  let pageCount := u32 pageCount
  let alignmentPages := u32 alignmentPages
  if pageCount = 0 ∨ alignmentPages = 0 then (s, 0, none)
  else if alignmentPages &&& (alignmentPages - 1) ≠ 0 then (s, 0, none)
  else
    match (forLoop (alignedByte s pageCount alignmentPages) s.bitmapBytes 0 ⟨0, 0, false⟩).2 with
    | some startPage =>
      let s := s.pmmMarkRange startPage pageCount true
      let addr := s.pageAddr startPage
      (s, addr, some ⟨addr, u32 (pageCount * pageSize)⟩)
    | none => (s, 0, none)

end Pmm
end OS64
