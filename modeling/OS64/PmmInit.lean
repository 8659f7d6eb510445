import OS64.PmmCount
/-!
# PmmInit — bring-up of the page allocator (`pmm_init`) from the Multiboot2 memory map

`multiboot2_get_memory_regions` and `multiboot2_get_total_memory` (`boot/mb2p/mb2p_fnc.c`) read the information block;
`pmmInit` marks everything in use, releases the pages of the available regions and reserves four areas again.  The five
address loops are one walk in steps of a page (`walk`), over `releasePage` or `reservePage`.  No loop's end lies in the
last page of the address space, so the 64-bit loop variable does not wrap.
-/
namespace OS64

/-- `memory_region_t`, and an entry of the memory map. -/
structure MemoryRegion where
  baseAddr : Nat
  length : Nat
  type : Nat

/-- The memory fields of `multiboot2_info_t`; an absent memory map is the empty list. -/
structure Multiboot2Info where
  memLower : Nat
  memUpper : Nat
  mmap : List MemoryRegion

/-- The linker's and the compiler's addresses that bring-up reads. -/
structure KernelSyms where
  kernelPhysStart : Nat
  kernelPhysEnd : Nat
  heapStart : Nat
  heapEnd : Nat
  pmmBitmap : Nat

def mmapAvailable : Nat := 1

def MemoryRegion.available (r : MemoryRegion) : Bool := r.type == mmapAvailable

def multiboot2GetMemoryRegions (info : Multiboot2Info) (maxRegions : Nat) : List MemoryRegion :=
  if info.mmap ≠ [] then info.mmap.take maxRegions
  else
    ((if info.memLower > 0 then [MemoryRegion.mk 0 (info.memLower * 1024) mmapAvailable] else []) ++
      (if info.memUpper > 0 then [MemoryRegion.mk 1048576 (info.memUpper * 1024) mmapAvailable] else [])).take
        maxRegions

def multiboot2GetTotalMemory (info : Multiboot2Info) : Nat :=
  let total := if info.memUpper > 0 then 1048576 + info.memUpper * 1024 else 0
  if info.mmap ≠ [] then
    let mmapTotal := info.mmap.foldl (fun t r => if r.available then u64 (t + r.length) else t) 0
    if mmapTotal > total then mmapTotal else total
  else total

namespace Pmm

/-- One region in the search for the lowest and the highest available address. -/
def boundsStep (b : Nat × Nat) (r : MemoryRegion) : Nat × Nat :=
  if r.available then
    (if r.baseAddr < b.1 then r.baseAddr else b.1,
      if u64 (r.baseAddr + r.length) > b.2 then u64 (r.baseAddr + r.length) else b.2)
  else b

def regionBounds (regions : List MemoryRegion) : Nat × Nat := regions.foldl boundsStep (18446744073709551615, 0)

def pageUp (x : Nat) : Nat := clearLow 12 (u64 (x + 4095))

def lowestAddr (regions : List MemoryRegion) : Nat :=
  let lowest := (regionBounds regions).1
  if lowest % pageSize ≠ 0 then pageUp lowest else lowest

def highestAddr (regions : List MemoryRegion) : Nat :=
  let highest := (regionBounds regions).2
  if highest % pageSize ≠ 0 then clearLow 12 highest else highest

/-- The loop body of step 7: clear the page's bit and count it down, whatever the bit was. -/
def releasePage (lowest highest addr : Nat) (s : Pmm) : Pmm :=
  if addr ≥ lowest ∧ addr < highest then
    let pageIdx := u32 ((addr - s.baseAddr) / pageSize)
    if pageIdx < s.totalPages then
      (s.setByte (pageIdx / 8) (maskClear (s.bits (pageIdx / 8)) (pageIdx % 8))).decUsed
    else s
  else s

/-- The loop body of step 8: set the page's bit and count it up if it was clear. -/
def reservePage (lowest highest addr : Nat) (s : Pmm) : Pmm :=
  if addr ≥ lowest ∧ addr < highest then
    let pageIdx := u32 ((addr - s.baseAddr) / pageSize)
    if pageIdx < s.totalPages then
      if !maskTest (s.bits (pageIdx / 8)) (pageIdx % 8) then
        (s.setByte (pageIdx / 8) (maskSet (s.bits (pageIdx / 8)) (pageIdx % 8))).incUsed
      else s
    else s
  else s

/-- `for (addr = start; addr < stop; addr += PAGE_SIZE)`. -/
def walk (body : Nat → Pmm → Pmm) (start stop : Nat) (s : Pmm) : Pmm :=
  (forLoop (α := Empty) (fun k s => (body (start + pageSize * k) s, .next)) ((stop - start + 4095) / pageSize) 0 s).1

def releaseRegion (lowest highest : Nat) (s : Pmm) (r : MemoryRegion) : Pmm :=
  if r.available then
    walk (releasePage lowest highest) (pageUp r.baseAddr) (clearLow 12 (u64 (r.baseAddr + r.length))) s
  else s

def initFull (lowest highest bitmap : Nat) : Pmm :=
  let totalPages := u32 (sub64 highest lowest / pageSize)
  let bitmapBytes := u32 (totalPages + 7) / 8
  ⟨bitmap, fun b => if b < bitmapBytes then 0xFF#8 else 0x00#8, lowest, totalPages, totalPages⟩

/-- `pmm_init` on the regions found; `mb2Size` is the `total_size` word at `mb2Addr`. -/
def initFrom (regions : List MemoryRegion) (syms : KernelSyms) (mb2Addr mb2Size : Nat) : Pmm :=
  let lowest := lowestAddr regions
  let highest := highestAddr regions
  let s := initFull lowest highest syms.pmmBitmap
  let bitmapBytes := s.bitmapBytes
  let s := regions.foldl (releaseRegion lowest highest) s
  let s := walk (reservePage lowest highest) 0 0x100000 s
  let s := walk (reservePage lowest highest) syms.kernelPhysStart syms.kernelPhysEnd s
  let s := walk (reservePage lowest highest) (clearLow 12 mb2Addr) (clearLow 12 (u64 (mb2Addr + mb2Size + 4095))) s
  walk (reservePage lowest highest) syms.pmmBitmap (u64 (syms.pmmBitmap + bitmapBytes)) s

def pmmInit (info : Multiboot2Info) (syms : KernelSyms) (mb2Addr mb2Size : Nat) : Pmm :=
  initFrom (multiboot2GetMemoryRegions info 64) syms mb2Addr mb2Size

end Pmm
end OS64
