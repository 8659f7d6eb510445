import OS64.Heap
/-!
# Paging — four-level page tables: the hardware walk, `kernel/paging.c`, and the tables the boot code installs

`translate` is the processor's walk, which stops at an entry with the PS bit.  `getNextLevel` is the kernel's, which
looks at the present bit only.  Pointers are physical addresses: the kernel runs on an identity map.  Every store is
also noted in `log`, with who made it.
-/
namespace OS64

/-- Who stores: the range allocator clearing pages, the page-table code, or the heap. -/
inductive Writer where
  | clear
  | table
  | pte
  | header
  | link
  deriving DecidableEq

structure Store where
  writer : Writer
  addr : Nat
  len : Nat

structure Machine where
  mem : Mem
  pmm : Pmm
  log : List Store

namespace Machine

def put (s : Machine) (w : Writer) (a v : Nat) : Machine :=
  { s with mem := store s.mem a 8 v, log := s.log ++ [⟨w, a, 8⟩] }

def wipe (s : Machine) (w : Writer) (a n : Nat) : Machine :=
  { s with mem := fill s.mem a n 0#8, log := s.log ++ [⟨w, a, n⟩] }

end Machine

namespace Paging

def present (entry : Nat) : Bool := entry % 2 == 1

def huge (entry : Nat) : Bool := entry / 128 % 2 == 1

def pml4Index (va : Nat) : Nat := va / 549755813888 % 512

def pdptIndex (va : Nat) : Nat := va / 1073741824 % 512

def pdIndex (va : Nat) : Nat := va / 2097152 % 512

def ptIndex (va : Nat) : Nat := va / 4096 % 512

def frameOf (entry : Nat) : Nat := entry &&& 0xFFFFFFFFF000

/-- **The processor's walk** from the table at `cr3`; `none` is a page fault. -/
def translate (m : Mem) (cr3 va : Nat) : Option Nat :=
  let pml4e := load m (cr3 + 8 * pml4Index va) 8
  if !present pml4e then none
  else
    let pdpte := load m (frameOf pml4e + 8 * pdptIndex va) 8
    if !present pdpte then none
    else if huge pdpte then some (frameOf pdpte / 1073741824 * 1073741824 + va % 1073741824)
    else
      let pde := load m (frameOf pdpte + 8 * pdIndex va) 8
      if !present pde then none
      else if huge pde then some (frameOf pde / 2097152 * 2097152 + va % 2097152)
      else
        let pte := load m (frameOf pde + 8 * ptIndex va) 8
        if !present pte then none else some (frameOf pte + va % 4096)

/-- The result `0` is `NULL`. -/
def getNextLevel (s : Machine) (table index flags : Nat) (allocate : Bool) : Res (Machine × Nat) :=
  let entry := load s.mem (table + 8 * index) 8
  if !present entry then
    if !allocate then .ok (s, 0)
    else
      let (pmm, newTable) := s.pmm.pmmAllocPage
      if newTable = 0 then .panic "PAGING: Failed to allocate page table"
      else
        let s := { s with pmm := pmm }
        let s := s.wipe .table newTable pageSize
        let s := s.put .table (table + 8 * index) (newTable ||| flags ||| 1 ||| 2)
        .ok (s, newTable)
  else .ok (s, frameOf entry)

/-- The returned number is `-1` on a missing table, else `0`. -/
def pagingMapPage (s : Machine) (pml4 virtAddr physAddr flags : Nat) : Res (Machine × Int) :=
  if pml4 = 0 then .ok (s, -1)
  else do
    let flags := flags ||| 1 ||| 2
    let (s, pdpt) ← getNextLevel s pml4 (pml4Index virtAddr) flags true
    if pdpt = 0 then return (s, -1)
    let (s, pdir) ← getNextLevel s pdpt (pdptIndex virtAddr) flags true
    if pdir = 0 then return (s, -1)
    let (s, ptbl) ← getNextLevel s pdir (pdIndex virtAddr) flags true
    if ptbl = 0 then return (s, -1)
    return (s.put .pte (ptbl + 8 * ptIndex virtAddr) (frameOf physAddr ||| flags), 0)

/-! ## The tables of `boot32.asm` -/

def bootLength : Nat := 0x403000

/-- The `k`-th quadword of the tables assembled at `t`. -/
def bootEntry (t k : Nat) : Nat :=
  if k < 512 then
    if k = 0 then t + 0x1000 + 0x007 else if k = 1 then t + 0x2000 + 0x007 else 0
  else if k < 1024 then t + 0x3000 + (k - 512) * 4096 + 0x007
  else if k < 1536 then t + 0x203000 + (k - 1024) * 4096 + 0x007
  else if k < 1536 + 262144 then (k - 1536) * 0x200000 + 0x083
  else 0x2000000000 + (k - 1536 - 262144) * 0x200000 + 0x083

/-- The memory as the loader leaves it: the tables at `t`, nothing else. -/
def bootMem (t : Nat) : Mem := fun x =>
  if t ≤ x ∧ x < t + bootLength then BitVec.ofNat 8 (bootEntry t ((x - t) / 8) / 256 ^ ((x - t) % 8)) else 0#8

end Paging

namespace Heap

end Heap
end OS64
