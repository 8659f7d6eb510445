import OS64.Bytes
import OS64.Pmm
/-!
# Heap — the kernel heap (`kernel/mm/heap.c`)

Blocks lie one after the other in memory, each a 40-byte header and its payload, linked both ways in address order.  The
lists are walked by `while (cur)` loops; here each has as many turns as the heap has bytes, and running out of them is
`hang`.  What the page allocator and the page tables do for `heap_expand` is the argument `back`: `none` when no pages
were found, else the memory once they are mapped.
-/
namespace OS64

@[ext] structure BlockHeader where
  magic : Nat
  size : Nat
  free : Nat
  prev : Nat
  next : Nat

def headerSize : Nat := 40

def blockMagic : Nat := 0xB16B00B5

def minSplitSize : Nat := headerSize + 8

def heapMaxSize : Nat := 512 * 1024 * 1024

def header (m : Mem) (h : Nat) : BlockHeader where
  magic := load m h 4
  size := load m (h + 8) 8
  free := load m (h + 16) 4
  prev := load m (h + 24) 8
  next := load m (h + 32) 8

def setMagic (m : Mem) (h v : Nat) : Mem := store m h 4 v

def setSize (m : Mem) (h v : Nat) : Mem := store m (h + 8) 8 v

def setFree (m : Mem) (h v : Nat) : Mem := store m (h + 16) 4 v

def setPrev (m : Mem) (h v : Nat) : Mem := store m (h + 24) 8 v

def setNext (m : Mem) (h v : Nat) : Mem := store m (h + 32) 8 v

def alignUp (n : Nat) : Nat := clearLow 3 (u64 (n + 7))

def headerToPayload (h : Nat) : Nat := u64 (h + headerSize)

def payloadToHeader (p : Nat) : Nat := sub64 p headerSize

structure Heap where
  mem : Mem
  head : Nat
  tail : Nat
  startVirt : Nat
  endVirt : Nat
  currentSize : Nat

namespace Heap

def pagesNeeded (bytes : Nat) : Nat := u64 (alignUp (u64 (bytes + headerSize)) + pageSize - 1) / pageSize

def heapExpand (s : Heap) (bytes : Nat) (back : Option Mem) : Heap × Bool :=
  let expandSize := u64 (pagesNeeded bytes * pageSize)
  if u64 (s.currentSize + expandSize) > heapMaxSize then (s, false)
  else
    match back with
    | none => (s, false)
    | some m =>
      let h := s.endVirt
      let m := setMagic m h blockMagic
      let m := setFree m h 1
      let m := setSize m h (sub64 expandSize headerSize)
      let m := setPrev m h s.tail
      let m := setNext m h 0
      let s := if s.tail ≠ 0 then { s with mem := setNext m s.tail h } else { s with mem := m, head := h }
      ({ s with
        tail := h
        endVirt := u64 (s.endVirt + expandSize)
        currentSize := u64 (s.currentSize + expandSize) }, true)

/-- `malloc_init`; `none` is its `-1`. -/
def mallocInit (m : Mem) (heapStart heapSize : Nat) : Option Heap :=
  if heapStart = 0 ∨ heapSize < headerSize then none
  else
    let h := heapStart
    let m := setMagic m h blockMagic
    let m := setSize m h (sub64 heapSize headerSize)
    let m := setFree m h 1
    let m := setNext m h 0
    let m := setPrev m h 0
    some ⟨m, h, h, heapStart, u64 (heapStart + heapSize), heapSize⟩

def findFitFrom (m : Mem) (size : Nat) : Nat → Nat → Res Nat
  | 0, _ => .hang
  | turns + 1, cur =>
    if cur = 0 then .ok 0
    else if (header m cur).free ≠ 0 ∧ (header m cur).size ≥ size then .ok cur
    else findFitFrom m size turns (header m cur).next

/-- The result `0` is `NULL`. -/
def findFit (s : Heap) (size : Nat) : Res Nat := findFitFrom s.mem size (s.currentSize + 1) s.head

def splitBlock (s : Heap) (h reqSize : Nat) : Heap :=
  if h = 0 then s
  else if (header s.mem h).size < u64 (reqSize + minSplitSize) then s
  else
    let newh := u64 (headerToPayload h + reqSize)
    let m := setMagic s.mem newh blockMagic
    let m := setFree m newh 1
    let m := setSize m newh (sub64 (sub64 (header m h).size reqSize) headerSize)
    let m := setPrev m newh h
    let m := setNext m newh (header m h).next
    let m := if (header m newh).next ≠ 0 then setPrev m (header m newh).next newh else m
    let m := setNext m h newh
    let m := setSize m h reqSize
    { s with mem := m, tail := if s.tail = h then newh else s.tail }

/-- The body of either half of `coalesce`: block `p` takes in its successor `n`. -/
def absorb (s : Heap) (p n : Nat) : Heap :=
  let m := setSize s.mem p (u64 ((header s.mem p).size + headerSize + (header s.mem n).size))
  let m := setNext m p (header m n).next
  let m := if (header m n).next ≠ 0 then setPrev m (header m n).next p else m
  { s with mem := m, tail := if s.tail = n then p else s.tail }

def coalesce (s : Heap) (h : Nat) : Heap :=
  if h = 0 then s
  else
    let next := (header s.mem h).next
    let s := if next ≠ 0 ∧ (header s.mem next).free ≠ 0 then s.absorb h next else s
    let prev := (header s.mem h).prev
    if prev ≠ 0 ∧ (header s.mem prev).free ≠ 0 then s.absorb prev h else s

/-- The loop of `malloc`, with the attempts left. -/
def findOrExpand (env : Heap → Nat → Option Mem) (size : Nat) : Nat → Heap → Res (Heap × Nat)
  | 0, s => do
    let fit ← findFit s size
    if fit ≠ 0 then return (s, fit) else .panic "KERNEL HEAP EXHAUSTED"
  | left + 1, s => do
    let fit ← findFit s size
    if fit ≠ 0 then return (s, fit)
    else
      match heapExpand s size (env s (pagesNeeded size)) with
      | (_, false) => .panic "KERNEL HEAP EXPANSION FAILED"
      | (s, true) => findOrExpand env size left s

def malloc (env : Heap → Nat → Option Mem) (s : Heap) (size : Nat) : Res (Heap × Nat) :=
  if size = 0 then .ok (s, 0)
  else do
    let size := alignUp size
    let (s, fit) ← findOrExpand env size 10 s
    let s := splitBlock s fit size
    return ({ s with mem := setFree s.mem fit 0 }, headerToPayload fit)

def free (s : Heap) (ptr : Nat) : Res Heap :=
  if ptr = 0 then .ok s
  else
    let h := payloadToHeader ptr
    if (header s.mem h).magic ≠ blockMagic then .panic "HEAP CORRUPTION INVALID MAGIC"
    else if (header s.mem h).free ≠ 0 then .panic "DOUBLE FREE"
    else .ok (coalesce { s with mem := setFree s.mem h 1 } h)

def realloc (env : Heap → Nat → Option Mem) (s : Heap) (ptr newSize : Nat) : Res (Heap × Nat) :=
  if ptr = 0 then malloc env s newSize
  else if newSize = 0 then do
    let s ← free s ptr
    return (s, 0)
  else
    let h := payloadToHeader ptr
    if (header s.mem h).magic ≠ blockMagic then .ok (s, 0)
    else
      let newSize := alignUp newSize
      if newSize ≤ (header s.mem h).size then .ok (splitBlock s h newSize, ptr)
      else do
        let (s, newp) ← malloc env s newSize
        if newp = 0 then return (s, 0)
        else
          let s := { s with mem := copy s.mem newp ptr (header s.mem h).size }
          let s ← free s ptr
          return (s, newp)

def calloc (env : Heap → Nat → Option Mem) (s : Heap) (nmemb size : Nat) : Res (Heap × Nat) :=
  if nmemb ≠ 0 ∧ size > 18446744073709551615 / nmemb then .ok (s, 0)
  else
    let totalSize := u64 (nmemb * size)
    if totalSize = 0 then .ok (s, 0)
    else do
      let (s, ptr) ← malloc env s totalSize
      if ptr = 0 then return (s, 0)
      else return ({ s with mem := fill s.mem ptr totalSize 0#8 }, ptr)

def alignAddr (alignment addr : Nat) : Nat := u64 (addr + alignment - 1) &&& (18446744073709551615 - (alignment - 1))

def mallocAligned (env : Heap → Nat → Option Mem) (s : Heap) (size alignment : Nat) : Res (Heap × Nat) :=
  let alignment := if alignment < 8 then 8 else alignment
  if alignment &&& (alignment - 1) ≠ 0 then .ok (s, 0)
  else do
    let totalSize := u64 (size + alignment - 1 + 8)
    let (s, originalPtr) ← malloc env s totalSize
    if originalPtr = 0 then return (s, 0)
    else
      let alignedAddr := alignAddr alignment (u64 (originalPtr + 8))
      return ({ s with mem := store s.mem (sub64 alignedAddr 8) 8 originalPtr }, alignedAddr)

def freeAligned (s : Heap) (ptr : Nat) : Res Heap :=
  if ptr = 0 then .ok s
  else free s (load s.mem (sub64 ptr 8) 8)

structure KmallocStats where
  totalManaged : Nat
  usedPayload : Nat
  freePayload : Nat
  largestFree : Nat
  numBlocks : Nat
  numUsed : Nat
  numFree : Nat

def countBlock (st : KmallocStats) (b : BlockHeader) : KmallocStats :=
  let st := { st with
    numBlocks := u64 (st.numBlocks + 1)
    totalManaged := u64 (st.totalManaged + (headerSize + b.size)) }
  if b.free ≠ 0 then
    { st with
      numFree := u64 (st.numFree + 1)
      freePayload := u64 (st.freePayload + b.size)
      largestFree := if b.size > st.largestFree then b.size else st.largestFree }
  else
    { st with
      numUsed := u64 (st.numUsed + 1)
      usedPayload := u64 (st.usedPayload + b.size) }

def statsFrom (m : Mem) : Nat → Nat → KmallocStats → Res KmallocStats
  | 0, _, _ => .hang
  | turns + 1, cur, st =>
    if cur = 0 then .ok st
    else statsFrom m turns (header m cur).next (countBlock st (header m cur))

def getKmallocStats (s : Heap) : Res KmallocStats :=
  statsFrom s.mem (s.currentSize + 1) s.head ⟨0, 0, 0, 0, 0, 0, 0⟩

end Heap
end OS64
