import OS64.Heap
/-!
# HeapHeader — reading headers back, and what each edit of the block list does to memory

Every write of the heap is to a field of some header.  A header is read back with the field changed, headers elsewhere
are read as they were, and so each edit (`heapExpand_mem`, `splitBlock_mem`, `absorb_mem`) is summed up by the headers
it leaves and the bytes it does not touch (`SameOff`).
-/
namespace OS64

variable {m m' : Mem} {h a : Nat} {as : List Nat} {s : Heap}

/-- The headers at `a` and `b` do not overlap. -/
def Away (a b : Nat) : Prop := a + headerSize ≤ b ∨ b + headerSize ≤ a

theorem Away.symm {b : Nat} (h : Away a b) : Away b a := Or.symm h

def SameOff (as : List Nat) (m m' : Mem) : Prop := ∀ x, (∀ a ∈ as, x < a ∨ a + headerSize ≤ x) → m' x = m x

theorem header_congr (heq : ∀ x, h ≤ x → x < h + headerSize → m' x = m x) :
    header m' h = header m h := by
  have hload : ∀ off k, off + k ≤ headerSize → load m' (h + off) k = load m (h + off) k := fun off k hk =>
    load_congr (fun i hi => heq _ (by omega) (by omega))
  unfold header
  rw [show load m' h 4 = load m h 4 from hload 0 4 (by decide), hload 8 8 (by decide), hload 16 4 (by decide),
    hload 24 8 (by decide), hload 32 8 (by decide)]

theorem SameOff.header (h : SameOff as m m') {b : Nat} (hb : ∀ a ∈ as, Away a b) :
    header m' b = header m b :=
  header_congr (fun x hx hx' => h x (fun a ha => by have := hb a ha; unfold Away at this; omega))

theorem sameOff_field {o k v : Nat} (hk : o + k ≤ headerSize) : SameOff [a] m (store m (a + o) k v) := by
  intro x hx
  have := hx a (.head _)
  exact store_apart m (by omega)

theorem SameOff.trans {bs : List Nat} {m'' : Mem} (h : SameOff as m m') (h' : SameOff bs m' m'') :
    SameOff (as ++ bs) m m'' := fun x hx => by
  rw [h' x (fun b hb => hx b (List.mem_append_right _ hb)), h x (fun a ha => hx a (List.mem_append_left _ ha))]

theorem SameOff.weaken {bs : List Nat} (h : SameOff as m m') (hsub : ∀ a ∈ as, a ∈ bs) : SameOff bs m m' :=
  fun x hx => h x (fun a ha => hx a (hsub a ha))

section Fields

variable (m : Mem) {a b : Nat} (v : Nat)

theorem sameOff_setMagic : SameOff [a] m (setMagic m a v) := sameOff_field (o := 0) (by decide)

theorem sameOff_setSize : SameOff [a] m (setSize m a v) := sameOff_field (by decide)

theorem sameOff_setFree : SameOff [a] m (setFree m a v) := sameOff_field (by decide)

theorem sameOff_setPrev : SameOff [a] m (setPrev m a v) := sameOff_field (by decide)

theorem sameOff_setNext : SameOff [a] m (setNext m a v) := sameOff_field (by decide)

@[simp] theorem header_setMagic : header (setMagic m a v) a = { header m a with magic := u32 v } := by
  unfold header setMagic
  simp (disch := omega) only [load_store, load_store_apart]
  rfl

@[simp] theorem header_setSize : header (setSize m a v) a = { header m a with size := u64 v } := by
  unfold header setSize
  simp (disch := omega) only [load_store, load_store_apart]
  rfl

@[simp] theorem header_setFree : header (setFree m a v) a = { header m a with free := u32 v } := by
  unfold header setFree
  simp (disch := omega) only [load_store, load_store_apart]
  rfl

@[simp] theorem header_setPrev : header (setPrev m a v) a = { header m a with prev := u64 v } := by
  unfold header setPrev
  simp (disch := omega) only [load_store, load_store_apart]
  rfl

@[simp] theorem header_setNext : header (setNext m a v) a = { header m a with next := u64 v } := by
  unfold header setNext
  simp (disch := omega) only [load_store, load_store_apart]
  rfl

variable {m v}

theorem header_away (h : SameOff [a] m m') (hab : Away a b) : header m' b = header m b :=
  h.header (fun c hc => by rwa [List.mem_singleton.1 hc])

end Fields

namespace Heap

def newBlock (m : Mem) (h size prev next : Nat) : Mem :=
  setNext (setPrev (setSize (setFree (setMagic m h blockMagic) h 1) h size) h prev) h next

theorem header_new {size prev next : Nat} (hsize : size < 2 ^ 64)
    (hprev : prev < 2 ^ 64) (hnext : next < 2 ^ 64) :
    header (newBlock m h size prev next) h = ⟨blockMagic, size, 1, prev, next⟩ := by
  unfold newBlock
  simp only [header_setNext, header_setPrev, header_setSize, header_setFree, header_setMagic]
  rw [u64_of_lt hsize, u64_of_lt hprev, u64_of_lt hnext]
  rfl

theorem SameOff.then {m'' : Mem} (h : SameOff [a] m m') (h' : SameOff [a] m' m'') : SameOff [a] m m'' :=
  (h.trans h').weaken (fun b hb => by simpa using hb)

theorem sameOff_new {size prev next : Nat} : SameOff [h] m (newBlock m h size prev next) :=
  SameOff.then (SameOff.then (SameOff.then (SameOff.then (sameOff_setMagic m blockMagic) (sameOff_setFree _ 1))
    (sameOff_setSize _ size)) (sameOff_setPrev _ prev)) (sameOff_setNext _ next)

theorem relink_mem (m : Mem) (next : Nat) {v : Nat} (hv : v < 2 ^ 64) :
    let m' := if next ≠ 0 then setPrev m next v else m
    (next ≠ 0 → header m' next = { header m next with prev := v }) ∧
    SameOff (if next = 0 then [] else [next]) m m' ∧ ∀ b, (next ≠ 0 → Away next b) → header m' b = header m b := by
  intro m'
  by_cases h0 : next = 0
  · have hm' : m' = m := if_neg (not_not.2 h0)
    rw [hm']
    exact ⟨fun h => absurd h0 h, fun _ _ => rfl, fun _ _ => rfl⟩
  · have hm' : m' = setPrev m next v := if_pos h0
    rw [hm', if_neg h0]
    exact ⟨fun _ => by rw [header_setPrev, u64_of_lt hv], sameOff_setPrev m v,
      fun b hb => header_away (sameOff_setPrev m v) (hb h0)⟩

/-- **What `split_block` writes**: the block cut to `req`, the new free block behind it, and the back link of the block
after that. -/
theorem splitBlock_mem {req : Nat} (next : Nat) (hh : h ≠ 0) (hnext : next = (header s.mem h).next)
    (hfit : req + minSplitSize ≤ (header s.mem h).size)
    (hend : h + headerSize + (header s.mem h).size < 2 ^ 64) (hnlt : next < 2 ^ 64)
    (haway : next ≠ 0 → h + headerSize + (header s.mem h).size ≤ next) : let s' := splitBlock s h req
    let newh := h + headerSize + req
    header s'.mem h = { header s.mem h with size := req, next := newh } ∧
    header s'.mem newh = ⟨blockMagic, (header s.mem h).size - req - headerSize, 1, h, next⟩ ∧
    (next ≠ 0 → header s'.mem next = { header s.mem next with prev := newh }) ∧
    SameOff (newh :: (if next = 0 then [] else [next]) ++ [h]) s.mem s'.mem ∧
    s' = { s with mem := s'.mem, tail := if s.tail = h then newh else s.tail } := by
  intro s' newh
  have hsizes : minSplitSize = 48 ∧ headerSize = 40 := ⟨rfl, rfl⟩
  have hnewh : u64 (headerToPayload h + req) = newh := by
    have hp : headerToPayload h = h + headerSize := u64_of_lt (by omega)
    rw [hp, u64_of_lt (by omega)]
  have hnh : Away newh h := .inr (by omega)
  -- the new block's header, written before anything else changes
  have hsize : sub64 (sub64 (header (setFree (setMagic s.mem newh blockMagic) newh 1) h).size req) headerSize =
      (header s.mem h).size - req - headerSize := by
    have hreq : sub64 (header s.mem h).size req = (header s.mem h).size - req := sub64_of_le (by omega) (by omega)
    rw [header_away (SameOff.then (sameOff_setMagic s.mem blockMagic) (sameOff_setFree _ 1)) hnh, hreq,
      sub64_of_le (by omega) (by omega)]
  generalize hm5 : newBlock s.mem newh ((header s.mem h).size - req - headerSize) h next = m5
  have hoff5 : SameOff [newh] s.mem m5 := hm5 ▸ sameOff_new
  have hnew5 : header m5 newh = ⟨blockMagic, (header s.mem h).size - req - headerSize, 1, h, next⟩ :=
    hm5 ▸ header_new (by omega) (by omega) hnlt
  have hnext5 : (header (setPrev (setSize (setFree (setMagic s.mem newh blockMagic) newh 1) newh
      ((header s.mem h).size - req - headerSize)) newh h) h).next = next := by
    rw [header_away (SameOff.then (SameOff.then (SameOff.then (sameOff_setMagic s.mem blockMagic) (sameOff_setFree _ 1))
      (sameOff_setSize _ _)) (sameOff_setPrev _ _)) hnh, hnext]
  generalize hm6 : (if next ≠ 0 then setPrev m5 next newh else m5) = m6
  have hs' : s' = { s with
      mem := setSize (setNext m6 h newh) h req, tail := if s.tail = h then newh else s.tail } := by
    show splitBlock s h req = _
    unfold splitBlock
    rw [if_neg hh, if_neg (by rw [u64_of_lt (by omega)]; omega)]
    rw [newBlock] at hm5
    simp only [hnewh, hsize, hnext5, hm5, hnew5, hm6]
  obtain ⟨hrel, hoff6, hkeep6⟩ := relink_mem m5 next (v := newh) (by omega)
  rw [hm6] at hrel hoff6 hkeep6
  have hoff8 : SameOff [h] m6 (setSize (setNext m6 h newh) h req) :=
    SameOff.then (sameOff_setNext m6 newh) (sameOff_setSize _ req)
  -- the three headers, read from the last memory
  have hnn : next ≠ 0 → Away next newh ∧ Away next h := fun h0 => by exact ⟨.inr (by omega), .inr (by omega)⟩
  rw [hs']
  refine ⟨?_, ?_, fun h0 => ?_, (hoff5.trans hoff6).trans hoff8, rfl⟩
  · rw [header_setSize, header_setNext, u64_of_lt (by omega), u64_of_lt (by omega), hkeep6 h (fun h0 => (hnn h0).2),
      header_away hoff5 hnh]
  · rw [header_away hoff8 hnh.symm, hkeep6 newh (fun h0 => (hnn h0).1), hnew5]
  · rw [header_away hoff8 (hnn h0).2.symm, hrel h0, header_away hoff5 (hnn h0).1.symm]

/-- **What either half of `coalesce` writes**: the block grown over its successor, and the back link of the block after
that. -/
theorem absorb_mem {p n : Nat} (next : Nat) (hnext : next = (header s.mem n).next)
    (hpn : p + headerSize + (header s.mem p).size = n)
    (hend : n + headerSize + (header s.mem n).size < 2 ^ 64) (hnlt : next < 2 ^ 64)
    (haway : next ≠ 0 → n + headerSize + (header s.mem n).size ≤ next) : let s' := absorb s p n
    header s'.mem p =
      { header s.mem p with size := (header s.mem p).size + headerSize + (header s.mem n).size, next := next } ∧
    (next ≠ 0 → header s'.mem next = { header s.mem next with prev := p }) ∧
    SameOff (p :: if next = 0 then [] else [next]) s.mem s'.mem ∧
    s' = { s with mem := s'.mem, tail := if s.tail = n then p else s.tail } := by
  intro s'
  have hpn' : Away p n := .inl (by omega)
  have hsize : u64 ((header s.mem p).size + headerSize + (header s.mem n).size) =
      (header s.mem p).size + headerSize + (header s.mem n).size := u64_of_lt (by omega)
  generalize hm2 : setNext (setSize s.mem p ((header s.mem p).size + headerSize + (header s.mem n).size)) p next = m2
  have hoff1 := sameOff_setSize (a := p) s.mem ((header s.mem p).size + headerSize + (header s.mem n).size)
  have hoff2 : SameOff [p] s.mem m2 := hm2 ▸ SameOff.then hoff1 (sameOff_setNext _ next)
  have hnext1 : (header (setSize s.mem p ((header s.mem p).size + headerSize + (header s.mem n).size)) n).next =
      next := by
    rw [header_away hoff1 hpn', hnext]
  have hnext2 : (header m2 n).next = next := by rw [header_away hoff2 hpn', hnext]
  generalize hm3 : (if next ≠ 0 then setPrev m2 next p else m2) = m3
  have hs' : s' = { s with mem := m3, tail := if s.tail = n then p else s.tail } := by
    show absorb s p n = _
    unfold absorb
    simp only [hsize, hnext1, hm2, hnext2, hm3]
  obtain ⟨hrel, hoff3, hkeep3⟩ := relink_mem m2 next (v := p) (by omega)
  rw [hm3] at hrel hoff3 hkeep3
  have hpnext : next ≠ 0 → Away p next := fun h0 => .inl (by omega)
  rw [hs']
  refine ⟨?_, fun h0 => ?_, hoff2.trans hoff3, rfl⟩
  · rw [hkeep3 p (fun h0 => (hpnext h0).symm), ← hm2, header_setNext, header_setSize, u64_of_lt hnlt,
      u64_of_lt (by omega)]
  · rw [hrel h0, header_away hoff2 (hpnext h0)]

/-- **What a successful `heap_expand` writes**: the new last block, and the old one's link to it. -/
theorem heapExpand_mem {bytes e : Nat} (he : u64 (pagesNeeded bytes * pageSize) = e)
    (hmax : ¬ u64 (s.currentSize + e) > heapMaxSize) (ht : s.tail ≠ 0) (hth : s.tail + headerSize ≤ s.endVirt)
    (hend : s.endVirt + e < 2 ^ 64) (hmin : headerSize ≤ e) : let s' := (heapExpand s bytes (some m)).1
    (heapExpand s bytes (some m)).2 = true ∧
    header s'.mem s.endVirt = ⟨blockMagic, e - headerSize, 1, s.tail, 0⟩ ∧
    header s'.mem s.tail = { header m s.tail with next := s.endVirt } ∧
    SameOff [s.endVirt, s.tail] m s'.mem ∧
    s' = { s with
      mem := s'.mem, tail := s.endVirt, endVirt := s.endVirt + e, currentSize := u64 (s.currentSize + e) } := by
  intro s'
  have haway : Away s.tail s.endVirt := .inl hth
  generalize hm5 : newBlock m s.endVirt (e - headerSize) s.tail 0 = m5
  have hoff5 : SameOff [s.endVirt] m m5 := hm5 ▸ sameOff_new
  have hnew5 : header m5 s.endVirt = ⟨blockMagic, e - headerSize, 1, s.tail, 0⟩ :=
    hm5 ▸ header_new (by omega) (by omega) (by omega)
  have hexp : heapExpand s bytes (some m) = ({ s with
      mem := setNext m5 s.tail s.endVirt, tail := s.endVirt, endVirt := s.endVirt + e,
      currentSize := u64 (s.currentSize + e) }, true) := by
    unfold heapExpand
    rw [newBlock] at hm5
    simp only [he, if_neg hmax, sub64_of_le (show e < 2 ^ 64 by omega) hmin, hm5, ht, ne_eq,
      not_false_eq_true, if_true, u64_of_lt hend]
  have hoff6 := sameOff_setNext (a := s.tail) m5 s.endVirt
  show _ ∧ header (heapExpand s bytes (some m)).1.mem _ = _ ∧ header (heapExpand s bytes (some m)).1.mem _ = _ ∧
    SameOff _ _ (heapExpand s bytes (some m)).1.mem ∧ (heapExpand s bytes (some m)).1 = _
  rw [hexp]
  refine ⟨rfl, ?_, ?_, hoff5.trans hoff6, ?_⟩
  · rw [header_away hoff6 haway, hnew5]
  · rw [header_setNext, header_away hoff5 haway.symm, u64_of_lt (by omega)]
  · show _ = { s with
      mem := (heapExpand s bytes (some m)).1.mem, tail := s.endVirt, endVirt := s.endVirt + e,
      currentSize := u64 (s.currentSize + e) }
    rw [hexp]

end Heap
end OS64
