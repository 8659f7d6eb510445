import OS64.HeapSizes
/-!
# HeapMerge — free neighbours

`free` merges a block with the free blocks next to it, so that `malloc` and then `free` leave the list of blocks as it
was (`malloc_free`).  What `realloc` cuts off it does not merge: shrinking a block in front of a free one leaves two
free neighbours, and no other call does (`merged_iff`).
-/
namespace OS64

open List Nat Res
namespace Heap

variable {s s' t : Heap} {bs : List Block} {env : Heap → Nat → Option Mem} {n p a size : Nat}

theorem coalesce_area (s : Heap) (h : Nat) : SameArea s (coalesce s h) := by
  have habsorb : ∀ (t : Heap) (p n : Nat), SameArea t (t.absorb p n) := fun t p n => .of t _ _
  have hnext : SameArea s (if (header s.mem h).next ≠ 0 ∧ (header s.mem (header s.mem h).next).free ≠ 0 then
      s.absorb h (header s.mem h).next else s) := .ite (habsorb s _ _) (.refl s)
  exact .ite (.refl s) (hnext.trans (.ite (habsorb _ _ _) (.refl _)))

theorem free_area (h : free s p = .ok s') : SameArea s s' := by
  unfold free at h
  split at h
  · cases h
    exact ⟨rfl, rfl, rfl⟩
  simp only at h
  split at h
  · cases h
  · split at h
    · cases h
    · rw [← Res.ok.inj h]
      exact (SameArea.of s _ s.tail).trans (coalesce_area _ _)

/-! ## malloc, then free -/

theorem Merged.eq {pre post pre' post' : List Block} {b c : Block} (h : Merged pre b post pre' c post')
    (hpre : ∀ p ∈ pre.getLast?, p.tag = false) : pre' = pre ∧ c.addr = b.addr := by
  rcases h.before with ⟨rfl, hc, -⟩ | ⟨p, rfl, hp⟩
  · exact ⟨rfl, hc⟩
  · rw [hpre p (List.getLast?_concat ..)] at hp
    cases hp

theorem Merged.after_eq {pre post pre' post' rest : List Block} {b c : Block} {req sz : Nat} {tag : Bool}
    {d : Block} (h : Merged pre d (rest ++ post) pre' c post') (hcut : cut b req = ⟨b.addr, sz, tag⟩ :: rest)
    (hpost : ∀ n ∈ post.head?, n.tag = false) : post' = post := by
  rcases cut_rest hcut with ⟨rfl, -⟩ | ⟨r, rfl, hr, -⟩
  · rcases h.after with ⟨rfl, -⟩ | ⟨n, hn, hfree⟩
    · rfl
    · rw [nil_append] at hn
      rw [hpost n (by rw [hn]; rfl)] at hfree
      cases hfree
  · rcases h.after with ⟨-, hhead⟩ | ⟨n, hn, -⟩
    · rw [hhead r rfl] at hr
      cases hr
    · exact (List.cons.inj hn).2.symm

/-- **`malloc` and then `free` leave the list of blocks as it was**, when a free block is large enough and no two
neighbours are free. -/
theorem malloc_free (env : Heap → Nat → Option Mem) (s : Heap) (bs : List Block) (h : Shape s bs) (hbs : NoFreePair bs)
    (n : Nat) (hfit : ∃ b ∈ bs, b.tag = true ∧ alignUp n ≤ b.size) :
    ∃ s₁ p s₂, malloc env s n = .ok (s₁, p) ∧ (n ≠ 0 → p ≠ 0) ∧ free s₁ p = .ok s₂ ∧ Shape s₂ bs ∧
      s₂.head = s.head ∧ s₂.tail = s.tail ∧ ∀ b ∈ bs, header s₂.mem b.addr = header s.mem b.addr := by
  by_cases h0 : n = 0
  · exact ⟨s, 0, s, if_pos h0, fun h => absurd h0 h, rfl, h, rfl, rfl, fun _ _ => rfl⟩
  rcases findFit_spec h (alignUp n) with ⟨-, hnone⟩ | ⟨pre, b, post, rfl, hfound, htag, hsz, -⟩
  · obtain ⟨b, hb, ht, hle⟩ := hfit
    exact absurd (hnone b hb ht) (not_lt.2 hle)
  have hbound := h.size_le (b := b) (by simp)
  have hok := @findOrExpand_fit _ _ env _ hfound h.addr_ne 10
  obtain ⟨s₁, sz, rest, hm, hs, -, hserved⟩ := malloc_found h0 (by omega) hok h htag hsz (.inl rfl)
  obtain ⟨s₂, pre', c, post', hfree, hmerged, h₂, -⟩ := free_cases hs.shape rfl
  have harea := hserved.trans (free_area hfree)
  obtain ⟨-, -, hb⟩ := noFreePair_at.1 hbs
  obtain ⟨rfl, hc⟩ := hmerged.eq (hb htag).1
  obtain rfl := hmerged.after_eq hs.cut (hb htag).2
  -- the block is as large as before, since the others and the area are the same
  have hcb : c = b := by
    have hsum := h.tiles.sum
    have hsum₂ := h₂.tiles.sum
    rw [harea.startVirt, harea.endVirt] at hsum₂
    simp only [map_append, map_cons, sum_append_nat, sum_cons] at hsum hsum₂
    have hsize : c.size = b.size := by omega
    calc c = ⟨c.addr, c.size, c.tag⟩ := rfl
      _ = ⟨b.addr, b.size, b.tag⟩ := by rw [hc, hsize, hmerged.tag, htag]
  rw [hcb] at h₂
  refine ⟨s₁, _, s₂, hm, fun _ => payload_ne_zero _, hfree, h₂, by rw [h₂.head_first, h.head_first],
    by rw [h₂.tail, h.tail], fun d hd => ?_⟩
  obtain ⟨xs, ys, hxy⟩ := append_of_mem hd
  rw [hxy] at h h₂
  rw [h.header_at, h₂.header_at]

theorem linkerHeap_malloc_free : ∃ s, mallocInit (fun _ => 0#8) 0x400000 0x800000 = some s ∧
    ∃ s₁ p s₂, malloc (fun _ _ => none) s 200 = .ok (s₁, p) ∧ p ≠ 0 ∧ free s₁ p = .ok s₂ ∧
      Shape s₂ [⟨0x400000, 0x800000 - headerSize, true⟩] := by
  obtain ⟨s, hs, hwf⟩ := linkerHeap_wellFormed
  obtain ⟨s₁, p, s₂, hm, hp, hfree, h₂, -⟩ := malloc_free (fun _ _ => none) s _ hwf.toShape (isChain_singleton _) 200
    ⟨_, .head _, rfl, by decide⟩
  exact ⟨s, hs, s₁, p, s₂, hm, hp (by decide), hfree, h₂⟩

/-! ## Histories -/

inductive Call where
  | malloc (env : Heap → Nat → Option Mem) (n : Nat)
  | free (p : Nat)
  | realloc (env : Heap → Nat → Option Mem) (p n : Nat)
  | calloc (env : Heap → Nat → Option Mem) (k n : Nat)

def Call.run (s : Heap) : Call → Res (Heap × Nat)
  | .malloc env n => s.malloc env n
  | .free p => do
    let s ← s.free p
    return (s, 0)
  | .realloc env p n => s.realloc env p n
  | .calloc env k n => s.calloc env k n

/-- The pointer is NULL or that of a block in use. -/
def Held (s : Heap) (p : Nat) : Prop := p = 0 ∨ Payload s p 0

/-- Sizes are 64-bit words, and pointers are given back that are held.  A `calloc` whose product rounds up to 0 never
returns: its `memset` runs through all memory. -/
def Call.Allowed (s : Heap) : Call → Prop
  | .malloc env n => Fresh env ∧ Paged env ∧ n < 18446744073709551616
  | .free p => Held s p
  | .realloc env p n => Held s p ∧ Fresh env ∧ Paged env ∧ n < 18446744073709551616
  | .calloc env k n => Fresh env ∧ Paged env ∧ (k * n + 7 < 18446744073709551616 ∨ 18446744073709551616 ≤ k * n)

/-- A `realloc` that cuts off the end of a block in front of a free one. -/
def Call.CutsOff (s : Heap) : Call → Prop
  | .realloc _ p n => p ≠ 0 ∧ n ≠ 0 ∧ alignUp n + minSplitSize ≤ (header s.mem (payloadToHeader p)).size ∧
    (header s.mem (payloadToHeader p)).next ≠ 0 ∧ (header s.mem (header s.mem (payloadToHeader p)).next).free ≠ 0
  | _ => False

/-- **The heaps reached from `malloc_init`**, with the calls made so far and the heap each was made on.  Between the
calls, callers write to the payloads they hold. -/
inductive History (start size : Nat) : List (Heap × Call) → Heap → Prop
  | init {m : Mem} {s : Heap} (h : mallocInit m start size = some s) : History start size [] s
  | call {past : List (Heap × Call)} {s s' : Heap} {q : Nat} (c : Call) (hh : History start size past s)
      (ha : c.Allowed s)
      (h : c.run s = .ok (s', q)) : History start size ((s, c) :: past) s'
  | write {past : List (Heap × Call)} {s : Heap} {live : List Nat} (m : Mem) (hh : History start size past s)
      (hl : ∀ p ∈ live, Payload s p 0) (hm : OnlyPayloads s live m) : History start size past { s with mem := m }

theorem Shape.determined {bs' : List Block} (h : Shape s bs) (h' : Shape s bs') : bs = bs' := by
  refine h.tiles.determined (by decide) (fun b c p p' n n' haddr hb hc => ?_) h.linked h'.linked h'.tiles
  unfold Recorded at hb hc
  rw [haddr, hc] at hb
  obtain ⟨-, hsize, htag, -⟩ := BlockHeader.mk.inj hb
  have htag : c.tag = b.tag := by
    revert htag
    cases b.tag <;> cases c.tag <;> simp
  calc b = ⟨b.addr, b.size, b.tag⟩ := rfl
    _ = ⟨c.addr, c.size, c.tag⟩ := by rw [haddr, hsize, htag]

theorem Payload.block (h : Shape s bs) (hp : Payload s p n) : ∃ b, b ∈ bs ∧ b.tag = false ∧
    p = b.addr + headerSize := by
  obtain ⟨bs', b, h', hb, hp, -⟩ := hp
  rw [← h.determined h'] at hb
  exact ⟨b, (mem_inUse.1 hb).1, (mem_inUse.1 hb).2, hp⟩

/-! ## What each call does to the list -/

/-- What a call leaves of a well-formed heap, when it keeps free neighbours apart. -/
def Keeps (bs : List Block) (s' : Heap) : Prop := ∃ bs', WellFormed s' bs' ∧ (NoFreePair bs → NoFreePair bs')

theorem WellFormed.malloc (henv : Fresh env) (hpages : Paged env) (h : WellFormed s bs) (h0 : n ≠ 0)
    (hok : malloc env s n = .ok (s', p)) : ∃ bs' b, WellFormed s' bs' ∧ (NoFreePair bs → NoFreePair bs') ∧ b ∈ bs' ∧
      p = b.addr + headerSize ∧ alignUp n ≤ b.size := by
  by_cases hbig : alignUp n ≤ 2 ^ 62
  · rcases malloc_cases henv h.toShape h0 (by omega) with
      ⟨-, msg, hm⟩ | ⟨-, t, pre, b, sz, rest, post, hm, hs, -, -, hbound⟩
    · rw [hok] at hm
      cases hm
    have hmax : heapMaxSize = 2 ^ 29 := rfl
    have hbacked := h.backed
    rw [hok] at hm
    cases hm
    exact ⟨_, ⟨b.addr, sz, false⟩, ⟨hs.shape, by omega⟩, hs.noFreePair, by simp, rfl, hs.size⟩
  · obtain ⟨msg, hm⟩ := malloc_panics h0 (findOrExpand_huge henv hpages (by omega) 10 h)
    rw [hok] at hm
    cases hm

theorem Keeps.refl (h : WellFormed s bs) : Keeps bs s :=
  ⟨bs, h, id⟩

theorem Keeps.malloc (henv : Fresh env) (hpages : Paged env) (h : WellFormed s bs)
    (hok : malloc env s n = .ok (s', p)) : Keeps bs s' := by
  by_cases h0 : n = 0
  · rw [show s.malloc env n = .ok (s, 0) from if_pos h0] at hok
    cases hok
    exact .refl h
  · obtain ⟨bs', b, h', hpair, -⟩ := h.malloc henv hpages h0 hok
    exact ⟨bs', h', hpair⟩

theorem Keeps.free (h : WellFormed s bs) (hp : Held s p) (hok : free s p = .ok s') : Keeps bs s' := by
  have harea := free_area hok
  rcases hp with rfl | hp
  · cases hok
    exact .refl h
  obtain ⟨b, hb, ht, rfl⟩ := hp.block h.toShape
  obtain ⟨t, bs', hfree, hs', -, -, hpair⟩ := free_spec h.toShape hb ht
  rw [hok] at hfree
  cases hfree
  exact ⟨bs', ⟨hs', by rw [harea.currentSize]; exact h.backed⟩, hpair⟩

theorem Keeps.calloc {k : Nat} (henv : Fresh env) (hpages : Paged env) (h : WellFormed s bs)
    (hn : k * n + 7 < 2 ^ 64 ∨ 2 ^ 64 ≤ k * n) (hok : calloc env s k n = .ok (s', p)) : Keeps bs s' := by
  rw [calloc_eq] at hok
  split at hok
  · rename_i hc
    obtain ⟨⟨t, q⟩, hm, hok⟩ := bind_ok hok
    obtain ⟨bs', b, h', hpair, hb, rfl, hsz⟩ := h.malloc henv hpages hc.2 hm
    have hle := (alignUp_ge (n := k * n) (by omega)).1
    cases hok
    exact ⟨bs', ⟨h'.toShape.scribble (fun c hc x hx hx' => fill_apart t.mem (by
      have := h'.toShape.spares hb hc hx hx'
      omega)), h'.backed⟩, hpair⟩
  · cases hok
    exact .refl h

/-! ## realloc -/

theorem Shape.next_free {pre post : List Block} {b : Block} (h : Shape s (pre ++ b :: post)) :
    (header s.mem b.addr).next ≠ 0 ∧ (header s.mem (header s.mem b.addr).next).free ≠ 0 ↔
      ¬ ∀ c ∈ post.head?, c.tag = false := by
  rw [h.header_at]
  cases post with
  | nil => simp
  | cons c post =>
    have hc := (show Shape s (pre ++ [b] ++ c :: post) by rwa [append_assoc]).header_at
    have hne := h.addr_pos (b := c) (by simp)
    cases htag : c.tag <;> simp [hc, htag, hne]

theorem splitBlock_noFreePair {pre post : List Block} {b : Block} {req : Nat} (ht : b.tag = false)
    (hbs : NoFreePair (pre ++ b :: post)) : NoFreePair (pre ++ (cut b req ++ post)) ↔
      ¬ (req + minSplitSize ≤ b.size ∧ ¬ ∀ c ∈ post.head?, c.tag = false) := by
  unfold cut
  split
  · rename_i hle
    obtain ⟨hpre, hpost, -⟩ := noFreePair_at.1 hbs
    rw [cons_append, noFreePair_at, cons_append, nil_append, ht]
    have hsnd : NoFreePair (⟨b.addr + headerSize + req, b.size - req - headerSize, true⟩ :: post) ↔
        ∀ c ∈ post.head?, c.tag = false := by
      rw [← nil_append (_ :: post), noFreePair_at]
      exact ⟨fun h => (h.2.2 rfl).2, fun h => ⟨isChain_nil, hpost, fun _ => ⟨fun c hc => (by cases hc), h⟩⟩⟩
    rw [hsnd, not_and_not_right]
    exact ⟨fun h _ => h.2.1, fun h => ⟨hpre, h hle, fun hf => (by cases hf)⟩⟩
  · rename_i hlt
    exact iff_of_true hbs (fun hc => hlt hc.1)

/-- **A `realloc` that stays in place** leaves two free neighbours just when it cuts off the end of a block in front of
a free one. -/
theorem shrink_step (h : WellFormed s bs) {b : Block} (hb : b ∈ bs) (ht : b.tag = false) {req : Nat}
    (hreq : req ≤ b.size) : ∃ bs', WellFormed (splitBlock s b.addr req) bs' ∧ (NoFreePair bs → (NoFreePair bs' ↔
      ¬ (req + minSplitSize ≤ b.size ∧ (header s.mem b.addr).next ≠ 0 ∧
        (header s.mem (header s.mem b.addr).next).free ≠ 0))) := by
  have hle := h.toShape.size_le hb
  obtain ⟨pre, post, rfl⟩ := append_of_mem hb
  refine ⟨_, ⟨(splitBlock_shape h.toShape req (by omega)).toShape, ?_⟩, fun hbs => ?_⟩
  · rw [(splitBlock_area s b.addr req).currentSize]
    exact h.backed
  · rw [h.toShape.next_free]
    exact splitBlock_noFreePair ht hbs

/-- **A `realloc` that moves the block** keeps free neighbours apart. -/
theorem Keeps.move (henv : Fresh env) (hpages : Paged env) (h : WellFormed s bs) {b : Block} (hb : b ∈ bs)
    (ht : b.tag = false) (h0 : n ≠ 0) (hn : b.size < alignUp n)
    (hok : realloc env s (b.addr + headerSize) n = .ok (s', p)) : Keeps bs s' := by
  have hok' := hok
  rw [realloc_eq h.toShape hb h0, if_neg (not_le.2 hn)] at hok'
  obtain ⟨⟨t, q⟩, hm, hok'⟩ := bind_ok hok'
  obtain ⟨_, c, ht', -, -, rfl, hsz⟩ := h.malloc henv hpages (ne_of_gt (zero_lt_of_lt hn)) hm
  simp only [if_neg (show ¬ c.addr + headerSize = 0 from succ_ne_zero _)] at hok'
  obtain ⟨u, hfree, hok'⟩ := bind_ok hok'
  cases hok'
  have harea : s'.currentSize = t.currentSize := (free_area hfree).currentSize
  rcases h.realloc_cases henv hpages hb ht h0 with ⟨msg, hp⟩ | ⟨t', bs', b', hr, hmoved⟩
  · rw [hok] at hp
    cases hp
  · rw [hok] at hr
    obtain ⟨rfl, -⟩ := Prod.mk.inj (Res.ok.inj hr)
    exact ⟨bs', ⟨hmoved.shape, by rw [harea]; exact ht'.backed⟩, hmoved.noFreePair hn⟩

/-! ## All histories -/

theorem Keeps.step {c : Call} (h : Keeps bs s') (hc : ¬ c.CutsOff s) :
    ∃ bs', WellFormed s' bs' ∧ (NoFreePair bs → (NoFreePair bs' ↔ ¬ c.CutsOff s)) := by
  obtain ⟨bs', h', hpair⟩ := h
  exact ⟨bs', h', fun hbs => iff_of_true (hpair hbs) hc⟩

/-- **One call**: it keeps the heap well-formed, and free neighbours apart unless it cuts off the end of a block in
front of a free one. -/
theorem call_step {c : Call} {q : Nat} (h : WellFormed s bs) (ha : c.Allowed s) (hok : c.run s = .ok (s', q)) :
    ∃ bs', WellFormed s' bs' ∧ (NoFreePair bs → (NoFreePair bs' ↔ ¬ c.CutsOff s)) := by
  cases c with
  | malloc env n => exact (Keeps.malloc ha.1 ha.2.1 h hok).step id
  | free p =>
    obtain ⟨t, hfree, hok⟩ := bind_ok hok
    cases hok
    exact (Keeps.free h ha hfree).step id
  | calloc env k n => exact (Keeps.calloc ha.1 ha.2.1 h ha.2.2 hok).step id
  | realloc env p n =>
    obtain ⟨hp, henv, hpages, -⟩ := ha
    change s.realloc env p n = _ at hok
    by_cases hp0 : p = 0
    · rw [show s.realloc env p n = s.malloc env n from if_pos hp0] at hok
      exact (Keeps.malloc henv hpages h hok).step (fun hc => hc.1 hp0)
    by_cases h0 : n = 0
    · rw [show s.realloc env p n = _ from (if_neg hp0).trans (if_pos h0)] at hok
      obtain ⟨t, hfree, hok⟩ := bind_ok hok
      cases hok
      exact (Keeps.free h hp hfree).step (fun hc => hc.2.1 h0)
    obtain ⟨b, hb, ht, rfl⟩ := (hp.resolve_left hp0).block h.toShape
    have hhdr := payloadToHeader_eq h.toShape hb
    have hsize := (h.toShape.header_mem hb).2.1
    by_cases hfit : alignUp n ≤ b.size
    · rw [realloc_eq h.toShape hb h0, if_pos hfit] at hok
      cases hok
      obtain ⟨bs', h', hpair⟩ := shrink_step h hb ht hfit
      refine ⟨bs', h', fun hbs => (hpair hbs).trans (not_congr ?_)⟩
      simp only [Call.CutsOff, hhdr, hsize]
      exact ⟨fun hc => ⟨hp0, h0, hc⟩, fun hc => hc.2.2⟩
    · refine (Keeps.move henv hpages h hb ht h0 (not_le.1 hfit) hok).step (fun hc => ?_)
      have hle := hc.2.2.1
      rw [hhdr, hsize] at hle
      omega

theorem Shape.overwrite {live : List Nat} {m : Mem} (h : Shape s bs) (hl : ∀ p ∈ live, Payload s p 0)
    (hm : OnlyPayloads s live m) : Shape { s with mem := m } bs := by
  refine h.write (fun p hp => ?_) hm
  obtain ⟨b, hb, ht, rfl⟩ := (hl p hp).block h
  exact mem_payloads.2 ⟨b, hb, ht, rfl⟩

section Histories

variable {start : Nat} {past : List (Heap × Call)}

theorem History.wellFormed (hend : start + size < 2 ^ 64)
    (hroom : start + heapMaxSize < 2 ^ 64) (hbacked : size ≤ 2 ^ 41)
    (h : History start size past s) : ∃ bs, WellFormed s bs := by
  induction h with
  | init h =>
    have hs := mallocInit_some hend hroom (by omega) h
    refine ⟨_, hs, ?_⟩
    unfold mallocInit at h
    split at h
    · cases h
    · cases h
      exact hbacked
  | call c _ ha hok ih =>
    obtain ⟨bs, h⟩ := ih
    obtain ⟨bs', h', -⟩ := call_step h ha hok
    exact ⟨bs', h'⟩
  | write m _ hl hm ih =>
    obtain ⟨bs, h⟩ := ih
    exact ⟨bs, h.toShape.overwrite hl hm, h.backed⟩

end Histories

end Heap
end OS64
