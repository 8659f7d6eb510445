import OS64.HeapCalls
/-!
# HeapRun — runs of the heap: the block list stays a tiling of the heap

A run starts with `malloc_init` and calls `malloc`, `free`, `realloc` and `calloc` in any order, with callers writing in
between to the payloads they hold.  `live` are the pointers handed out and not yet given back; they are the payloads of
the blocks in use.
-/
namespace OS64

open List Nat Res Cell

variable {pre post rest : List Block} {req sz : Nat}

def payloads (bs : List Block) : List Nat := (inUse bs).map (fun b => b.addr + headerSize)

theorem mem_payloads {bs : List Block} {p : Nat} :
    p ∈ payloads bs ↔ ∃ b ∈ bs, b.tag = false ∧ p = b.addr + headerSize := by
  unfold payloads
  simp only [mem_map, mem_inUse, and_assoc, eq_comm]

namespace Heap

variable {s s' t : Heap} {bs bs' : List Block} {m : Mem} {b c : Block} {n p size : Nat} {env : Heap → Nat → Option Mem}
  {live : List Nat}

theorem payload_ne_zero (a : Nat) : a + headerSize ≠ 0 := succ_ne_zero _

theorem Shape.scribble (h : Shape s bs)
    (hm : ∀ b ∈ bs, ∀ x, b.addr ≤ x → x < b.addr + headerSize → m x = s.mem x) : Shape { s with mem := m } bs :=
  ⟨h.linked.mono (fun b hb p n hr => by
      unfold Recorded
      rw [header_congr (hm b hb)]
      exact hr),
    h.tiles, h.nonempty, h.head, h.tail, h.start, h.size, h.fits, h.room, h.small⟩

/-! ## The area of the heap -/

structure SameArea (s s' : Heap) : Prop where
  startVirt : s'.startVirt = s.startVirt
  endVirt : s'.endVirt = s.endVirt
  currentSize : s'.currentSize = s.currentSize

theorem SameArea.trans {u : Heap} (h : SameArea s t) (h' : SameArea t u) : SameArea s u :=
  ⟨h'.1.trans h.1, h'.2.trans h.2, h'.3.trans h.3⟩

theorem SameArea.refl (s : Heap) : SameArea s s :=
  ⟨rfl, rfl, rfl⟩

theorem SameArea.of (s : Heap) (m : Mem) (tail : Nat) : SameArea s { s with mem := m, tail := tail } :=
  ⟨rfl, rfl, rfl⟩

theorem SameArea.ite {c : Prop} [Decidable c] (h : SameArea s s') (h' : SameArea s t) :
    SameArea s (if c then s' else t) := by
  split
  · exact h
  · exact h'

theorem splitBlock_area (s : Heap) (h req : Nat) : SameArea s (splitBlock s h req) :=
  .ite (.refl s) (.ite (.refl s) (.of s _ _))

/-! ## malloc -/

theorem alignUp_eq (h : n + 7 < 2 ^ 64) : alignUp n = (n + 7) / 8 * 8 := by
  unfold alignUp
  rw [u64_of_lt h, clearLow_eq 3 _ (by decide) h]
  rfl

theorem alignUp_spec (h : n ≤ 2 ^ 63) : alignUp n ≤ 2 ^ 63 ∧ n ≤ alignUp n ∧ (n ≠ 0 → alignUp n ≠ 0) := by
  rw [alignUp_eq (by omega)]
  omega

/-- **`malloc` can serve the rounded size**: a free block is large enough, or the heap can grow by the pages it
takes. -/
def CanServe (env : Heap → Nat → Option Mem) (s : Heap) (bs : List Block) (size : Nat) : Prop :=
  fit bs size ≠ none ∨
    s.currentSize + pagesNeeded size * pageSize ≤ heapMaxSize ∧ env s (pagesNeeded size) ≠ none

/-- Where the block served lies: the first that fits, or else at the end of the heap. -/
def place (s : Heap) (bs : List Block) (size : Nat) : Nat :=
  match fit bs size with
  | some b => b.addr
  | none => s.endVirt

theorem findOrExpand_fit {a : Nat} (h : findFit s size = .ok a) (ha : a ≠ 0) :
    ∀ left, findOrExpand env size left s = .ok (s, a)
  | 0 | _ + 1 => by
    unfold findOrExpand
    rw [h, ok_bind, if_pos ha]
    rfl

theorem findOrExpand_grow (h : findFit s size = .ok 0) (left : Nat) :
    ((heapExpand s size (env s (pagesNeeded size))).2 = false →
      ∃ msg, findOrExpand env size (left + 1) s = .panic msg) ∧
    ((heapExpand s size (env s (pagesNeeded size))).2 = true → findOrExpand env size (left + 1) s =
      findOrExpand env size left (heapExpand s size (env s (pagesNeeded size))).1) := by
  rw [findOrExpand, h, ok_bind]
  rcases heapExpand s size (env s (pagesNeeded size)) with ⟨s', _ | _⟩
  · exact ⟨fun _ => ⟨_, rfl⟩, nofun⟩
  · exact ⟨nofun, fun _ => rfl⟩

/-- **The search and the growing of `malloc`**: the first free block that is large enough, the heap grown once if there
is none; `panic` if it cannot grow. -/
theorem findOrExpand_cases (henv : Fresh env) (h : Shape s bs) (hsize : size + 8192 < 13835058055282163712) :
    (¬ CanServe env s bs size ∧ ∃ msg, findOrExpand env size 10 s = .panic msg) ∨
    CanServe env s bs size ∧ ∃ (s' : Heap) (pre : List Block) (b : Block) (post : List Block),
      findOrExpand env size 10 s = .ok (s', b.addr) ∧ Shape s' (pre ++ b :: post) ∧ b.tag = true ∧ size ≤ b.size ∧
      b.addr = place s bs size ∧ ((s' = s ∧ bs = pre ++ b :: post) ∨ (pre = bs ∧ post = [])) ∧
      SamePayloads bs s.mem s'.mem ∧ s'.currentSize ≤ max s.currentSize heapMaxSize := by
  unfold CanServe place
  rcases findFit_spec h size with ⟨h0, hall⟩ | ⟨pre, b, post, rfl, hfound, htag, hsz, hpre⟩
  · rw [fit_none.2 hall]
    obtain ⟨hfails, hgrows⟩ := @findOrExpand_grow s size env h0 9
    rcases heapExpand_cases henv h hsize with ⟨hno, hx⟩ | ⟨hyes, hx, e, he, hs', hpay, hbound⟩
    · exact .inl ⟨fun hc => hno (hc.resolve_left (fun hne => hne rfl)), hfails hx⟩
    -- the search now gets to the new block, the only one that is large enough
    refine .inr ⟨.inr hyes, _, bs, ⟨s.endVirt, e, true⟩, [], ?_, hs', rfl, he, rfl, .inr ⟨rfl, rfl⟩, hpay,
      hbound.trans (le_max_right _ _)⟩
    have hnew : fit (bs ++ [⟨s.endVirt, e, true⟩]) size = some ⟨s.endVirt, e, true⟩ := fit_append hall rfl he
    rw [hgrows hx]
    rcases findFit_spec hs' size with ⟨-, hno⟩ | ⟨pre, b, post, hcat, hfound, htag, hsz, hpre⟩
    · rw [fit_none.2 hno] at hnew
      cases hnew
    · rw [hcat, fit_append hpre htag hsz] at hnew
      cases hnew
      exact findOrExpand_fit hfound (hs'.addr_pos (by simp)) 9
  · rw [fit_append hpre htag hsz]
    exact .inr ⟨.inl (Option.some_ne_none b), s, pre, b, post, findOrExpand_fit hfound h.addr_ne 10, h, htag, hsz, rfl,
      .inl ⟨rfl, rfl⟩, fun _ _ _ _ _ => rfl, le_max_left _ _⟩

theorem cut_spec (hreq : req ≤ b.size) :
    ∃ (sz : Nat) (rest : List Block), cut b req = ⟨b.addr, sz, b.tag⟩ :: rest ∧ req ≤ sz := by
  unfold cut
  by_cases hcut : req + minSplitSize ≤ b.size
  · rw [if_pos hcut]
    exact ⟨req, _, rfl, le_rfl⟩
  · rw [if_neg hcut]
    exact ⟨b.size, [], rfl, hreq⟩

/-- The list after `malloc`: the block `b` of `pre ++ b :: post`, which is `bs` or `bs` grown by `b`, cut to `sz` bytes
and marked as used, with what was cut off behind it. -/
structure Served (s' : Heap) (bs : List Block) (size : Nat) (pre : List Block) (b : Block) (sz : Nat)
    (rest post : List Block) : Prop where
  tag : b.tag = true
  of : bs = pre ++ b :: post ∨ (pre = bs ∧ post = [])
  cut : cut b size = ⟨b.addr, sz, true⟩ :: rest
  size : size ≤ sz
  shape : Shape s' (pre ++ ⟨b.addr, sz, false⟩ :: (rest ++ post))
  fresh : (⟨b.addr, sz, false⟩ : Block) ∉ inUse bs

theorem cut_rest {tag : Bool} (h : cut b req = ⟨b.addr, sz, tag⟩ :: rest) :
    rest = [] ∧ sz = b.size ∨ ∃ r, rest = [r] ∧ r.tag = true ∧ sz = req := by
  unfold cut at h
  split at h
  · cases h
    exact .inr ⟨_, rfl, rfl, rfl⟩
  · obtain ⟨hb, hrest⟩ := List.cons.inj h
    exact .inl ⟨hrest.symm, (congrArg Cell.size hb).symm⟩

theorem inUse_cut {tag : Bool} (h : cut b req = ⟨b.addr, sz, tag⟩ :: rest) :
    inUse rest = [] := by
  rcases cut_rest h with ⟨rfl, -⟩ | ⟨r, rfl, hr, -⟩
  · rfl
  · rw [inUse_free hr, inUse_nil]

theorem Served.inUse (h : Served s' bs size pre b sz rest post) :
    c ∈ inUse (pre ++ ⟨b.addr, sz, false⟩ :: (rest ++ post)) ↔ c = ⟨b.addr, sz, false⟩ ∨ c ∈ inUse bs := by
  have hbs : OS64.inUse bs = OS64.inUse pre ++ OS64.inUse post := by
    rcases h.of with rfl | ⟨rfl, rfl⟩
    · rw [inUse_append, inUse_free h.tag]
    · rw [inUse_nil, append_nil]
  rw [hbs, inUse_append, inUse_used rfl, inUse_append, inUse_cut h.cut, mem_append, mem_append, mem_cons]
  exact or_left_comm

theorem Served.noFreePair (h : Served s' bs size pre b sz rest post)
    (hbs : NoFreePair bs) : NoFreePair (pre ++ ⟨b.addr, sz, false⟩ :: (rest ++ post)) := by
  have hparts : NoFreePair pre ∧ NoFreePair post ∧ ∀ n ∈ post.head?, n.tag = false := by
    rcases h.of with rfl | ⟨rfl, rfl⟩
    · obtain ⟨hpre, hpost, hb⟩ := noFreePair_at.1 hbs
      exact ⟨hpre, hpost, (hb h.tag).2⟩
    · exact ⟨hbs, isChain_nil, nofun⟩
  refine noFreePair_at.2 ⟨hparts.1, ?_, nofun⟩
  rcases cut_rest h.cut with ⟨rfl, -⟩ | ⟨r, rfl, -, -⟩
  · exact hparts.2.1
  · exact noFreePair_at.2 ⟨isChain_nil, hparts.2.1, fun _ => ⟨nofun, hparts.2.2⟩⟩

theorem malloc_found (h0 : n ≠ 0) (hn : alignUp n + 8192 < 13835058055282163712)
    (hok : findOrExpand env (alignUp n) 10 s = .ok (t, b.addr)) (ht : Shape t (pre ++ b :: post)) (htag : b.tag = true)
    (hsz : alignUp n ≤ b.size) (hof : bs = pre ++ b :: post ∨ (pre = bs ∧ post = [])) : ∃ s' sz rest,
      malloc env s n = .ok (s', b.addr + headerSize) ∧ Served s' bs (alignUp n) pre b sz rest post ∧
      SamePayloads (inUse bs) t.mem s'.mem ∧ SameArea t s' := by
  obtain ⟨sz, rest, hcut, hreq⟩ := cut_spec hsz
  rw [htag] at hcut
  have hsplit := splitBlock_shape ht _ hn
  rw [hcut] at hsplit
  have hmark := setFree_shape hsplit.toShape false
  have hfresh : (⟨b.addr, sz, false⟩ : Block) ∉ inUse bs := fun hc => by
    have hc' : (⟨b.addr, sz, false⟩ : Block) ∈ pre ++ b :: post := by
      rcases hof with rfl | ⟨rfl, rfl⟩
      · exact (mem_inUse.1 hc).1
      · exact mem_append_left _ (mem_inUse.1 hc).1
    have := ht.unique (b := b) (by simp) hc' rfl
    rw [← this] at htag
    cases htag
  have hserved : Served _ bs (alignUp n) pre b sz rest post := ⟨htag, hof, hcut, hreq, hmark.toShape, hfresh⟩
  have hkeep : ∀ c ∈ inUse bs, c ∈ pre ++ (⟨b.addr, sz, false⟩ :: (rest ++ post)) := fun c hc =>
    (mem_inUse.1 (hserved.inUse.2 (.inr hc))).1
  refine ⟨_, sz, rest, ?_, hserved, SamePayloads.trans (hsplit.payloads.sub fun c hc => ?_) (hmark.payloads.sub hkeep),
    (splitBlock_area t b.addr (alignUp n)).trans ⟨rfl, rfl, rfl⟩⟩
  · have hb := ht.bounds
    have hfits := ht.fits
    have hpay : headerToPayload b.addr = b.addr + headerSize := u64_of_lt (by omega)
    unfold malloc
    simp only [if_neg h0, hok, ok_bind, hpay]
    rfl
  · rcases mem_append.1 (hkeep c hc) with hin | hin
    · exact mem_append_left _ hin
    · rcases mem_cons.1 hin with rfl | hin
      · exact absurd hc hfresh
      · exact mem_append_right _ (.tail _ hin)

theorem malloc_panics (h0 : n ≠ 0) (hp : ∃ msg, findOrExpand env (alignUp n) 10 s = .panic msg) :
    ∃ msg, malloc env s n = .panic msg := by
  obtain ⟨msg, hmsg⟩ := hp
  refine ⟨msg, ?_⟩
  unfold malloc
  simp only [if_neg h0, hmsg, panic_bind]

/-- **`malloc`** panics when the size cannot be served, or else hands out the block served. -/
theorem malloc_cases (henv : Fresh env) (h : Shape s bs) (h0 : n ≠ 0) (hn : alignUp n + 8192 < 13835058055282163712) :
    (¬ CanServe env s bs (alignUp n) ∧ ∃ msg, malloc env s n = .panic msg) ∨
    CanServe env s bs (alignUp n) ∧ ∃ (s' : Heap) (pre : List Block) (b : Block) (sz : Nat) (rest post : List Block),
      malloc env s n = .ok (s', b.addr + headerSize) ∧ Served s' bs (alignUp n) pre b sz rest post ∧
      b.addr = place s bs (alignUp n) ∧ SamePayloads (inUse bs) s.mem s'.mem ∧
      s'.currentSize ≤ max s.currentSize heapMaxSize := by
  rcases findOrExpand_cases henv h hn with
    ⟨hno, hp⟩ | ⟨hyes, t, pre, b, post, hok, ht, htag, hsz, hplace, hof, hpay, hbound⟩
  · exact .inl ⟨hno, malloc_panics h0 hp⟩
  · obtain ⟨s', sz, rest, hm, hs, hpay', harea⟩ := malloc_found h0 hn hok ht htag hsz (hof.imp_left And.right)
    exact .inr ⟨hyes, s', pre, b, sz, rest, post, hm, hs, hplace,
      (hpay.sub fun c hc => (mem_inUse.1 hc).1).trans hpay', harea.currentSize ▸ hbound⟩

/-- **`malloc`** panics, or hands out the payload of a new block in use, at least as large as asked for. -/
theorem malloc_spec (henv : Fresh env) (h : Shape s bs) (hn : n ≤ 2 ^ 63) : (∃ msg, malloc env s n = .panic msg) ∨
      (n = 0 ∧ malloc env s n = .ok (s, 0)) ∨
      n ≠ 0 ∧ ∃ (s' : Heap) (bs' : List Block) (b : Block), malloc env s n = .ok (s', b.addr + headerSize) ∧
        Shape s' bs' ∧
        b ∈ bs' ∧ b.tag = false ∧ n ≤ b.size ∧ alignUp n ≤ b.size ∧ ∀ c, c ∈ inUse bs' ↔ c = b ∨ c ∈ inUse bs := by
  obtain ⟨halign, hle, -⟩ := alignUp_spec hn
  by_cases h0 : n = 0
  · exact .inr (.inl ⟨h0, if_pos h0⟩)
  rcases malloc_cases henv h h0 (by omega) with ⟨-, hp⟩ | ⟨-, t, pre, b, sz, rest, post, hm, hs, -⟩
  · exact .inl hp
  · exact .inr
      (.inr ⟨h0, t, _, ⟨b.addr, sz, false⟩, hm, hs.shape, by simp, rfl, hle.trans hs.size, hs.size, fun c => hs.inUse⟩)

/-! ## free, realloc, calloc -/

theorem payloadToHeader_eq (h : Shape s bs) (hb : b ∈ bs) : payloadToHeader (b.addr + headerSize) = b.addr := by
  have := h.tiles.mem.2 b hb
  have := h.fits
  unfold payloadToHeader
  rw [sub64_of_le (by omega) (by omega), Nat.add_sub_cancel]

theorem Shape.others (h : Shape s (pre ++ b :: post)) (ht : b.tag = false) :
    c ∈ inUse (pre ++ b :: post) ∧ c ≠ b ↔ c ∈ inUse pre ∨ c ∈ inUse post := by
  have hhdr : headerSize = 40 := rfl
  rw [inUse_append, inUse_used ht, mem_append, mem_cons]
  constructor
  · rintro ⟨hc | hc | hc, hne⟩
    · exact .inl hc
    · exact absurd hc hne
    · exact .inr hc
  rintro (hc | hc)
  · refine ⟨.inl hc, ?_⟩
    rintro rfl
    have := h.before (mem_inUse.1 hc).1
    omega
  · refine ⟨.inr (.inr hc), ?_⟩
    rintro rfl
    have := h.after (mem_inUse.1 hc).1
    omega

/-- **`free`** of a block in use merges it with the free blocks next to it. -/
theorem free_cases (h : Shape s (pre ++ b :: post)) (ht : b.tag = false) :
    ∃ s' pre' c post', free s (b.addr + headerSize) = .ok s' ∧
      Merged pre ⟨b.addr, b.size, true⟩ post pre' c post' ∧ Shape s' (pre' ++ c :: post') ∧
      SamePayloads (inUse pre ++ inUse post) s.mem s'.mem := by
  have hhdr := payloadToHeader_eq h (b := b) (by simp)
  have hmark := setFree_shape h true
  obtain ⟨pre', c, post', hm, h', hpay⟩ := coalesce_shape hmark.toShape rfl
  refine ⟨_, pre', c, post', ?_, hm, h', SamePayloads.trans (hmark.payloads.sub fun d hd => ?_) hpay⟩
  · unfold free
    simp only [hhdr, h.header_at, ht, ne_eq]
    rfl
  · exact (mem_append.1 hd).elim (fun hd => mem_append_left _ (mem_inUse.1 hd).1)
      (fun hd => mem_append_right _ (.tail _ (mem_inUse.1 hd).1))

/-- **`free`** of a block in use gives it back and keeps the others. -/
theorem free_spec (h : Shape s bs) (hb : b ∈ bs) (ht : b.tag = false) :
    ∃ (s' : Heap) (bs' : List Block), free s (b.addr + headerSize) = .ok s' ∧ Shape s' bs' ∧
      (∀ c, c ∈ inUse bs' ↔ c ∈ inUse bs ∧ c ≠ b) ∧ SamePayloads (inUse bs') s.mem s'.mem ∧
      (NoFreePair bs → NoFreePair bs') := by
  obtain ⟨pre, post, rfl⟩ := append_of_mem hb
  obtain ⟨s', pre', d, post', hok, hm, h', hpay⟩ := free_cases h ht
  refine ⟨s', _, hok, h', fun c => by rw [h.others ht, hm.inUse, mem_append], by rwa [hm.inUse],
    fun hbs => ?_⟩
  obtain ⟨hpre, hpost, -⟩ := noFreePair_at.1 hbs
  exact hm.noFreePair hpre hpost

/-- What `realloc` leaves when it returns a block: it takes the place of `b`, is large enough and has the bytes of `b`;
the other payloads in use are as they were. -/
structure Moved (s s' : Heap) (bs : List Block) (b : Block) (req : Nat) (bs' : List Block) (b' : Block) : Prop where
  shape : Shape s' bs'
  inUse : ∀ c, c ∈ inUse bs' ↔ c = b' ∨ c ∈ inUse bs ∧ c ≠ b
  size : req ≤ b'.size
  bytes : ∀ i, i < b.size → i < req → s'.mem (b'.addr + headerSize + i) = s.mem (b.addr + headerSize + i)
  others : ∀ c ∈ OS64.inUse bs, c ≠ b → SamePayloads [c] s.mem s'.mem
  noFreePair : b.size < req → NoFreePair bs → NoFreePair bs'

theorem shrink_moved (h : Shape s bs) (hb : b ∈ bs) (ht : b.tag = false) (hreq : req ≤ b.size)
    (hlt : req ≤ 2 ^ 63) : ∃ bs' b', b'.addr = b.addr ∧ Moved s (splitBlock s b.addr req) bs b req bs' b' := by
  obtain ⟨pre, post, rfl⟩ := append_of_mem hb
  obtain ⟨sz, rest, hcut, hsz⟩ := cut_spec hreq
  have hrest : inUse rest = [] := inUse_cut hcut
  have hsplit := splitBlock_shape h req (by omega)
  rw [hcut, cons_append] at hsplit
  refine ⟨_, ⟨b.addr, sz, b.tag⟩, rfl, hsplit.toShape, fun c => ?_, hsz, fun i _ hi => ?_, fun c hc hne => ?_,
    fun hlt => absurd hreq (not_le.2 hlt)⟩
  · rw [h.others ht, inUse_append, inUse_used (b := ⟨b.addr, sz, b.tag⟩) ht, inUse_append, hrest, mem_append, mem_cons]
    exact or_left_comm
  · exact hsplit.payloads ⟨b.addr, sz, b.tag⟩ (by simp) _ (le_add_right _ _) (Nat.add_lt_add_left (hi.trans_le hsz) _)
  · refine hsplit.payloads.sub (fun d hd => ?_)
    rw [mem_singleton.1 hd]
    rcases (h.others ht).1 ⟨hc, hne⟩ with hc | hc
    · exact mem_append_left _ (mem_inUse.1 hc).1
    · exact mem_append_right _ (.tail _ (mem_append_right _ (mem_inUse.1 hc).1))

theorem Shape.header_mem (h : Shape s bs) (hb : b ∈ bs) : (header s.mem b.addr).magic = blockMagic ∧
    (header s.mem b.addr).size = b.size ∧ (header s.mem b.addr).free = b.tag.toNat := by
  obtain ⟨pre, post, rfl⟩ := append_of_mem hb
  rw [h.header_at]
  exact ⟨rfl, rfl, rfl⟩

theorem realloc_eq (h : Shape s bs) (hb : b ∈ bs) (h0 : n ≠ 0) :
    realloc env s (b.addr + headerSize) n =
      if alignUp n ≤ b.size then .ok (splitBlock s b.addr (alignUp n), b.addr + headerSize)
      else do
        let (s, newp) ← malloc env s (alignUp n)
        if newp = 0 then return (s, 0)
        else
          let s := { s with mem := copy s.mem newp (b.addr + headerSize) (header s.mem b.addr).size }
          let s ← free s (b.addr + headerSize)
          return (s, newp) := by
  unfold realloc
  simp only [if_neg (payload_ne_zero _), if_neg h0, payloadToHeader_eq h hb, h.header_mem hb, ne_eq, not_true_eq_false,
    if_false]

/-- **`realloc`** of a block in use panics or hands out a block in its place. -/
theorem realloc_cases (henv : Fresh env) (h : Shape s bs) (hb : b ∈ bs) (ht : b.tag = false) (h0 : n ≠ 0)
    (hn : alignUp n ≤ 2 ^ 63) :
    (¬ CanServe env s bs (alignUp (alignUp n)) ∧ ∃ msg, realloc env s (b.addr + headerSize) n = .panic msg) ∨
      ∃ s' bs' b', realloc env s (b.addr + headerSize) n = .ok (s', b'.addr + headerSize) ∧
        Moved s s' bs b (alignUp n) bs' b' := by
  rw [realloc_eq h hb h0]
  by_cases hfit : alignUp n ≤ b.size
  · obtain ⟨bs', b', haddr, hm⟩ := shrink_moved h hb ht hfit hn
    rw [if_pos hfit]
    exact .inr ⟨_, bs', b', by rw [haddr], hm⟩
  rw [if_neg hfit]
  obtain ⟨halign, hle, -⟩ := alignUp_spec hn
  rcases malloc_cases henv h (n := alignUp n) (by omega) (by omega) with
    ⟨hno, msg, hm⟩ | ⟨-, t, pre, d, sz, rest, post, hm, hs, -, hpay, -⟩
  · exact .inl ⟨hno, msg, by rw [hm, panic_bind]⟩
  have hcs := hs.shape
  generalize hc : (⟨d.addr, sz, false⟩ : Block) = c at hcs
  have huse : ∀ x, x ∈ inUse _ ↔ x = c ∨ x ∈ inUse bs := fun x => hc ▸ hs.inUse (c := x)
  have hpair := hs.noFreePair
  rw [hc] at hpair
  generalize pre ++ c :: (rest ++ post) = cs at hcs huse hpair
  have hsz : alignUp n ≤ c.size := by
    rw [← hc]
    exact hle.trans hs.size
  have hbc := mem_inUse.1 ((huse b).2 (.inr (mem_inUse.2 ⟨hb, ht⟩)))
  have hcc := mem_inUse.1 ((huse c).2 (.inl rfl))
  have hcb : c ≠ b := fun heq => hfit (heq ▸ hsz)
  -- the bytes are copied into the payload of `c`, which meets no other block
  generalize hu : ({ t with mem := copy t.mem (c.addr + headerSize) (b.addr + headerSize) b.size } : Heap) = u
  have hcopy : Shape u cs := by
    rw [← hu]
    exact hcs.scribble (fun d hd x hx hx' => copy_apart t.mem (by have := hcs.spares hcc.1 hd hx hx'; omega))
  obtain ⟨s', bs', hfree, hs', huse', hpay', hpair'⟩ := free_spec hcopy hbc.1 ht
  have hcs' := (huse' c).2 ⟨(huse c).2 (.inl rfl), hcb⟩
  refine .inr ⟨s', bs', c, ?_, hs', fun x => ?_, hsz, fun i hi _ => ?_, fun x hx hne => ?_,
    fun _ hbs => hpair' (hpair hbs)⟩
  · have haddr : d.addr = c.addr := by rw [← hc]
    rw [hm, haddr, ok_bind]
    simp only [if_neg (payload_ne_zero _), (hcs.header_mem hbc.1).2.1, hu, hfree, ok_bind, pure_eq]
  · rw [huse' x, huse x]
    constructor
    · rintro ⟨hx | hx, hne⟩
      · exact .inl hx
      · exact .inr ⟨hx, hne⟩
    · rintro (hx | hx)
      · exact ⟨.inl hx, by rwa [hx]⟩
      · exact ⟨.inr hx.1, hx.2⟩
  · rw [hpay' c hcs' _ (le_add_right _ _) (by omega), ← hu,
      ← hpay b (mem_inUse.2 ⟨hb, ht⟩) _ (le_add_right _ _) (by omega)]
    exact copy_at t.mem hi
  · have hxc : x ≠ c := fun heq => hs.fresh (hc ▸ heq ▸ hx)
    intro d hd y hy hy'
    rw [mem_singleton.1 hd] at hy hy'
    rw [hpay' x ((huse' x).2 ⟨(huse x).2 (.inr hx), hne⟩) y hy hy', ← hu, ← hpay x hx y hy hy']
    refine copy_apart t.mem ?_
    have := hcs.apart hcc.1 (mem_inUse.1 ((huse x).2 (.inr hx))).1 hxc
    omega

/-- **`realloc`** of a block in use panics, gives the block back when asked for nothing, or hands out a block in use in
its place. -/
theorem realloc_spec (henv : Fresh env) (h : Shape s bs) (hb : b ∈ bs) (ht : b.tag = false) (hn : n < 2 ^ 63) :
    (∃ msg, realloc env s (b.addr + headerSize) n = .panic msg) ∨
      (n = 0 ∧ ∃ (s' : Heap) (bs' : List Block), realloc env s (b.addr + headerSize) n = .ok (s', 0) ∧ Shape s' bs' ∧
        ∀ c, c ∈ inUse bs' ↔ c ∈ inUse bs ∧ c ≠ b) ∨
      ∃ (s' : Heap) (bs' : List Block) (b' : Block), realloc env s (b.addr + headerSize) n =
        .ok (s', b'.addr + headerSize) ∧
        Shape s' bs' ∧ ∀ c, c ∈ inUse bs' ↔ c = b' ∨ c ∈ inUse bs ∧ c ≠ b := by
  by_cases h0 : n = 0
  · obtain ⟨s', bs', hfree, hs', huse, -⟩ := free_spec h hb ht
    refine .inr (.inl ⟨h0, s', bs', ?_, hs', huse⟩)
    unfold realloc
    rw [if_pos h0, hfree]
    rfl
  · rcases realloc_cases henv h hb ht h0 (alignUp_spec hn.le).1 with ⟨-, hp⟩ | ⟨s', bs', b', hok, hm⟩
    · exact .inl hp
    · exact .inr (.inr ⟨s', bs', b', hok, hm.shape, hm.inUse⟩)

/-- **`calloc` passes the true product on**: one that does not fit in 64 bits is refused. -/
theorem calloc_eq (m k : Nat) : calloc env s m k =
    if m * k < 2 ^ 64 ∧ m * k ≠ 0 then do
      let (s, ptr) ← malloc env s (m * k)
      if ptr = 0 then return (s, 0) else return ({ s with mem := fill s.mem ptr (m * k) 0#8 }, ptr)
    else .ok (s, 0) := by
  have hover : (m ≠ 0 ∧ k > 18446744073709551615 / m) ↔ 2 ^ 64 ≤ m * k := by
    constructor
    · rintro ⟨hm, hgt⟩
      have := (Nat.div_lt_iff_lt_mul (Nat.pos_of_ne_zero hm)).1 hgt
      rw [mul_comm] at this
      omega
    intro hge
    have hm : m ≠ 0 := fun hm => by rw [hm] at hge; omega
    refine ⟨hm, (Nat.div_lt_iff_lt_mul (Nat.pos_of_ne_zero hm)).2 ?_⟩
    rw [mul_comm]
    omega
  unfold calloc
  by_cases hlt : m * k < 2 ^ 64
  · rw [if_neg (fun hc => absurd (hover.1 hc) (by omega))]
    simp only [u64_of_lt hlt]
    by_cases h0 : m * k = 0
    · rw [if_pos h0, if_neg (fun hc => hc.2 h0)]
    · rw [if_neg h0, if_pos ⟨hlt, h0⟩]
  · rw [if_pos (hover.2 (by omega)), if_neg (fun hc => hlt hc.1)]

/-- **`calloc`** is `malloc` of the product, with the payload cleared. -/
theorem calloc_spec (henv : Fresh env) (h : Shape s bs) {k : Nat} (hn : k * n < 2 ^ 63) :
    (∃ msg, calloc env s k n = .panic msg) ∨ (calloc env s k n = .ok (s, 0)) ∨
      ∃ (s' : Heap) (bs' : List Block) (b : Block), calloc env s k n = .ok (s', b.addr + headerSize) ∧ Shape s' bs' ∧
        ∀ c, c ∈ inUse bs' ↔ c = b ∨ c ∈ inUse bs := by
  rw [calloc_eq]
  by_cases h0 : k * n = 0
  · exact .inr (.inl (if_neg (fun hc => hc.2 h0)))
  rw [if_pos ⟨by omega, h0⟩]
  rcases malloc_spec henv h hn.le with ⟨msg, hm⟩ | ⟨h0', -⟩ | ⟨-, t, cs, c, hm, hcs, hc, -, hcsz, -, huse⟩
  · exact .inl ⟨msg, by rw [hm, panic_bind]⟩
  · exact absurd h0' h0
  · have hfill : Shape { t with mem := fill t.mem (c.addr + headerSize) (k * n) 0#8 } cs :=
      hcs.scribble (fun d hd x hx hx' => fill_apart t.mem (by have := hcs.spares hc hd hx hx'; omega))
    refine .inr (.inr ⟨_, cs, c, ?_, hfill, huse⟩)
    simp only [hm, ok_bind, if_neg (payload_ne_zero _), pure_eq]

/-! ## Statistics -/

/-- **The statistics add up the blocks**, as far as the 64-bit sum reaches. -/
theorem statsFrom_spec : ∀ {bs : List Block} {p turns : Nat} (st : KmallocStats),
    Cell.Linked (Recorded m) p bs 0 → (∀ b ∈ bs, b.addr ≠ 0) → bs.length < turns → st.totalManaged < 2 ^ 64 →
    ∃ st', statsFrom m turns (Cell.first bs 0) st = .ok st' ∧
      st'.totalManaged = u64 (st.totalManaged + (bs.map (fun b => headerSize + b.size)).sum)
  | [], _, turns + 1, st, _, _, _, hst => ⟨st, rfl, by rw [map_nil, sum_nil, add_zero, u64_of_lt hst]⟩
  | b :: bs, _, turns + 1, st, hl, hne, hlen, hst => by
    have hrec : header m b.addr = _ := hl.1
    have hcount : (countBlock st (header m b.addr)).totalManaged = u64 (st.totalManaged + (headerSize + b.size)) := by
      rw [hrec]
      unfold countBlock
      split <;> rfl
    obtain ⟨st', hst', htot⟩ := statsFrom_spec (countBlock st (header m b.addr)) hl.2
      (forall_mem_cons.1 hne).2 (lt_of_succ_lt_succ hlen) (by rw [hcount]; exact u64_lt _)
    refine ⟨st', ?_, ?_⟩
    · unfold statsFrom
      rw [first_cons, if_neg (hne b (.head _)), ← hst', hrec]
    · rw [htot, hcount, map_cons, sum_cons]
      unfold u64
      omega

/-! ## Runs -/

def grant (p : Nat) (live : List Nat) : List Nat := if p = 0 then live else p :: live

/-- Callers write only inside the payloads they hold; what lies outside the heap is not the heap's concern. -/
def OnlyPayloads (s : Heap) (live : List Nat) (m : Mem) : Prop :=
  ∀ x, s.startVirt ≤ x → x < s.endVirt →
    (∀ p ∈ live, x < p ∨ p + (header s.mem (payloadToHeader p)).size ≤ x) → m x = s.mem x

/-- **The heaps reached from `malloc_init`**, with the pointers held.  A call that panics ends the run. -/
inductive Run (start size : Nat) : Heap → List Nat → Prop
  | init {m : Mem} {s : Heap} (h : mallocInit m start size = some s) : Run start size s []
  | malloc {s s' : Heap} {live : List Nat} {p : Nat} (env : Heap → Nat → Option Mem) (n : Nat)
      (hr : Run start size s live)
      (henv : Fresh env) (hn : n < 9223372036854775808) (h : s.malloc env n = .ok (s', p)) :
      Run start size s' (grant p live)
  | free {s s' : Heap} {live : List Nat} (p : Nat) (hr : Run start size s live) (hp : p ∈ live)
      (h : s.free p = .ok s') :
      Run start size s' (live.filter (· ≠ p))
  | realloc {s s' : Heap} {live : List Nat} {q : Nat} (env : Heap → Nat → Option Mem) (p n : Nat)
      (hr : Run start size s live) (hp : p = 0 ∨ p ∈ live) (henv : Fresh env) (hn : n < 9223372036854775808)
      (h : s.realloc env p n = .ok (s', q)) : Run start size s' (grant q (live.filter (· ≠ p)))
  | calloc {s s' : Heap} {live : List Nat} {p : Nat} (env : Heap → Nat → Option Mem) (k n : Nat)
      (hr : Run start size s live) (henv : Fresh env) (hn : k * n < 9223372036854775808)
      (h : s.calloc env k n = .ok (s', p)) : Run start size s' (grant p live)
  | write {s : Heap} {live : List Nat} (m : Mem) (hr : Run start size s live) (hm : OnlyPayloads s live m) :
      Run start size { s with mem := m } live

/-- What every run keeps: the heap is a list of blocks, and the pointers held are the payloads in use. -/
def RunInv (s : Heap) (live : List Nat) : Prop := ∃ bs, Shape s bs ∧ ∀ p, p ∈ live ↔ p ∈ payloads bs

theorem payloads_pos (h : p ∈ payloads bs) : p ≠ 0 := by
  obtain ⟨b, -, -, rfl⟩ := mem_payloads.1 h
  exact payload_ne_zero _

theorem mem_payloads_iff : p ∈ payloads bs ↔ ∃ b ∈ inUse bs, p = b.addr + headerSize := by
  simp only [mem_payloads, mem_inUse, and_assoc]

theorem payloads_add (h : ∀ c, c ∈ inUse bs' ↔ c = b ∨ c ∈ inUse bs) (p : Nat) :
    p ∈ payloads bs' ↔ p = b.addr + headerSize ∨ p ∈ payloads bs := by
  simp only [mem_payloads_iff, h]
  constructor
  · rintro ⟨c, rfl | hc, rfl⟩
    · exact .inl rfl
    · exact .inr ⟨c, hc, rfl⟩
  · rintro (rfl | ⟨c, hc, rfl⟩)
    · exact ⟨b, .inl rfl, rfl⟩
    · exact ⟨c, .inr hc, rfl⟩

theorem payloads_remove (hs : Shape s bs) (hb : b ∈ bs) (h : ∀ c, c ∈ inUse bs' ↔ c ∈ inUse bs ∧ c ≠ b) (p : Nat) :
    p ∈ payloads bs' ↔ p ∈ payloads bs ∧ p ≠ b.addr + headerSize := by
  simp only [mem_payloads_iff, h]
  constructor
  · rintro ⟨c, ⟨hc, hne⟩, rfl⟩
    exact ⟨⟨c, hc, rfl⟩, fun heq => hne (hs.unique hb (mem_inUse.1 hc).1 (add_right_cancel heq))⟩
  · rintro ⟨⟨c, hc, rfl⟩, hne⟩
    exact ⟨c, ⟨hc, fun heq => hne (by rw [heq])⟩, rfl⟩

theorem payloads_move {b' : Block} (hs : Shape s bs) (hb : b ∈ bs)
    (h : ∀ c, c ∈ inUse bs' ↔ c = b' ∨ c ∈ inUse bs ∧ c ≠ b) (p : Nat) :
    p ∈ payloads bs' ↔ p = b'.addr + headerSize ∨ p ∈ payloads bs ∧ p ≠ b.addr + headerSize := by
  have hcs : ∀ c, c ∈ inUse ((inUse bs).filter (fun c => decide (c.addr ≠ b.addr))) ↔ c ∈ inUse bs ∧ c ≠ b :=
      fun c => by
    rw [mem_inUse, mem_filter, decide_eq_true_eq]
    constructor
    · rintro ⟨⟨hc, hne⟩, -⟩
      exact ⟨hc, fun heq => hne (by rw [heq])⟩
    · rintro ⟨hc, hne⟩
      exact ⟨⟨hc, fun heq => hne (hs.unique hb (mem_inUse.1 hc).1 heq)⟩, (mem_inUse.1 hc).2⟩
  rw [payloads_add (fun c => (h c).trans (or_congr Iff.rfl (hcs c).symm)) p, payloads_remove hs hb hcs p]

theorem mem_grant {q : Nat} (hq : q ≠ 0) : p ∈ grant q live ↔ p = q ∨ p ∈ live := by
  unfold grant
  rw [if_neg hq, mem_cons]

theorem live_block (hlive : ∀ p, p ∈ live ↔ p ∈ payloads bs)
    (hp : p ∈ live) : ∃ b ∈ bs, b.tag = false ∧ p = b.addr + headerSize :=
  mem_payloads.1 ((hlive p).1 hp)

theorem Shape.write (hs : Shape s bs) (hlive : ∀ p ∈ live, p ∈ payloads bs) (hm : OnlyPayloads s live m) :
    Shape { s with mem := m } bs := by
  refine hs.scribble (fun c hc x hx hx' => ?_)
  have hb := hs.tiles.mem.2 c hc
  refine hm x (by omega) (by omega) (fun p hp => ?_)
  obtain ⟨b, hbm, -, rfl⟩ := mem_payloads.1 (hlive p hp)
  rw [payloadToHeader_eq hs hbm, (hs.header_mem hbm).2.1]
  exact hs.spares hbm hc hx hx'

section
variable {start : Nat} (hend : start + size < 18446744073709551616) (hroom : start + heapMaxSize < 18446744073709551616)
  (hsmall : size ≤ 4611686018427387904)
include hend hroom hsmall

theorem mallocInit_some (h : mallocInit m start size = some s) : Shape s [⟨start, size - headerSize, true⟩] := by
  have hdom : start ≠ 0 ∧ headerSize ≤ size := by
    unfold mallocInit at h
    by_cases hbad : start = 0 ∨ size < headerSize
    · rw [if_pos hbad] at h; cases h
    · omega
  obtain ⟨t, ht, hs⟩ := mallocInit_shape hdom.1 hdom.2 hend hroom hsmall
  rw [h] at ht
  cases ht
  exact hs

theorem RunInv.init (h : mallocInit m start size = some s) : RunInv s [] :=
  ⟨_, mallocInit_some hend hroom hsmall h, fun p => ⟨fun hp => (by cases hp), fun hp => (by cases hp)⟩⟩

omit hend hroom hsmall

theorem RunInv.granted (hlive : ∀ p, p ∈ live ↔ p ∈ payloads bs) (h : Shape s' bs')
    (huse : ∀ c, c ∈ inUse bs' ↔ c = b ∨ c ∈ inUse bs) : RunInv s' (grant (b.addr + headerSize) live) :=
  ⟨bs', h, fun q => by rw [mem_grant (payload_ne_zero _), payloads_add huse, hlive]⟩

theorem RunInv.malloc (h : RunInv s live)
    (henv : Fresh env) (hn : n < 2 ^ 63) (hm : s.malloc env n = .ok (s', p)) : RunInv s' (grant p live) := by
  obtain ⟨bs, hs, hlive⟩ := h
  rcases malloc_spec henv hs hn.le with ⟨msg, h'⟩ | ⟨-, h'⟩ | ⟨-, t, cs, b, h', ht, -, -, -, -, huse⟩ <;>
    rw [hm] at h' <;> cases h'
  · exact ⟨bs, hs, hlive⟩
  · exact .granted hlive ht huse

theorem RunInv.free (h : RunInv s live) (hp : p ∈ live) (hm : s.free p = .ok s') : RunInv s' (live.filter (· ≠ p)) := by
  obtain ⟨bs, hs, hlive⟩ := h
  obtain ⟨b, hb, ht, rfl⟩ := live_block hlive hp
  obtain ⟨t, cs, h', hcs, huse, -⟩ := free_spec hs hb ht
  rw [hm] at h'; cases h'
  exact ⟨cs, hcs, fun q => by rw [mem_filter, decide_eq_true_eq, payloads_remove hs hb huse, hlive]⟩

theorem RunInv.realloc {q : Nat} (h : RunInv s live)
    (hp : p = 0 ∨ p ∈ live) (henv : Fresh env) (hn : n < 2 ^ 63) (hm : s.realloc env p n = .ok (s', q)) :
    RunInv s' (grant q (live.filter (· ≠ p))) := by
  rcases hp with rfl | hp
  · have hall : live.filter (· ≠ 0) = live := by
      obtain ⟨bs, -, hlive⟩ := h
      exact filter_eq_self.2 (fun p hp => decide_eq_true (payloads_pos ((hlive p).1 hp)))
    rw [hall]
    exact h.malloc henv hn hm
  obtain ⟨bs, hs, hlive⟩ := h
  obtain ⟨b, hb, ht, rfl⟩ := live_block hlive hp
  rcases realloc_spec henv hs hb ht hn with ⟨msg, h'⟩ | ⟨-, t, cs, h', hcs, huse⟩ | ⟨t, cs, b', h', hcs, huse⟩ <;>
    rw [hm] at h' <;> cases h'
  · exact ⟨cs, hcs, fun r => by
      show r ∈ live.filter _ ↔ _
      rw [mem_filter, decide_eq_true_eq, payloads_remove hs hb huse, hlive]⟩
  · exact ⟨cs, hcs, fun r => by
      rw [mem_grant (payload_ne_zero _), mem_filter, decide_eq_true_eq, payloads_move hs hb huse, hlive]⟩

theorem RunInv.calloc {k : Nat} (h : RunInv s live)
    (henv : Fresh env) (hn : k * n < 2 ^ 63) (hm : s.calloc env k n = .ok (s', p)) : RunInv s' (grant p live) := by
  obtain ⟨bs, hs, hlive⟩ := h
  rcases calloc_spec henv hs hn with ⟨msg, h'⟩ | h' | ⟨t, cs, b, h', ht, huse⟩ <;> rw [hm] at h' <;> cases h'
  · exact ⟨bs, hs, hlive⟩
  · exact .granted hlive ht huse

include hend hroom hsmall

/-- **Every heap reached is a list of blocks.** -/
theorem run_inv (h : Run start size s live) : RunInv s live := by
  induction h with
  | init h => exact RunInv.init hend hroom hsmall h
  | malloc env n _ henv hn h ih => exact ih.malloc henv hn h
  | free p _ hp h ih => exact ih.free hp h
  | realloc env p n _ hp henv hn h ih => exact ih.realloc hp henv hn h
  | calloc env k n _ henv hn h ih => exact ih.calloc henv hn h
  | write m _ hm ih =>
    obtain ⟨bs, hs, hlive⟩ := ih
    exact ⟨bs, hs.write (fun p hp => (hlive p).1 hp) hm, hlive⟩

end

theorem Shape.inverse (h : Shape s bs) (hb : b ∈ bs) :
    ((header s.mem b.addr).next ≠ 0 → (header s.mem (header s.mem b.addr).next).prev = b.addr) ∧
    ((header s.mem b.addr).prev ≠ 0 → (header s.mem (header s.mem b.addr).prev).next = b.addr) := by
  obtain ⟨pre, post, rfl⟩ := append_of_mem hb
  rw [h.header_at]
  constructor
  · intro hne
    cases post with
    | nil => exact absurd rfl hne
    | cons c rest =>
      have hc : Shape s ((pre ++ [b]) ++ c :: rest) := by rwa [← append_cons]
      rw [first_cons, hc.header_at, last_concat]
  · intro hne
    rcases eq_nil_or_concat' pre with rfl | ⟨init, c, rfl⟩
    · exact absurd rfl hne
    · have hc : Shape s (init ++ c :: b :: post) := by rwa [append_cons]
      rw [last_concat, hc.header_at, first_cons]

/-- **The heap is in order**: its blocks, followed from `heap_head` to `heap_tail`, tile it; their links are inverse; no
two payloads in use meet; and their sizes add up to what the heap and its statistics say. -/
structure InOrder (s : Heap) (bs : List Block) : Prop where
  tiles : Cell.Tiles headerSize s.startVirt bs s.endVirt
  linked : Cell.Linked (Recorded s.mem) 0 bs 0
  head : s.head = Cell.first bs 0
  tail : s.tail = Cell.last 0 bs
  inverse : ∀ b ∈ bs, ((header s.mem b.addr).next ≠ 0 → (header s.mem (header s.mem b.addr).next).prev = b.addr) ∧
    ((header s.mem b.addr).prev ≠ 0 → (header s.mem (header s.mem b.addr).prev).next = b.addr)
  disjoint : (inUse bs).Pairwise (fun b c => b.addr + headerSize + b.size ≤ c.addr + headerSize)
  total : (bs.map (fun b => headerSize + b.size)).sum = s.currentSize
  stats : ∃ st, getKmallocStats s = .ok st ∧ st.totalManaged = s.currentSize

theorem Shape.inOrder (h : Shape s bs) : InOrder s bs := by
  have hsum : (bs.map (fun b => headerSize + b.size)).sum + s.startVirt = s.endVirt := h.tiles.sum
  have hsize := h.size
  have hfits := h.fits
  refine ⟨h.tiles, h.linked, h.head_first, h.tail, fun b hb => h.inverse hb, ?_, by omega, ?_⟩
  · exact (h.tiles.pairwise.sublist filter_sublist).imp (fun hbc => by omega)
  obtain ⟨st, hst, htot⟩ := statsFrom_spec ⟨0, 0, 0, 0, 0, 0, 0⟩ h.linked
    (fun b hb => h.addr_pos hb) h.length_lt (by decide)
  refine ⟨st, by unfold getKmallocStats; rw [h.head_first]; exact hst, ?_⟩
  rw [htot, zero_add, u64_of_lt (by omega)]
  omega

structure CallsEnd (s : Heap) (live : List Nat) : Prop where
  malloc : ∀ env n, Fresh env → n < 9223372036854775808 → s.malloc env n ≠ .hang
  free : ∀ p ∈ live, ∃ s', s.free p = .ok s'
  realloc : ∀ env p n, Fresh env → p ∈ live → n < 9223372036854775808 → s.realloc env p n ≠ .hang
  calloc : ∀ env k n, Fresh env → k * n < 9223372036854775808 → s.calloc env k n ≠ .hang

theorem RunInv.callsEnd (h : RunInv s live) : CallsEnd s live := by
  obtain ⟨bs, hs, hlive⟩ := h
  refine ⟨fun env n henv hn => ?_, fun p hp => ?_, fun env p n henv hp hn => ?_, fun env k n henv hn => ?_⟩
  · rcases malloc_spec henv hs hn.le with ⟨msg, h'⟩ | ⟨-, h'⟩ | ⟨-, t, cs, b, h', -⟩ <;> rw [h'] <;> nofun
  · obtain ⟨b, hb, ht, rfl⟩ := live_block hlive hp
    obtain ⟨t, -, h', -⟩ := free_spec hs hb ht
    exact ⟨t, h'⟩
  · obtain ⟨b, hb, ht, rfl⟩ := live_block hlive hp
    rcases realloc_spec henv hs hb ht hn with ⟨msg, h'⟩ | ⟨-, t, cs, h', -⟩ | ⟨t, cs, b', h', -⟩ <;> rw [h'] <;> nofun
  · rcases calloc_spec henv hs hn with ⟨msg, h'⟩ | h' | ⟨t, cs, b, h', -⟩ <;> rw [h'] <;> nofun

/-- **Every heap reached from `malloc_init` is in order**, the pointers held are the payloads in use, and the next call
ends. -/
theorem run_inOrder (start size : Nat) (hend : start + size < 18446744073709551616)
    (hroom : start + heapMaxSize < 18446744073709551616) (hsmall : size ≤ 4611686018427387904) (s : Heap)
    (live : List Nat) (h : Run start size s live) :
    (∃ bs, InOrder s bs ∧ ∀ p, p ∈ live ↔ p ∈ payloads bs) ∧ CallsEnd s live := by
  have hinv := run_inv hend hroom hsmall h
  obtain ⟨bs, hs, hlive⟩ := hinv
  exact ⟨⟨bs, hs.inOrder, hlive⟩, RunInv.callsEnd ⟨bs, hs, hlive⟩⟩

/-- The linker's heap, cleared, after one call. -/
theorem run_inOrder_one : ∃ s p, p ≠ 0 ∧ Run 0x400000 0x800000 s [p] ∧
    (∃ bs, InOrder s bs ∧ ∀ q, q ∈ [p] ↔ q ∈ payloads bs) ∧ CallsEnd s [p] := by
  obtain ⟨s, t, hinit, hmalloc⟩ : ∃ s t, mallocInit (fun _ => 0#8) 0x400000 0x800000 = some s ∧
      s.malloc (fun _ _ => none) 100 = .ok (t, 0x400028) := ⟨_, _, rfl, rfl⟩
  have hrun : Run 0x400000 0x800000 t [0x400028] :=
    Run.malloc (fun _ _ => none) 100 (Run.init hinit) (fun _ _ _ h => (by cases h)) (by decide) hmalloc
  exact ⟨t, _, by decide, hrun, run_inOrder 0x400000 0x800000 (by decide) (by decide) (by decide) t _ hrun⟩

end Heap
end OS64
