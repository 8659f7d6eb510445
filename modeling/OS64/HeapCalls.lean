import OS64.HeapShape
import Mathlib.Data.List.Chain
/-!
# HeapCalls — the heap's calls on the block list

From a well-shaped heap every call ends, in a result or in `panic`, with the heap well shaped again; the blocks in use
(`inUse`) are those before it, less the one freed, with the one handed out.
-/
namespace OS64

open List Cell

variable {b : Block}

def inUse (bs : List Block) : List Block := bs.filter (fun b => !b.tag)

@[simp] theorem inUse_nil : inUse [] = [] := rfl

@[simp] theorem inUse_append (xs ys : List Block) : inUse (xs ++ ys) = inUse xs ++ inUse ys := filter_append _ _

theorem inUse_free (h : b.tag = true) (bs : List Block) : inUse (b :: bs) = inUse bs := by
  unfold inUse
  rw [filter_cons_of_neg (by rw [h]; decide)]

theorem inUse_used (h : b.tag = false) (bs : List Block) : inUse (b :: bs) = b :: inUse bs := by
  unfold inUse
  rw [filter_cons_of_pos (by rw [h]; rfl)]

theorem mem_inUse {bs : List Block} : b ∈ inUse bs ↔ b ∈ bs ∧ b.tag = false := by
  unfold inUse
  rw [mem_filter, Bool.not_eq_true']

theorem tag_ne_zero {f : Bool} : f.toNat ≠ 0 ↔ f = true := by cases f <;> decide

namespace Heap

/-! ## Bringing up and growing -/

variable {m : Mem} {s : Heap} {bs post pre : List Block} {b : Block}

theorem mallocInit_shape {start size : Nat} (h0 : start ≠ 0) (hsize : headerSize ≤ size)
    (hend : start + size < 2 ^ 64) (hroom : start + heapMaxSize < 2 ^ 64) (hsmall : size ≤ 2 ^ 62) :
    ∃ s, mallocInit m start size = some s ∧ Shape s [⟨start, size - headerSize, true⟩] := by
  have hsub : sub64 size headerSize = size - headerSize := sub64_of_le (by omega) hsize
  have hinit : mallocInit m start size = some ⟨setPrev (setNext (setFree (setSize (setMagic m start blockMagic) start
      (size - headerSize)) start 1) start 0) start 0, start, start, start, start + size, size⟩ := by
    unfold mallocInit
    rw [if_neg (by omega)]
    simp only [hsub, u64_of_lt hend]
  refine ⟨_, hinit, ⟨⟨?_, trivial⟩, ⟨rfl, ?_⟩, by simp, rfl, rfl, h0, rfl, hend, hroom, hsmall⟩⟩
  · unfold Recorded
    simp only [header_setNext, header_setPrev, header_setSize, header_setFree, header_setMagic]
    rw [u64_of_lt (by omega)]
    rfl
  · show start + headerSize + (size - headerSize) = start + size
    omega

theorem pagesNeeded_spec (bytes : Nat) (h : bytes + 8192 ≤ 2 ^ 64) :
    ∃ e, u64 (pagesNeeded bytes * pageSize) = e ∧ bytes + headerSize ≤ e ∧ e ≤ bytes + 8192 := by
  have hhdr : headerSize = 40 := rfl
  have hpage : pageSize = 4096 := rfl
  have halign : alignUp (u64 (bytes + headerSize)) = (bytes + 47) / 8 * 8 := by
    unfold alignUp
    rw [u64_of_lt (n := bytes + headerSize) (by omega), u64_of_lt (by omega), clearLow_eq 3 _ (by decide) (by omega)]
    rfl
  unfold pagesNeeded
  rw [halign, hpage, u64_of_lt (n := (bytes + 47) / 8 * 8 + 4096 - 1) (by omega)]
  refine ⟨_, u64_of_lt (by omega), by omega, by omega⟩

/-- The memory mapped by `heap_expand` is fresh: the heap so far keeps its contents. -/
def Fresh (env : Heap → Nat → Option Mem) : Prop :=
  ∀ s n m, env s n = some m → ∀ x, s.startVirt ≤ x → x < s.endVirt → m x = s.mem x

/-- The new last block: the pages added, free, less a header. -/
theorem heapExpand_append (h : Shape s bs) {bytes e : Nat}
    (he : u64 (pagesNeeded bytes * pageSize) = e) (hmin : headerSize ≤ e) (hlim : s.currentSize + e ≤ heapMaxSize)
    (hfresh : ∀ x, s.startVirt ≤ x → x < s.endVirt → m x = s.mem x) :
    (heapExpand s bytes (some m)).2 = true ∧ (heapExpand s bytes (some m)).1.currentSize = s.currentSize + e ∧
      Shape (heapExpand s bytes (some m)).1 (bs ++ [⟨s.endVirt, e - headerSize, true⟩]) ∧
      SamePayloads bs s.mem (heapExpand s bytes (some m)).1.mem := by
  have hmaxSize : heapMaxSize = 2 ^ 29 := rfl
  have hsum : u64 (s.currentSize + e) = s.currentSize + e := u64_of_lt (by omega)
  have hroom := h.room
  have hsz := h.size
  -- the old last block
  obtain ⟨init, t, rfl⟩ : ∃ init t, bs = init ++ [t] := by
    rcases eq_nil_or_concat' bs with hnil | hcat
    · exact absurd hnil h.nonempty
    · exact hcat
  have ht : s.tail = t.addr := by rw [h.tail, last_concat]
  have htiles := tiles_append.1 h.tiles
  obtain ⟨mid, hmid1, hmid2, hmid3⟩ := htiles
  have hend : t.addr + headerSize + t.size = s.endVirt := by rwa [hmid2]
  obtain ⟨hok, hnew, hold, hoff, hs'⟩ := heapExpand_mem (s := s) he (by omega)
    (by rw [ht]; exact h.addr_ne) (by omega) (by omega) (by omega)
  have hkeep : ∀ c ∈ init ++ [t], header m c.addr = header s.mem c.addr := fun c hc => by
    have hcb := h.tiles.mem.2 c hc
    exact header_congr (fun x hx hx' => hfresh x (by omega) (by omega))
  have hlink := linked_append.1 h.linked
  have hinit : ∀ c ∈ init, ∀ p n, Recorded s.mem c p n → Recorded (heapExpand s bytes (some m)).1.mem c p n := by
    intro c hc p n hr
    have hct := h.before hc
    have haway : ∀ a ∈ [s.endVirt, s.tail], Away a c.addr := fun a ha => by
      rcases mem_cons.1 ha with rfl | ha
      · exact .inr (by omega)
      · rw [mem_singleton.1 ha]
        exact .inr (by omega)
    unfold Recorded
    rwa [hoff.header haway, hkeep c (mem_append_left _ hc)]
  have hpay : SamePayloads (init ++ [t]) s.mem (heapExpand s bytes (some m)).1.mem := fun c hc x hx hx' => by
    have hcb := h.tiles.mem.2 c hc
    rw [hoff x (fun a ha => ?_), hfresh x (by omega) (by omega)]
    rcases mem_cons.1 ha with rfl | ha
    · exact .inl (by omega)
    · rw [mem_singleton.1 ha]
      by_contra hin
      have := h.spares hc (c := t) (by simp) (x := x) (by omega) (by omega)
      omega
  refine ⟨hok, by rwa [hs'], ?_, hpay⟩
  rw [hs']
  refine ⟨?_, tiles_append.2 ⟨s.endVirt, h.tiles, rfl, ?_⟩, by simp, h.head, ?_, h.start, ?_, ?_, hroom, ?_⟩
  · rw [append_assoc, linked_append]
    refine ⟨hlink.1.mono hinit, ?_, (by rwa [← ht]), trivial⟩
    unfold Recorded
    rw [← ht, hold, ht, hkeep t (by simp), h.header_at]
    rfl
  · show s.endVirt + headerSize + (e - headerSize) = s.endVirt + e
    omega
  · rw [last_concat]
  · show s.startVirt + u64 (s.currentSize + e) = s.endVirt + e
    omega
  · show s.endVirt + e < _
    omega
  · show u64 (s.currentSize + e) ≤ _
    omega

/-- The heap may grow by the pages a request takes, and they are there. -/
def CanGrow (env : Heap → Nat → Option Mem) (s : Heap) (bytes : Nat) : Prop :=
  s.currentSize + pagesNeeded bytes * pageSize ≤ heapMaxSize ∧ env s (pagesNeeded bytes) ≠ none

theorem pagesNeeded_bytes (bytes : Nat) : pagesNeeded bytes * pageSize < 2 ^ 64 := by
  have hlt := u64_lt (alignUp (u64 (bytes + headerSize)) + pageSize - 1)
  unfold pagesNeeded
  rw [show pageSize = 4096 from rfl] at *
  omega

/-- **A heap grows by one free block at its end**, large enough for the request, or not at all. -/
theorem heapExpand_cases {env : Heap → Nat → Option Mem} (henv : Fresh env) (h : Shape s bs) {bytes : Nat}
    (hbytes : bytes + 8192 < 13835058055282163712) :
    (¬ CanGrow env s bytes ∧ (heapExpand s bytes (env s (pagesNeeded bytes))).2 = false) ∨
    CanGrow env s bytes ∧ (heapExpand s bytes (env s (pagesNeeded bytes))).2 = true ∧ ∃ size, bytes ≤ size ∧
      Shape (heapExpand s bytes (env s (pagesNeeded bytes))).1 (bs ++ [⟨s.endVirt, size, true⟩]) ∧
      SamePayloads bs s.mem (heapExpand s bytes (env s (pagesNeeded bytes))).1.mem ∧
      (heapExpand s bytes (env s (pagesNeeded bytes))).1.currentSize ≤ heapMaxSize := by
  obtain ⟨e, he, hmin, hmax⟩ := pagesNeeded_spec bytes (by omega)
  have hpages : pagesNeeded bytes * pageSize = e := by rw [← he, u64_of_lt (pagesNeeded_bytes bytes)]
  have hsmall := h.small
  have hsum : u64 (s.currentSize + e) = s.currentSize + e := u64_of_lt (by omega)
  unfold CanGrow
  rw [hpages]
  by_cases hlim : s.currentSize + e ≤ heapMaxSize
  · cases hb : env s (pagesNeeded bytes) with
    | none =>
      refine .inl ⟨fun hc => hc.2 rfl, ?_⟩
      unfold heapExpand
      simp only [he, hsum, if_neg (not_lt.2 hlim)]
    | some m =>
      obtain ⟨hok, hsize, hshape, hpay⟩ := heapExpand_append h he (by omega) hlim (henv _ _ _ hb)
      exact .inr ⟨⟨hlim, nofun⟩, hok, e - headerSize, by omega, hshape, hpay, by rwa [hsize]⟩
  · refine .inl ⟨fun hc => hlim hc.1, ?_⟩
    unfold heapExpand
    simp only [he, hsum, if_pos (not_le.1 hlim)]

/-! ## Finding a block -/

/-- **The search stops at the first free block that is large enough**, or says that there is none. -/
theorem findFitFrom_spec {size : Nat} : ∀ {bs : List Block} {p turns : Nat},
    Cell.Linked (Recorded m) p bs 0 → (∀ b ∈ bs, b.addr ≠ 0) → bs.length < turns →
    (findFitFrom m size turns (Cell.first bs 0) = .ok 0 ∧ ∀ b ∈ bs, b.tag = true → b.size < size) ∨
      ∃ pre b post, bs = pre ++ b :: post ∧ findFitFrom m size turns (Cell.first bs 0) = .ok b.addr ∧ b.tag = true ∧
        size ≤ b.size ∧ ∀ c ∈ pre, c.tag = true → c.size < size
  | [], _, turns + 1, _, _, _ => .inl ⟨rfl, fun b hb => (by cases hb)⟩
  | b :: bs, _, turns + 1, hl, hne, hlen => by
    have hb0 := hne b (.head _)
    have hrec : header m b.addr = _ := hl.1
    by_cases hfit : b.tag = true ∧ size ≤ b.size
    · refine .inr ⟨[], b, bs, rfl, ?_, hfit.1, hfit.2, fun c hc => (by cases hc)⟩
      unfold findFitFrom
      rw [first_cons, if_neg hb0, hrec, if_pos ⟨tag_ne_zero.2 hfit.1, hfit.2⟩]
    have hstep : findFitFrom m size (turns + 1) (Cell.first (b :: bs) 0) =
        findFitFrom m size turns (Cell.first bs 0) := by
      rw [findFitFrom, first_cons, if_neg hb0, hrec, if_neg (fun h => hfit ⟨tag_ne_zero.1 h.1, h.2⟩)]
    have hbig : b.tag = true → b.size < size := fun ht => not_le.1 (fun h => hfit ⟨ht, h⟩)
    rw [hstep]
    rcases findFitFrom_spec hl.2 (forall_mem_cons.1 hne).2 (Nat.lt_of_succ_lt_succ hlen) with
      ⟨h0, hall⟩ | ⟨pre, c, post, rfl, hc, htag, hsz, hpre⟩
    · exact .inl ⟨h0, forall_mem_cons.2 ⟨hbig, hall⟩⟩
    · exact .inr ⟨b :: pre, c, post, rfl, hc, htag, hsz, forall_mem_cons.2 ⟨hbig, hpre⟩⟩

theorem Shape.length_lt (h : Shape s bs) : bs.length < s.currentSize + 1 := by
  have hlen := h.tiles.length_le
  have hsize := h.size
  have hhdr : headerSize = 40 := rfl
  rw [hhdr] at hlen
  omega

theorem Shape.addr_pos (h : Shape s bs) (hb : b ∈ bs) : b.addr ≠ 0 := by
  obtain ⟨pre, post, rfl⟩ := append_of_mem hb
  exact h.addr_ne

theorem Shape.head_first (h : Shape s bs) : s.head = Cell.first bs 0 := by
  rw [h.head, h.tiles.first h.nonempty]

theorem findFit_spec (h : Shape s bs) (size : Nat) : (findFit s size = .ok 0 ∧ ∀ b ∈ bs, b.tag = true → b.size < size) ∨
      ∃ pre b post, bs = pre ++ b :: post ∧ findFit s size = .ok b.addr ∧ b.tag = true ∧ size ≤ b.size ∧
        ∀ c ∈ pre, c.tag = true → c.size < size := by
  unfold findFit
  rw [h.head_first]
  exact findFitFrom_spec h.linked (fun b hb => h.addr_pos hb) h.length_lt

def fit (bs : List Block) (size : Nat) : Option Block := bs.find? (fun b => b.tag && decide (size ≤ b.size))

theorem fit_none {size : Nat} : fit bs size = none ↔ ∀ b ∈ bs, b.tag = true → b.size < size := by
  unfold fit
  rw [List.find?_eq_none]
  refine forall_congr' (fun b => imp_congr_right (fun _ => ?_))
  rw [Bool.and_eq_true, decide_eq_true_eq, not_and, Nat.not_le]

theorem fit_append {size : Nat} (hpre : ∀ c ∈ pre, c.tag = true → c.size < size) (htag : b.tag = true)
    (hsz : size ≤ b.size) : fit (pre ++ b :: post) size = some b := by
  have hnone : fit pre size = none := fit_none.2 hpre
  unfold fit at *
  rw [List.find?_append, hnone, List.find?_cons, htag, decide_eq_true hsz]
  rfl

/-! ## Merging -/

theorem coalesceNext_shape (h : Shape s (pre ++ b :: post)) :
    ∃ (c : Block) (post' : List Block), c.addr = b.addr ∧ c.tag = b.tag ∧
      ((post' = post ∧ ∀ n ∈ post.head?, n.tag = false) ∨ ∃ n, post = n :: post' ∧ n.tag = true) ∧
      Became s (if (header s.mem b.addr).next ≠ 0 ∧ (header s.mem (header s.mem b.addr).next).free ≠ 0 then
        s.absorb b.addr (header s.mem b.addr).next else s) (pre ++ c :: post') := by
  rw [h.header_at]
  cases post with
  | nil => exact ⟨b, [], rfl, rfl, .inl ⟨rfl, nofun⟩, h, fun _ _ => rfl⟩
  | cons n rest =>
    have hn : Shape s ((pre ++ [b]) ++ n :: rest) := by rwa [← append_cons]
    rw [first_cons]
    cases hfree : n.tag with
    | true =>
      rw [if_pos ⟨hn.addr_ne, by rw [hn.header_at]; exact tag_ne_zero.2 hfree⟩]
      exact ⟨⟨b.addr, b.size + headerSize + n.size, b.tag⟩, rest, rfl, rfl, .inr ⟨n, rfl, hfree⟩, absorb_shape h⟩
    | false =>
      rw [if_neg (fun hc => Bool.false_ne_true (by rw [← hfree]; rw [hn.header_at] at hc; exact tag_ne_zero.1 hc.2))]
      exact ⟨b, n :: rest, rfl, rfl, .inl ⟨rfl, fun d hd => by cases hd; exact hfree⟩, h, fun _ _ => rfl⟩

theorem coalescePrev_shape (h : Shape s (pre ++ b :: post)) :
    ∃ (pre' : List Block) (c : Block), (b.tag = true → c.tag = true) ∧
      ((pre' = pre ∧ c.addr = b.addr ∧ ∀ p ∈ pre.getLast?, p.tag = false) ∨ ∃ p, pre = pre' ++ [p] ∧ p.tag = true) ∧
      Became s (if (header s.mem b.addr).prev ≠ 0 ∧ (header s.mem (header s.mem b.addr).prev).free ≠ 0 then
        s.absorb (header s.mem b.addr).prev b.addr else s) (pre' ++ c :: post) := by
  rw [h.header_at]
  rcases eq_nil_or_concat' pre with rfl | ⟨init, p, rfl⟩
  · exact ⟨[], b, id, .inl ⟨rfl, rfl, nofun⟩, h, fun _ _ => rfl⟩
  have hp : Shape s (init ++ p :: b :: post) := by rwa [append_cons]
  rw [last_concat]
  cases hfree : p.tag with
  | true =>
    rw [if_pos ⟨hp.addr_ne, by rw [hp.header_at]; exact tag_ne_zero.2 hfree⟩]
    exact ⟨init, ⟨p.addr, p.size + headerSize + b.size, p.tag⟩, fun _ => hfree, .inr ⟨p, rfl, hfree⟩, absorb_shape hp⟩
  | false =>
    rw [if_neg (fun hc => Bool.false_ne_true (by rw [← hfree]; rw [hp.header_at] at hc; exact tag_ne_zero.1 hc.2))]
    refine ⟨init ++ [p], b, id, .inl ⟨rfl, rfl, fun d hd => ?_⟩, h, fun _ _ => rfl⟩
    rw [List.getLast?_concat] at hd
    cases hd
    exact hfree

/-- `pre' ++ c :: post'` is `pre ++ b :: post` with the free block `b` merged with the free blocks next to it. -/
structure Merged (pre : List Block) (b : Block) (post pre' : List Block) (c : Block) (post' : List Block) : Prop where
  tag : c.tag = true
  before : (pre' = pre ∧ c.addr = b.addr ∧ ∀ p ∈ pre.getLast?, p.tag = false) ∨ ∃ p, pre = pre' ++ [p] ∧ p.tag = true
  after : (post' = post ∧ ∀ n ∈ post.head?, n.tag = false) ∨ ∃ n, post = n :: post' ∧ n.tag = true

theorem Merged.inUse {pre' post' : List Block} {c : Block} (h : Merged pre b post pre' c post') :
    inUse (pre' ++ c :: post') = inUse pre ++ inUse post := by
  have hpre : OS64.inUse pre' = OS64.inUse pre := by
    rcases h.before with ⟨rfl, -⟩ | ⟨p, rfl, hp⟩
    · rfl
    · rw [inUse_append, inUse_free hp, inUse_nil, append_nil]
  have hpost : OS64.inUse post' = OS64.inUse post := by
    rcases h.after with ⟨rfl, -⟩ | ⟨n, rfl, hn⟩
    · rfl
    · rw [inUse_free hn]
  rw [inUse_append, inUse_free h.tag, hpre, hpost]

/-- No two neighbours are both free. -/
def NoFreePair (bs : List Block) : Prop := bs.IsChain (fun b c => ¬ (b.tag = true ∧ c.tag = true))

theorem noFreePair_at : NoFreePair (pre ++ b :: post) ↔ NoFreePair pre ∧ NoFreePair post ∧
    (b.tag = true → (∀ p ∈ pre.getLast?, p.tag = false) ∧ ∀ n ∈ post.head?, n.tag = false) := by
  unfold NoFreePair
  rw [isChain_append, isChain_cons]
  constructor
  · rintro ⟨hpre, ⟨hnext, hpost⟩, hprev⟩
    exact ⟨hpre, hpost, fun hb => ⟨fun p hp => Bool.eq_false_of_not_eq_true (fun h => hprev p hp b rfl ⟨h, hb⟩),
      fun n hn => Bool.eq_false_of_not_eq_true (fun h => hnext n hn ⟨hb, h⟩)⟩⟩
  rintro ⟨hpre, hpost, hb⟩
  refine ⟨hpre, ⟨fun n hn h => ?_, hpost⟩, fun p hp c hc h => ?_⟩
  · rw [(hb h.1).2 n hn] at h
    cases h.2
  · cases hc
    rw [(hb h.2).1 p hp] at h
    cases h.1

/-- **Merging leaves no free pair.** -/
theorem Merged.noFreePair {pre' post' : List Block} {c : Block} (h : Merged pre b post pre' c post')
    (hpre : NoFreePair pre) (hpost : NoFreePair post) : NoFreePair (pre' ++ c :: post') := by
  have hbefore : NoFreePair pre' ∧ ∀ p ∈ pre'.getLast?, p.tag = false := by
    rcases h.before with ⟨rfl, -, hlast⟩ | ⟨p, rfl, hp⟩
    · exact ⟨hpre, hlast⟩
    · obtain ⟨hpre', -, hlast⟩ := noFreePair_at.1 hpre
      exact ⟨hpre', (hlast hp).1⟩
  have hafter : NoFreePair post' ∧ ∀ n ∈ post'.head?, n.tag = false := by
    rcases h.after with ⟨rfl, hhead⟩ | ⟨n, rfl, hn⟩
    · exact ⟨hpost, hhead⟩
    · obtain ⟨-, hpost', hhead⟩ := noFreePair_at.1 (show NoFreePair ([] ++ n :: post') from hpost)
      exact ⟨hpost', (hhead hn).2⟩
  exact noFreePair_at.2 ⟨hbefore.1, hafter.1, fun _ => ⟨hbefore.2, hafter.2⟩⟩

/-- **`coalesce` merges a free block with its neighbours.** -/
theorem coalesce_shape (h : Shape s (pre ++ b :: post)) (hb : b.tag = true) :
    ∃ pre' c post', Merged pre b post pre' c post' ∧ Shape (coalesce s b.addr) (pre' ++ c :: post') ∧
      SamePayloads (inUse pre ++ inUse post) s.mem (coalesce s b.addr).mem := by
  obtain ⟨c, post', hc, htag, hafter, h'⟩ := coalesceNext_shape h
  have heq : coalesce s b.addr = let s := if (header s.mem b.addr).next ≠ 0 ∧
        (header s.mem (header s.mem b.addr).next).free ≠ 0 then s.absorb b.addr (header s.mem b.addr).next else s
      if (header s.mem c.addr).prev ≠ 0 ∧ (header s.mem (header s.mem c.addr).prev).free ≠ 0 then
        s.absorb (header s.mem c.addr).prev c.addr else s := by
    rw [hc]
    unfold coalesce
    rw [if_neg h.addr_ne]
  rw [heq]
  obtain ⟨pre', d, hd, hbefore, h''⟩ := coalescePrev_shape h'.toShape
  have hm : Merged pre b post pre' d post' := ⟨hd (htag.trans hb), by rwa [← hc], hafter⟩
  refine ⟨pre', d, post', hm, h''.toShape,
    SamePayloads.trans (h'.payloads.sub fun x hx => ?_) (h''.payloads.sub fun x hx => ?_)⟩
  · rcases mem_append.1 hx with hx | hx
    · exact mem_append_left _ (mem_inUse.1 hx).1
    · rcases hafter with ⟨rfl, -⟩ | ⟨n, rfl, hn⟩
      · exact mem_append_right _ (.tail _ (mem_inUse.1 hx).1)
      · rw [inUse_free hn] at hx
        exact mem_append_right _ (.tail _ (mem_inUse.1 hx).1)
  · rw [← hm.inUse] at hx
    exact (mem_inUse.1 hx).1

end Heap
end OS64
