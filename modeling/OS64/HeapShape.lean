import OS64.Cells
import OS64.HeapHeader
/-!
# HeapShape — the block list of the heap: what it is, and that every edit keeps it one

`Shape s bs`: the headers in memory, followed from `heap_head`, are the blocks `bs`; they tile the heap.  Each edit of
the source is a splice of that list.
-/
namespace OS64

open List Cell

variable {post pre bs : List Block} {s : Heap} {m m' : Mem} {b : Block}

/-- A block: its address, the size of its payload, and whether it is free. -/
abbrev Block := Cell Bool

/-- The header at the block's address says so, and names its neighbours. -/
def Recorded (m : Mem) (b : Block) (prev next : Nat) : Prop :=
  header m b.addr = ⟨blockMagic, b.size, b.tag.toNat, prev, next⟩

namespace Heap

/-- **The heap is the list `bs` of blocks.** -/
structure Shape (s : Heap) (bs : List Block) : Prop where
  linked : Cell.Linked (Recorded s.mem) 0 bs 0
  tiles : Cell.Tiles headerSize s.startVirt bs s.endVirt
  nonempty : bs ≠ []
  head : s.head = s.startVirt
  tail : s.tail = Cell.last 0 bs
  start : s.startVirt ≠ 0
  size : s.startVirt + s.currentSize = s.endVirt
  fits : s.endVirt < 18446744073709551616
  room : s.startVirt + heapMaxSize < 18446744073709551616
  small : s.currentSize ≤ 4611686018427387904

theorem recorded_keep {as : List Nat} (h : SameOff as m m') (hb : ∀ a ∈ as, Away a b.addr)
    (p n : Nat) (hr : Recorded m b p n) : Recorded m' b p n := by
  unfold Recorded
  rwa [h.header hb]

section Places

variable {s : Heap} {pre post : List Block} {b : Block}

section
variable (h : Shape s (pre ++ b :: post))
include h

theorem Shape.header_at : header s.mem b.addr = ⟨blockMagic, b.size, b.tag.toNat, Cell.last 0 pre, Cell.first post 0⟩ :=
  (linked_append.1 h.linked).2.1

theorem Shape.bounds : s.startVirt ≤ b.addr ∧ b.addr + headerSize + b.size ≤ s.endVirt :=
  h.tiles.mem.2 b (mem_append_right _ (.head _))

theorem Shape.before {c : Block} (hc : c ∈ pre) : c.addr + headerSize + c.size ≤ b.addr :=
  (pairwise_append.1 h.tiles.pairwise).2.2 c hc b (.head _)

theorem Shape.after {c : Block} (hc : c ∈ post) : b.addr + headerSize + b.size ≤ c.addr :=
  (pairwise_cons.1 (pairwise_append.1 h.tiles.pairwise).2.1).1 c hc

theorem Shape.first_post (hne : Cell.first post 0 ≠ 0) :
    Cell.first post 0 = b.addr + headerSize + b.size ∧ Cell.first post 0 < s.endVirt := by
  obtain ⟨mid, -, hrest⟩ := tiles_append.1 h.tiles
  have haddr : b.addr = mid := hrest.1
  cases post with
  | nil => exact absurd rfl hne
  | cons c rest =>
    have hc : c.addr = mid + headerSize + b.size := hrest.2.1
    have hmem := (hrest.2.mem).2 c (.head _)
    rw [first_cons, hc, haddr]
    exact ⟨rfl, by have : headerSize = 40 := rfl; omega⟩

theorem Shape.addr_ne : b.addr ≠ 0 := by
  have := h.bounds
  have := h.start
  omega

end

theorem last_of_mem (p : Nat) (pre : List Block) (b : Block) (post : List Block) :
    Cell.last p (pre ++ b :: post) = Cell.last b.addr post := by
  rw [last_append, last_cons]

theorem Shape.tail_eq (h : Shape s (pre ++ b :: post)) : s.tail = b.addr ↔ post = [] := by
  rw [h.tail, last_of_mem]
  constructor
  · intro hl
    rcases eq_nil_or_concat' post with rfl | ⟨init, c, rfl⟩
    · rfl
    · rw [last_concat] at hl
      have := h.after (c := c) (by simp)
      have : headerSize = 40 := rfl
      omega
  · rintro rfl
    rfl

theorem Shape.tail_of_ne (h : Shape s (pre ++ b :: post)) (hp : post ≠ []) : s.tail = Cell.last 0 post := by
  rw [h.tail, last_of_mem]
  exact last_of_ne hp _ _

end Places

/-! ## The edits -/

/-- What an edit makes of a heap: a list of blocks again, with the memory outside their headers as it was. -/
structure Became (s s' : Heap) (bs : List Block) : Prop extends Shape s' bs where
  off : SameOff (bs.map Cell.addr) s.mem s'.mem

/-- **An edit of neighbouring blocks keeps the shape**, when the new blocks cover what the old ones did, record one
another, and the block after them is linked back to the last of them. -/
theorem Shape.edit {s' : Heap} {y : Block} {as : List Nat} (ys ys' : List Block)
    (h : Shape s (pre ++ (y :: ys ++ post))) (hs : s' = { s with mem := s'.mem, tail := s'.tail })
    (hoff : SameOff as s.mem s'.mem) (has : ∀ a ∈ as, ∃ c ∈ ys' ++ post.take 1, c.addr = a)
    (hpost : ∀ c rest, post = c :: rest →
      header s'.mem c.addr = { header s.mem c.addr with prev := Cell.last (Cell.last 0 pre) (ys') })
    (hys : Cell.Linked (Recorded s'.mem) (Cell.last 0 pre) ys' (Cell.first post 0))
    (hfirst : Cell.first ys' (Cell.first post 0) = y.addr)
    (htiles : ∀ a b, Cell.Tiles headerSize a (y :: ys) b → Cell.Tiles headerSize a ys' b)
    (htail : s'.tail = Cell.last 0 (pre ++ (ys' ++ post))) (hne : ys' ≠ []) : Became s s' (pre ++ (ys' ++ post)) := by
  have hst : s'.startVirt = s.startVirt ∧ s'.endVirt = s.endVirt ∧ s'.currentSize = s.currentSize ∧
      s'.head = s.head := by
    rw [hs]
    exact ⟨rfl, rfl, rfl, rfl⟩
  obtain ⟨lo, hlo, hmid⟩ := tiles_append.1 h.tiles
  obtain ⟨mid, hold, hhi⟩ := tiles_append.1 hmid
  have hnew := (htiles lo mid hold).mem
  -- what is written lies between the blocks before and the second block after
  have hrange : ∀ a ∈ as, lo ≤ a ∧ a ≤ mid := fun a ha => by
    obtain ⟨c, hc, rfl⟩ := has a ha
    rcases mem_append.1 hc with hc | hc
    · have := hnew.2 c hc
      omega
    cases post with
    | nil => cases hc
    | cons d rest =>
      have hd : d.addr = mid := hhi.1
      rw [mem_singleton.1 hc]
      exact ⟨by omega, by omega⟩
  have hpre : ∀ c ∈ pre, ∀ a ∈ as, Away a c.addr := fun c hc a ha => by
    have := hlo.mem.2 c hc
    have := hrange a ha
    exact .inr (by omega)
  have hrest : ∀ c rest, post = c :: rest → ∀ d ∈ rest, ∀ a ∈ as, Away a d.addr := fun c rest hcr d hd a ha => by
    subst hcr
    have := hhi.2.mem.2 d hd
    have := hrange a ha
    exact .inl (by omega)
  refine ⟨⟨?_, ?_, by simp [hne], ?_, htail, ?_, ?_, ?_, ?_, ?_⟩, hoff.weaken (fun a ha => ?_)⟩
  · refine Cell.Linked.splice h.linked hfirst (fun c hc p n => recorded_keep hoff (hpre c hc) p n) hys ?_
      (fun c rest hcr d hd p n => recorded_keep hoff (hrest c rest hcr d hd) p n)
    intro c rest hcr n hr
    unfold Recorded at hr ⊢
    rw [hpost c rest hcr, hr]
  · rw [hst.1, hst.2.1]
    exact h.tiles.splice htiles
  · rw [hst.1, hst.2.2.2]
    exact h.head
  · rw [hst.1]; exact h.start
  · rw [hst.1, hst.2.1, hst.2.2.1]; exact h.size
  · rw [hst.2.1]; exact h.fits
  · rw [hst.1]; exact h.room
  · rw [hst.2.2.1]; exact h.small
  · obtain ⟨c, hc, rfl⟩ := has a ha
    refine mem_map_of_mem (mem_append_right _ ?_)
    exact (mem_append.1 hc).elim (mem_append_left _) (fun hc => mem_append_right _ (mem_of_mem_take hc))

theorem mem_relinked {a : Nat} (h : a ∈ if Cell.first post 0 = 0 then [] else [Cell.first post 0]) :
    ∃ c ∈ post.take 1, c.addr = a := by
  cases post with
  | nil => cases h
  | cons c rest =>
    by_cases h0 : c.addr = 0
    · rw [first_cons, if_pos h0] at h
      cases h
    · rw [first_cons, if_neg h0] at h
      exact ⟨c, mem_singleton.2 rfl, (mem_singleton.1 h).symm⟩

theorem tail_splice {t : Nat} {ys : List Block} {u : Nat} (hne : post ≠ [] → t = Cell.last 0 post)
    (heq : post = [] → t = Cell.last u ys) (hys : ys ≠ []) : t = Cell.last 0 (pre ++ (ys ++ post)) := by
  rw [last_append, last_append]
  by_cases hp : post = []
  · rw [heq hp, hp]
    exact last_of_ne hys _ _
  · rw [hne hp]
    exact last_of_ne hp _ _

/-- The block behind `b`, if there is one, starts where `b` ends. -/
theorem Shape.behind (h : Shape s (pre ++ b :: post)) : Cell.first post 0 < 2 ^ 64 ∧
    (Cell.first post 0 ≠ 0 → b.addr + headerSize + (header s.mem b.addr).size ≤ Cell.first post 0) := by
  refine ⟨?_, fun h0 => ?_⟩
  · by_cases h0 : Cell.first post 0 = 0
    · omega
    · have := (h.first_post h0).2
      have := h.fits
      omega
  · rw [h.header_at]
    exact Nat.le_of_eq (h.first_post h0).1.symm

/-- `split_block` cuts the block when the rest is worth it. -/
def cut (b : Block) (req : Nat) : List Block :=
  if req + minSplitSize ≤ b.size then
    [⟨b.addr, req, b.tag⟩, ⟨b.addr + headerSize + req, b.size - req - headerSize, true⟩]
  else [b]

theorem splitBlock_shape (h : Shape s (pre ++ b :: post)) (req : Nat)
    (hreq : req + 8192 < 13835058055282163712) : Became s (splitBlock s b.addr req) (pre ++ (cut b req ++ post)) := by
  have hhdr : headerSize = 40 := rfl
  have hmin : minSplitSize = 48 := rfl
  have hat := h.header_at
  have hb := h.bounds
  have hfits := h.fits
  have hsz : (header s.mem b.addr).size = b.size := by rw [hat]
  unfold cut
  by_cases hcut : req + minSplitSize ≤ b.size
  · rw [if_pos hcut]
    obtain ⟨h1, h2, h3, hoff, hs'⟩ := splitBlock_mem (Cell.first post 0) h.addr_ne (by rw [hat])
      (by rwa [hsz]) (by omega) h.behind.1 h.behind.2
    rw [hsz] at h2
    refine Shape.edit [] _ h (by rw [hs']) hoff (fun a ha => ?_) (fun c rest hcr => ?_)
      ⟨?_, ?_, trivial⟩ rfl ?_ (tail_splice (u := 0) (fun hp => ?_) (fun hp => ?_) (by simp)) (by simp)
    · rcases mem_append.1 ha with ha | ha
      · rcases mem_cons.1 ha with rfl | ha
        · exact ⟨_, mem_append_left _ (.tail _ (.head _)), rfl⟩
        · obtain ⟨c, hc, hca⟩ := mem_relinked ha
          exact ⟨c, mem_append_right _ hc, hca⟩
      · exact ⟨_, mem_append_left _ (.head _), (mem_singleton.1 ha).symm⟩
    · have hc : Cell.first post 0 = c.addr := by rw [hcr]; rfl
      have hc0 : b.addr + headerSize + b.size ≤ c.addr := h.after (by rw [hcr]; exact .head _)
      rw [← hc]
      exact h3 (by omega)
    · unfold Recorded
      rw [h1, hat]
      rfl
    · unfold Recorded
      rw [h2]
      rfl
    · rintro lo hi ⟨ha, hhi⟩
      have hhi' : lo + headerSize + b.size = hi := hhi
      have ha' : b.addr = lo := ha
      exact ⟨ha', by show b.addr + headerSize + req = lo + headerSize + req; omega,
        by show lo + headerSize + req + headerSize + (b.size - req - headerSize) = hi; omega⟩
    · have hne : s.tail ≠ b.addr := fun ht => hp (h.tail_eq.1 ht)
      rw [hs']
      simp only [if_neg hne]
      exact h.tail_of_ne hp
    · rw [hs']
      simp only [if_pos (h.tail_eq.2 hp)]
      rfl
  · rw [if_neg hcut]
    have hsame : splitBlock s b.addr req = s := by
      unfold splitBlock
      rw [if_neg h.addr_ne, if_pos (by rw [u64_of_lt (by omega)]; omega)]
    rw [hsame]
    exact ⟨h, fun _ _ => rfl⟩

theorem setFree_shape (h : Shape s (pre ++ b :: post)) (f : Bool) :
    Became s { s with mem := setFree s.mem b.addr f.toNat } (pre ++ (⟨b.addr, b.size, f⟩ :: post)) := by
  have hoff := sameOff_setFree (a := b.addr) s.mem f.toNat
  refine Shape.edit [] [⟨b.addr, b.size, f⟩] h rfl hoff
    (fun a ha => ⟨_, mem_append_left _ (.head _), (mem_singleton.1 ha).symm⟩) (fun c rest hcr => ?_)
    ⟨?_, trivial⟩ rfl (fun lo hi ht => ht) ?_ (by simp)
  · have := h.after (by rw [hcr]; exact .head _)
    have hc : header (setFree s.mem b.addr f.toNat) c.addr = header s.mem c.addr := header_away hoff (.inl (by omega))
    have hlink := h.linked
    rw [hcr, append_cons, linked_append] at hlink
    have hrec : Recorded s.mem c (Cell.last 0 (pre ++ [b])) _ := hlink.2.1
    rw [last_concat] at hrec
    rw [hc, hrec]
    rfl
  · unfold Recorded
    rw [header_setFree, h.header_at, u32_of_lt (by cases f <;> decide)]
    rfl
  · show s.tail = Cell.last 0 (pre ++ (⟨b.addr, b.size, f⟩ :: post))
    rw [h.tail, last_of_mem, last_of_mem]

theorem absorb_shape {p n : Block} (h : Shape s (pre ++ p :: n :: post)) :
    Became s (absorb s p.addr n.addr) (pre ++ (⟨p.addr, p.size + headerSize + n.size, p.tag⟩ :: post)) := by
  have hhdr : headerSize = 40 := rfl
  have hp := h.header_at
  have hn' : Shape s ((pre ++ [p]) ++ n :: post) := by rwa [← append_cons]
  have hn := hn'.header_at
  have hfits := h.fits
  have hbn := hn'.bounds
  have hpsz : (header s.mem p.addr).size = p.size := by rw [hp]
  have hnsz : (header s.mem n.addr).size = n.size := by rw [hn]
  have hpn : p.addr + headerSize + p.size = n.addr := by
    have := h.first_post (by exact hn'.addr_ne)
    exact this.1.symm
  obtain ⟨h1, h2, hoff, hs'⟩ := absorb_mem (Cell.first post 0) (by rw [hn])
    (by rwa [hpsz]) (by omega) hn'.behind.1 hn'.behind.2
  refine Shape.edit [n] [⟨p.addr, p.size + headerSize + n.size, p.tag⟩] h (by rw [hs']) hoff
    (fun a ha => ?_) (fun c rest hcr => ?_) ⟨?_, trivial⟩ rfl ?_
    (tail_splice (u := 0) (fun hpost => ?_) (fun hpost => ?_) (by simp)) (by simp)
  · rcases mem_cons.1 ha with rfl | ha
    · exact ⟨_, mem_append_left _ (.head _), rfl⟩
    · obtain ⟨c, hc, hca⟩ := mem_relinked ha
      exact ⟨c, mem_append_right _ hc, hca⟩
  · have hc : Cell.first post 0 = c.addr := by rw [hcr]; rfl
    have hc0 := hn'.after (by rw [hcr]; exact .head _)
    rw [← hc]
    exact h2 (by omega)
  · unfold Recorded
    rw [h1, hp, hn]
    rfl
  · rintro lo hi ⟨ha, ha', hhi⟩
    have hlo : p.addr = lo := ha
    have hhi' : lo + headerSize + p.size + headerSize + n.size = hi := hhi
    exact ⟨hlo, by show lo + headerSize + (p.size + headerSize + n.size) = hi; omega⟩
  · have hne : s.tail ≠ n.addr := fun ht => hpost (hn'.tail_eq.1 ht)
    rw [hs']
    simp only [if_neg hne]
    exact hn'.tail_of_ne hpost
  · rw [hs']
    simp only [if_pos (hn'.tail_eq.2 hpost)]
    rfl

/-! ## The payloads -/

/-- The payloads of the blocks hold the bytes they held. -/
def SamePayloads (bs : List Block) (m m' : Mem) : Prop :=
  ∀ b ∈ bs, ∀ x, b.addr + headerSize ≤ x → x < b.addr + headerSize + b.size → m' x = m x

theorem SamePayloads.trans {m'' : Mem} (h : SamePayloads bs m m') (h' : SamePayloads bs m' m'') :
    SamePayloads bs m m'' := fun b hb x hx hx' => (h' b hb x hx hx').trans (h b hb x hx hx')

theorem SamePayloads.sub {cs : List Block} (h : SamePayloads bs m m') (hsub : ∀ b ∈ cs, b ∈ bs) :
    SamePayloads cs m m' := fun b hb => h b (hsub b hb)

section
variable {s : Heap} {bs : List Block} {b c : Block}

section
variable (h : Shape s bs) (hb : b ∈ bs) (hc : c ∈ bs)
include h hb hc

theorem Shape.apart (hne : c ≠ b) : c.addr + headerSize + c.size ≤ b.addr ∨ b.addr + headerSize + b.size ≤ c.addr := by
  obtain ⟨pre, post, rfl⟩ := append_of_mem hb
  rcases mem_append.1 hc with hc | hc
  · exact .inl (h.before hc)
  · rcases mem_cons.1 hc with rfl | hc
    · exact absurd rfl hne
    · exact .inr (h.after hc)

theorem Shape.unique (heq : c.addr = b.addr) : c = b := by
  by_contra hne
  have := h.apart hb hc hne
  have : headerSize = 40 := rfl
  omega

theorem Shape.spares {x : Nat} (hx : c.addr ≤ x)
    (hx' : x < c.addr + headerSize) : x < b.addr + headerSize ∨ b.addr + headerSize + b.size ≤ x := by
  by_cases hne : c = b
  · exact .inl (hne ▸ hx')
  · have := h.apart hb hc hne
    omega

end

end

/-- **An edit keeps the payloads of the blocks it leaves.** -/
theorem Became.payloads {s' : Heap} (h : Became s s' bs) : SamePayloads bs s.mem s'.mem := by
  intro b hb x hx hx'
  refine h.off x (fun a ha => ?_)
  obtain ⟨c, hc, rfl⟩ := mem_map.1 ha
  by_contra hin
  have := h.spares hb hc (x := x) (by omega) (by omega)
  omega

end Heap
end OS64
