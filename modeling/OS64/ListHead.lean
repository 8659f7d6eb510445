import Mathlib.Data.List.Nodup
/-!
# ListHead — the intrusive circular lists of the kernel (`include/kernel/list.h`)

A list is a head and nodes in a circle, each with its successor and predecessor.  `IsList` says that the memory holds
the list of the given nodes; adding and removing a node keep that (`listOps_right`), and a walk of such a list ends with
its nodes (`IsList.forEach`).  Where the successors of some addresses stay among them, a walk that gets there does not
come back to the head (`forEach_stuck`).
-/
namespace OS64

open List

variable {l : List Nat} {node : Nat} {m' : ListMem}

structure ListMem where
  next : Nat → Nat
  prev : Nat → Nat

namespace ListMem

variable {m : ListMem} {b head : Nat} {S : Nat → Prop}

def setNext (m : ListMem) (a v : Nat) : ListMem := { m with next := fun x => if x = a then v else m.next x }

def setPrev (m : ListMem) (a v : Nat) : ListMem := { m with prev := fun x => if x = a then v else m.prev x }

def listInit (m : ListMem) (head : Nat) : ListMem := (m.setNext head head).setPrev head head

def listAdd (m : ListMem) (head node : Nat) : ListMem :=
  let m := m.setNext node (m.next head)
  let m := m.setPrev node head
  let m := m.setPrev (m.next head) node
  m.setNext head node

def listAddTail (m : ListMem) (head node : Nat) : ListMem :=
  let m := m.setNext node head
  let m := m.setPrev node (m.prev head)
  let m := m.setNext (m.prev head) node
  m.setPrev head node

def listDel (m : ListMem) (node : Nat) : ListMem :=
  let m := m.setNext (m.prev node) (m.next node)
  let m := m.setPrev (m.next node) (m.prev node)
  let m := m.setNext node 0
  m.setPrev node 0

/-- `list_for_each` from `pos` on: the nodes met before the head, or `none` when the turns run out. -/
def forEachFrom (m : ListMem) (head : Nat) : Nat → Nat → Option (List Nat)
  | 0, _ => none
  | turns + 1, pos => if pos = head then some [] else (forEachFrom m head turns (m.next pos)).map (pos :: ·)

def listForEach (m : ListMem) (head turns : Nat) : Option (List Nat) := forEachFrom m head turns (m.next head)

/-- From `a`, the nodes `l` follow one another, and then `b`; the predecessors are the same way back. -/
def Chained (m : ListMem) : Nat → List Nat → Nat → Prop
  | a, [], b => m.next a = b ∧ m.prev b = a
  | a, x :: l, b => (m.next a = x ∧ m.prev x = a) ∧ Chained m x l b

/-- **The memory holds the circular list of the nodes `l` behind `head`.** -/
structure IsList (m : ListMem) (head : Nat) (l : List Nat) : Prop where
  chained : m.Chained head l head
  nodup : (head :: l).Nodup

/-! ## Chains -/

theorem chained_append {x : Nat} {q : List Nat} : ∀ {l : List Nat} {a : Nat},
    m.Chained a (l ++ x :: q) b ↔ m.Chained a l x ∧ m.Chained x q b
  | [], _ => Iff.rfl
  | y :: l, a => by
    show _ ∧ m.Chained y (l ++ x :: q) b ↔ _
    rw [chained_append, ← and_assoc]
    rfl

theorem Chained.prev_end : ∀ {l : List Nat} {a : Nat}, m.Chained a l b → m.prev b = l.getLastD a
  | [], _, h => h.2
  | x :: l, a, h => by rw [Chained.prev_end h.2, getLastD_cons]

theorem Chained.congr : ∀ {l : List Nat} {a : Nat}, m.Chained a l b →
    (∀ x ∈ a :: l, m'.next x = m.next x) → (∀ x ∈ l, m'.prev x = m.prev x) → m'.prev b = m.prev b → m'.Chained a l b
  | [], a, h, hn, _, hb => ⟨(hn a (.head _)).trans h.1, hb.trans h.2⟩
  | x :: l, a, h, hn, hp, hb => by
    refine ⟨⟨(hn a (.head _)).trans h.1.1, (hp x (.head _)).trans h.1.2⟩, ?_⟩
    exact Chained.congr h.2 (forall_mem_cons.1 hn).2 (forall_mem_cons.1 hp).2 hb

/-- A chain led to another end: only its last link is new. -/
theorem Chained.redirect {x z : Nat} : ∀ {l : List Nat} {a : Nat}, m.Chained a l x → (a :: l).Nodup →
    (∀ y ∈ a :: l, y ≠ m.prev x → m'.next y = m.next y) → (∀ y ∈ l, m'.prev y = m.prev y) →
    m'.next (m.prev x) = z → m'.prev z = m.prev x → m'.Chained a l z
  | [], a, h, _, _, _, hn, hp => by
    rw [h.2] at hn hp
    exact ⟨hn, hp⟩
  | y :: l, a, h, hnd, hnext, hprev, hn, hp => by
    obtain ⟨hnot, hnd⟩ := nodup_cons.1 hnd
    have hlast : m.prev x ∈ y :: l := h.2.prev_end ▸ getLastD_mem_cons
    refine ⟨⟨(hnext a (.head _) (ne_of_mem_of_not_mem hlast hnot).symm).trans h.1.1, (hprev y (.head _)).trans h.1.2⟩,
      ?_⟩
    exact Chained.redirect h.2 hnd (forall_mem_cons.1 hnext).2 (forall_mem_cons.1 hprev).2 hn hp

theorem isList_nil : m.IsList head [] ↔ m.next head = head ∧ m.prev head = head :=
  ⟨fun h => h.chained, fun h => ⟨h, nodup_singleton head⟩⟩

theorem listInit_isList (m : ListMem) (head : Nat) : (m.listInit head).IsList head [] :=
  isList_nil.2 ⟨if_pos rfl, if_pos rfl⟩

theorem listAddTail_next (m : ListMem) (head node a : Nat) (hne : head ≠ node) : (m.listAddTail head node).next a =
    if a = m.prev head then node else if a = node then head else m.next a := by
  simp only [listAddTail, setNext, setPrev, if_neg hne]

theorem listAddTail_prev (m : ListMem) (head node a : Nat) : (m.listAddTail head node).prev a =
    if a = head then node else if a = node then m.prev head else m.prev a := by
  rfl

/-- **A new node at the tail.** -/
theorem IsList.addTail (h : m.IsList head l) (hnew : node ∉ head :: l) :
    (m.listAddTail head node).IsList head (l ++ [node]) := by
  have hne : head ≠ node := fun heq => hnew (heq ▸ (.head _))
  have hlast := h.chained.prev_end
  have hnext := listAddTail_next m head node
  have hprev := listAddTail_prev m head node
  refine ⟨chained_append.2 ⟨h.chained.redirect h.nodup (fun y hy hyl => ?_) (fun y hy => ?_) ?_ ?_, ?_, ?_⟩, ?_⟩
  · rw [hnext _ hne, if_neg hyl, if_neg (ne_of_mem_of_not_mem hy hnew)]
  · rw [hprev, if_neg (ne_of_mem_of_not_mem hy (nodup_cons.1 h.nodup).1),
      if_neg (ne_of_mem_of_not_mem (mem_cons_of_mem _ hy) hnew)]
  · rw [hnext _ hne, if_pos rfl]
  · rw [hprev, if_neg hne.symm, if_pos rfl]
  · have hnl : node ≠ m.prev head := by
      rw [hlast]
      intro heq
      exact hnew (heq ▸ getLastD_mem_cons)
    rw [hnext _ hne, if_neg hnl, if_pos rfl]
  · rw [hprev, if_pos rfl]
  · exact nodup_append.2 ⟨h.nodup, nodup_singleton node, fun a ha b hb heq => hnew (mem_singleton.1 hb ▸ heq ▸ ha)⟩

/-! ## The operations -/

def mirror (m : ListMem) : ListMem := ⟨m.prev, m.next⟩

theorem Chained.mirror : ∀ {l : List Nat} {a : Nat}, m.Chained a l b → m.mirror.Chained b l.reverse a
  | [], _, h => ⟨h.2, h.1⟩
  | x :: l, a, h => by
    rw [reverse_cons]
    exact chained_append.2 ⟨Chained.mirror h.2, h.1.2, h.1.1⟩

theorem IsList.mirror (h : m.IsList head l) : m.mirror.IsList head l.reverse := by
  refine ⟨h.chained.mirror, ?_⟩
  rw [nodup_cons, mem_reverse, nodup_reverse]
  exact nodup_cons.1 h.nodup

/-- `m'` holds the list `l'` in the place of `l`, and the links of all nodes outside of them are as they were. -/
structure Becomes (m m' : ListMem) (head : Nat) (l l' : List Nat) : Prop where
  isList : m'.IsList head l'
  frame : ∀ a, a ∉ head :: l → a ∉ l' → m'.next a = m.next a ∧ m'.prev a = m.prev a

theorem Becomes.mirror {l' : List Nat} (h : m.Becomes m' head l l') :
    m.mirror.Becomes m'.mirror head l.reverse l'.reverse :=
  ⟨h.isList.mirror, fun a ha hnew => (h.frame a (by simpa using ha) (by simpa using hnew)).symm⟩

theorem becomes_addTail (h : m.IsList head l) (hnew : node ∉ head :: l) :
    m.Becomes (m.listAddTail head node) head l (l ++ [node]) := by
  refine ⟨h.addTail hnew, fun a ha hout => ?_⟩
  have hlast : m.prev head ∈ head :: l := h.chained.prev_end ▸ getLastD_mem_cons
  have han : a ≠ node := fun heq => hout (heq ▸ mem_append_right l (.head _))
  rw [listAddTail_next _ _ _ _ (ne_of_not_mem_cons hnew).symm, listAddTail_prev, if_neg han, if_neg han,
    if_neg (ne_of_mem_of_not_mem hlast ha).symm, if_neg (ne_of_not_mem_cons ha)]
  exact ⟨rfl, rfl⟩

/-- **A new node at the front**: seen in the mirror, it is put at the tail. -/
theorem becomes_add (h : m.IsList head l) (hnew : node ∉ head :: l) :
    m.Becomes (m.listAdd head node) head l (node :: l) := by
  have hne : head ≠ node := (ne_of_not_mem_cons hnew).symm
  have heq : m.listAdd head node = (m.mirror.listAddTail head node).mirror := by
    simp only [listAdd, listAddTail, setNext, setPrev, ListMem.mirror, if_neg hne]
  have hnew' : node ∉ head :: l.reverse := by simpa using hnew
  have hback := (becomes_addTail h.mirror hnew').mirror
  rw [reverse_append, reverse_reverse] at hback
  exact hback

theorem listDel_next (m : ListMem) (node a : Nat) : (m.listDel node).next a =
    if a = node then 0 else if a = m.prev node then m.next node else m.next a := by
  rfl

theorem listDel_prev (m : ListMem) (node a : Nat) : (m.listDel node).prev a =
    if a = node then 0 else if a = m.next node then m.prev node else m.prev a := by
  simp only [listDel, setNext, setPrev, ite_self]

/-- **A node taken out**, wherever it is. -/
theorem becomes_del {p q : List Nat} (h : m.IsList head (p ++ node :: q)) :
    m.Becomes (m.listDel node) head (p ++ node :: q) (p ++ q) := by
  obtain ⟨hp, hq⟩ := chained_append.1 h.chained
  obtain ⟨hndp, hndq, hapart⟩ := nodup_append.1 (show (head :: p ++ node :: q).Nodup from h.nodup)
  obtain ⟨hnode, hndq⟩ := nodup_cons.1 hndq
  have hlast : m.prev node ∈ head :: p := hp.prev_end ▸ getLastD_mem_cons
  have hleft : ∀ y ∈ head :: p, y ≠ node := fun y hy => hapart y hy node (.head _)
  -- the successor is behind the node, or the head again
  have hfirst : m.next node ≠ node ∧ m.next node ∉ p ∧ m.next node ∈ head :: (p ++ node :: q) := by
    cases q with
    | nil =>
      rw [hq.1]
      exact ⟨hleft head (.head _), (nodup_cons.1 hndp).1, .head _⟩
    | cons z q =>
      rw [hq.1.1]
      exact ⟨ne_of_mem_of_not_mem mem_cons_self hnode, fun hz => hapart z (.tail _ hz) z (.tail _ (.head _)) rfl,
        .tail _ (mem_append_right p (.tail _ (.head _)))⟩
  refine ⟨⟨?_, h.nodup.sublist (List.Sublist.append_left (sublist_cons_self node q) (head :: p))⟩, fun a ha _ => ?_⟩
  · have hchain : (m.listDel node).Chained head p (m.next node) := by
      refine hp.redirect hndp (fun y hy hyl => ?_) (fun y hy => ?_) ?_ ?_
      · rw [listDel_next, if_neg (hleft y hy), if_neg hyl]
      · rw [listDel_prev, if_neg (hleft y (.tail _ hy)), if_neg (ne_of_mem_of_not_mem hy hfirst.2.1)]
      · rw [listDel_next, if_neg (hleft _ hlast), if_pos rfl]
      · rw [listDel_prev, if_neg hfirst.1, if_pos rfl]
    cases q with
    | nil =>
      rw [append_nil]
      exact hq.1 ▸ hchain
    | cons z q =>
      rw [hq.1.1] at hchain
      refine chained_append.2 ⟨hchain, hq.2.congr (fun x hx => ?_) (fun x hx => ?_) ?_⟩
      · rw [listDel_next, if_neg (ne_of_mem_of_not_mem hx hnode), if_neg (hapart _ hlast x (.tail _ hx)).symm]
      · rw [listDel_prev, if_neg (ne_of_mem_of_not_mem (mem_cons_of_mem z hx) hnode), hq.1.1,
          if_neg (ne_of_mem_of_not_mem hx (nodup_cons.1 hndq).1)]
      · rw [listDel_prev, if_neg (hleft head (.head _)), hq.1.1, if_neg (hapart head (.head _) z (.tail _ (.head _)))]
  · have han : a ≠ node := fun heq => ha (heq ▸ .tail _ (mem_append_right p (.head _)))
    rw [listDel_next, listDel_prev, if_neg han, if_neg han, if_neg (ne_of_mem_of_not_mem hfirst.2.2 ha).symm,
      if_neg (ne_of_mem_of_not_mem (mem_append_left (node :: q) hlast) ha).symm]
    exact ⟨rfl, rfl⟩

/-- **The operations on a list**: a new node is put at the front or at the back, a member is taken out; the memory then
holds the list of the new sequence, and all nodes outside of it are untouched. -/
theorem listOps_right (m : ListMem) (head : Nat) (l : List Nat) (h : m.IsList head l) :
    (∀ node, node ∉ head :: l → m.Becomes (m.listAdd head node) head l (node :: l) ∧
      m.Becomes (m.listAddTail head node) head l (l ++ [node])) ∧
    ∀ node ∈ l, m.Becomes (m.listDel node) head l (l.erase node) := by
  refine ⟨fun node hnew => ⟨becomes_add h hnew, becomes_addTail h hnew⟩, fun node hmem => ?_⟩
  obtain ⟨p, q, rfl⟩ := append_of_mem hmem
  have hnot : node ∉ p := fun hp => (nodup_append.1 (nodup_cons.1 h.nodup).2).2.2 node hp node (.head _) rfl
  rw [erase_append_right _ hnot, erase_cons_head]
  exact becomes_del h

theorem threeOps : ∃ m₁ m₂ m₃ : ListMem, m₁ = (listInit ⟨fun _ => 0, fun _ => 0⟩ 1).listAdd 1 2 ∧ m₁.IsList 1 [2] ∧
    m₂ = m₁.listAddTail 1 3 ∧ m₂.IsList 1 [2, 3] ∧ m₃ = m₂.listDel 2 ∧ m₃.IsList 1 [3] :=
  have h₁ := ((listOps_right _ 1 [] (listInit_isList _ 1)).1 2 (by decide)).1.isList
  have h₂ := ((listOps_right _ 1 [2] h₁).1 3 (by decide)).2.isList
  ⟨_, _, _, rfl, h₁, rfl, h₂, rfl, ((listOps_right _ 1 [2, 3] h₂).2 2 (by decide)).isList⟩

/-- **The last node added again** is its own successor, and still the last. -/
theorem listAddTail_again (hne : head ≠ node) (hlast : m.prev head = node) :
    (m.listAddTail head node).next node = node ∧ (m.listAddTail head node).next head = m.next head ∧
      (m.listAddTail head node).prev head = node := by
  rw [listAddTail_next m head node node hne, listAddTail_next m head node head hne, listAddTail_prev, hlast, if_pos rfl,
    if_neg hne, if_neg hne, if_pos rfl]
  exact ⟨rfl, rfl, rfl⟩

/-! ## Walks -/

theorem Chained.forEachFrom : ∀ {l : List Nat} {a turns : Nat}, m.Chained a l head →
    head ∉ l → l.length < turns → m.forEachFrom head turns (m.next a) = some l
  | [], a, turns + 1, h, _, _ => by rw [ListMem.forEachFrom, h.1, if_pos rfl]
  | x :: l, a, turns + 1, h, hnot, hlen => by
    have hx : x ≠ head := fun heq => hnot (heq ▸ (.head _))
    rw [ListMem.forEachFrom, h.1.1, if_neg hx,
      Chained.forEachFrom h.2 (fun hl => hnot (.tail _ hl)) (Nat.lt_of_succ_lt_succ hlen)]
    rfl

/-- **A walk of a list ends**, with its nodes in order. -/
theorem IsList.forEach (h : m.IsList head l) {turns : Nat}
    (hlen : l.length < turns) : m.listForEach head turns = some l :=
  h.chained.forEachFrom (nodup_cons.1 h.nodup).1 hlen

theorem forEachFrom_stuck (hS : ∀ a, S a → S (m.next a)) (hhead : ¬ S head) :
    ∀ (turns : Nat) {pos : Nat}, S pos → m.forEachFrom head turns pos = none
  | 0, _, _ => rfl
  | turns + 1, pos, hpos => by
    have hne : pos ≠ head := fun heq => hhead (heq ▸ hpos)
    rw [forEachFrom, if_neg hne, forEachFrom_stuck hS hhead turns (hS pos hpos)]
    rfl

/-- **A walk that cannot come back**: the head's successor is among addresses whose successors are, and the head is
not. -/
theorem forEach_stuck (hS : ∀ a, S a → S (m.next a)) (hhead : ¬ S head)
    (hfirst : S (m.next head)) (turns : Nat) : m.listForEach head turns = none :=
  forEachFrom_stuck hS hhead turns hfirst

theorem not_isList_of_stuck (hS : ∀ a, S a → S (m.next a)) (hhead : ¬ S head)
    (hfirst : S (m.next head)) (l : List Nat) : ¬ m.IsList head l := fun h => by
  have hend := h.forEach (Nat.lt_succ_self l.length)
  rw [forEach_stuck hS hhead hfirst] at hend
  cases hend

end ListMem
end OS64
