import OS64.PageUser
/-!
# PageTeardown — the end of a user task's page tables

`paging_destroy_user_task` frees the tables behind the lower half of the PML4 and every page that is mapped there
(`destroy_frees`), also those that the creation did not take.  So creation and destruction leave the page allocator as
it was just when no page of the user's memory was in use before and no table of the upper half is left
(`teardown_iff`).
-/
namespace OS64

open List Nat
namespace Paging

/-! ## What is freed -/

/-- The addresses that are freed behind a table with `n` entries, and its own. -/
def nodeFrees (m : Mem) (sub : Nat → List Nat) (n c : Nat) : List Nat :=
  (List.range n).flatMap (fun i =>
    if present (load m (c + 8 * i) 8) then sub (frameOf (load m (c + 8 * i) 8)) else []) ++ [c]

def ptFrees (m : Mem) (c : Nat) : List Nat := nodeFrees m (fun f => [f]) 512 c

def pdFrees (m : Mem) (c : Nat) : List Nat := nodeFrees m (ptFrees m) 512 c

def pdptFrees (m : Mem) (c : Nat) : List Nat := nodeFrees m (pdFrees m) 512 c

theorem nodeLoop_eq {m : Mem} {f : Pmm → Nat → Pmm} {sub : Nat → List Nat} {n c : Nat} (h : ∀ pmm i, i < n → f pmm i =
      (if present (load m (c + 8 * i) 8) then sub (frameOf (load m (c + 8 * i) 8)) else []).foldl Pmm.pmmFreePage pmm)
    (pmm : Pmm) : ((List.range n).foldl f pmm).pmmFreePage c = (nodeFrees m sub n c).foldl Pmm.pmmFreePage pmm := by
  have hloop : ∀ l : List Nat, (∀ i ∈ l, i < n) → ∀ pmm, l.foldl f pmm =
      (l.flatMap (fun i => if present (load m (c + 8 * i) 8) then sub (frameOf (load m (c + 8 * i) 8)) else [])).foldl
        Pmm.pmmFreePage pmm := fun l => by
    induction l with
    | nil => exact fun _ _ => rfl
    | cons i l ih =>
      intro hl pmm
      rw [flatMap_cons, foldl_append, ← h pmm i (hl i (.head _))]
      exact ih (fun j hj => hl j (mem_cons_of_mem i hj)) _
  unfold nodeFrees
  rw [foldl_append, hloop _ (fun i hi => mem_range.1 hi)]
  rfl

theorem freePt_eq (m : Mem) (pmm : Pmm) (c : Nat) : freePt m pmm c = (ptFrees m c).foldl Pmm.pmmFreePage pmm := by
  refine nodeLoop_eq (fun pmm i _ => ?_) pmm
  split <;> rfl

section Tree

variable {m : Mem} {tab : List Nat → Option Nat} {mapped : List (List Nat)} {path : List Nat} {a b c i : Nat}

theorem Tree.prefix_table (h : Tree m tab mapped) : ∀ (rest path : List Nat), tab (path ++ rest) = some a →
    ∃ b, tab path = some b
  | [], path, ha => ⟨a, by rw [append_nil] at ha; exact ha⟩
  | i :: rest, path, ha => by
    have hsplit : path ++ i :: rest = (path ++ [i]) ++ rest := by rw [append_assoc]; rfl
    rw [hsplit] at ha
    obtain ⟨b, hb⟩ := Tree.prefix_table h rest (path ++ [i]) ha
    exact h.up path i b hb

section
variable (h : Tree m tab mapped) (hc : tab path = some c)
include h hc

theorem Tree.entry (hlen : path.length < 3) (hi : i < 512) :
    (tab (path ++ [i]) = none ∧ present (load m (c + 8 * i) 8) = false) ∨
    (∃ b, tab (path ++ [i]) = some b ∧ present (load m (c + 8 * i) 8) = true ∧ huge (load m (c + 8 * i) 8) = false ∧
      frameOf (load m (c + 8 * i) 8) = b) := by
  have hslot := h.node path c i hc hlen hi
  cases hb : tab (path ++ [i]) with
  | none =>
    rw [hb] at hslot
    exact .inl ⟨rfl, hslot⟩
  | some b =>
    rw [hb] at hslot
    have haddr := h.addr _ b hb
    exact .inr ⟨b, rfl, hslot.read haddr.1 (by omega)⟩

theorem freePd_eq (hlen : path.length < 3) (pmm : Pmm) : freePd m pmm c = (pdFrees m c).foldl Pmm.pmmFreePage pmm := by
  refine nodeLoop_eq (fun pmm i hi => ?_) pmm
  simp only
  rcases h.entry hc hlen hi with ⟨-, hp⟩ | ⟨b, -, hp, hh, -⟩
  · rw [hp]
    rfl
  · rw [hp, hh, if_pos (show (true && !false) = true from rfl)]
    exact freePt_eq m pmm _

theorem freePdpt_eq (hlen : path.length < 2) (pmm : Pmm) :
    freePdpt m pmm c = (pdptFrees m c).foldl Pmm.pmmFreePage pmm := by
  refine nodeLoop_eq (fun pmm i hi => ?_) pmm
  rcases h.entry hc (by omega) hi with ⟨-, hp⟩ | ⟨b, hb, hp, -, hf⟩
  · rw [hp]
    rfl
  · rw [hp, hf, if_pos rfl]
    exact freePd_eq h hb (by rw [length_append]; exact succ_lt_succ hlen) pmm

end

/-- **What `paging_destroy_user_task` frees.** -/
theorem destroy_frees {s : Machine} {root : Nat} (h : Tree s.mem tab mapped) (hroot : tab [] = some root) :
    (pagingDestroyUserTask s root).pmm = (nodeFrees s.mem (pdptFrees s.mem) 256 root).foldl Pmm.pmmFreePage s.pmm := by
  unfold pagingDestroyUserTask
  rw [if_neg (h.addr _ _ hroot).2.1]
  dsimp only
  refine nodeLoop_eq (fun pmm i hi => ?_) s.pmm
  rcases h.entry hroot (by decide) (show i < 512 by omega) with ⟨-, hp⟩ | ⟨b, hb, hp, -, hf⟩
  · rw [hp]
    rfl
  · rw [hp, hf, if_pos rfl]
    exact freePdpt_eq h hb (show 1 < 2 by decide) pmm

def Under (tab : List Nat → Option Nat) (mapped : List (List Nat)) (path : List Nat) (a : Nat) : Prop :=
  (∃ rest, tab (path ++ rest) = some a) ∨ ∃ rest, path ++ rest ∈ mapped ∧ a = addrOf (path ++ rest)

theorem Tree.under_iff (h : Tree m tab mapped) (hc : tab path = some c) (hlen : path.length < 3) :
    Under tab mapped path a ↔ a = c ∨ ∃ i, i < 512 ∧ (∃ b, tab (path ++ [i]) = some b) ∧
      Under tab mapped (path ++ [i]) a := by
  have hsplit : ∀ (i : Nat) (rest : List Nat), path ++ i :: rest = (path ++ [i]) ++ rest := fun i rest => by
    rw [append_assoc]
    rfl
  constructor
  · rintro (⟨rest, hrest⟩ | ⟨rest, hrest, rfl⟩)
    · cases rest with
      | nil =>
        rw [append_nil, hc, Option.some.injEq] at hrest
        exact .inl hrest.symm
      | cons i rest =>
        rw [hsplit] at hrest
        obtain ⟨b, hb⟩ := h.prefix_table rest _ hrest
        have hi : i < 512 := (h.short _ b hb).2 i (mem_append_right _ (mem_singleton_self i))
        exact .inr ⟨i, hi, ⟨b, hb⟩, .inl ⟨rest, hrest⟩⟩
    · obtain ⟨va, hva, d, hd⟩ := h.leaf _ hrest
      cases rest with
      | nil =>
        have := congrArg List.length hva
        rw [append_nil] at this
        change path.length = 4 at this
        omega
      | cons i rest =>
        -- the path of the page goes through the entry, whose table is there
        have hb : ∃ b, tab (path ++ [i]) = some b := by
          rw [hsplit] at hva
          rcases eq_nil_or_concat rest with rfl | ⟨rest', l, rfl⟩
          · have := congrArg List.length hva
            rw [append_nil, length_append] at this
            change path.length + 1 = 4 at this
            omega
          · rw [concat_eq_append, ← append_assoc] at hva
            obtain ⟨hpath, -⟩ := append_inj' hva rfl
            exact h.prefix_table rest' _ (hpath ▸ hd)
        obtain ⟨b, hb⟩ := hb
        have hi : i < 512 := (h.short _ b hb).2 i (mem_append_right _ (mem_singleton_self i))
        rw [hsplit] at hrest ⊢
        exact .inr ⟨i, hi, ⟨b, hb⟩, .inr ⟨rest, hrest, rfl⟩⟩
  · rintro (rfl | ⟨i, -, -, ⟨rest, hrest⟩ | ⟨rest, hrest, rfl⟩⟩)
    · exact .inl ⟨[], by rwa [append_nil]⟩
    · exact .inl ⟨i :: rest, by rwa [hsplit]⟩
    · exact .inr ⟨i :: rest, by rwa [hsplit], congrArg addrOf (hsplit i rest).symm⟩

theorem mem_nodeFrees {sub : Nat → List Nat} {n : Nat} : a ∈ nodeFrees m sub n c ↔
    a = c ∨ ∃ i, i < n ∧ present (load m (c + 8 * i) 8) = true ∧ a ∈ sub (frameOf (load m (c + 8 * i) 8)) := by
  unfold nodeFrees
  rw [mem_append, mem_singleton, mem_flatMap, or_comm]
  refine or_congr_right (exists_congr (fun i => ?_))
  rw [mem_range]
  refine and_congr_right (fun _ => ?_)
  cases present (load m (c + 8 * i) 8) with
  | true => exact (and_iff_right rfl).symm
  | false => exact ⟨fun h => absurd h not_mem_nil, fun h => absurd h.1 Bool.false_ne_true⟩

section
variable (h : Tree m tab mapped) (hc : tab path = some c)
include h hc

theorem Tree.mem_frees (hlen : path.length < 3) {sub : Nat → List Nat}
    (hsub : ∀ i b, i < 512 → tab (path ++ [i]) = some b → ∀ a, a ∈ sub b ↔ Under tab mapped (path ++ [i]) a) {n : Nat}
    (hn : n ≤ 512) : a ∈ nodeFrees m sub n c ↔
      a = c ∨ ∃ i, i < n ∧ (∃ b, tab (path ++ [i]) = some b) ∧ Under tab mapped (path ++ [i]) a := by
  rw [mem_nodeFrees]
  refine or_congr_right (exists_congr (fun i => and_congr_right (fun hi => ?_)))
  have hi : i < 512 := hi.trans_le hn
  rcases h.entry hc hlen hi with ⟨hnone, hp⟩ | ⟨b, hb, hp, -, hf⟩
  · rw [hp, hnone]
    exact ⟨fun h => absurd h.1 Bool.false_ne_true, fun h => absurd h.1.choose_spec (nofun)⟩
  · rw [hp, hf, hsub i b hi hb, hb]
    exact ⟨fun h => ⟨⟨b, rfl⟩, h.2⟩, fun h => ⟨rfl, h.2⟩⟩

theorem Tree.mem_ptFrees (hlen : path.length = 3) : a ∈ ptFrees m c ↔ Under tab mapped path a := by
  unfold ptFrees
  rw [mem_nodeFrees]
  have hslot : ∀ i, i < 512 → (path ++ [i] ∈ mapped ∧ present (load m (c + 8 * i) 8) = true ∧
      frameOf (load m (c + 8 * i) 8) = addrOf (path ++ [i])) ∨
      (path ++ [i] ∉ mapped ∧ present (load m (c + 8 * i) 8) = false) := fun i hi => by
    have hs := h.last path c i hc hlen hi
    by_cases hm : path ++ [i] ∈ mapped
    · rw [if_pos hm] at hs
      obtain ⟨va, hva, -⟩ := h.leaf _ hm
      have hread := hs.read (by rw [hva, addrOf_path]; omega) (by rw [hva, addrOf_path]; omega)
      exact .inl ⟨hm, hread.1, hread.2.2⟩
    · rw [if_neg hm] at hs
      exact .inr ⟨hm, hs⟩
  constructor
  · rintro (rfl | ⟨i, hi, hp, ha⟩)
    · exact .inl ⟨[], by rwa [append_nil]⟩
    · rcases hslot i hi with ⟨hm, -, hf⟩ | ⟨-, hno⟩
      · exact .inr ⟨[i], hm, (mem_singleton.1 ha).trans hf⟩
      · rw [hno] at hp
        cases hp
  · rintro (⟨rest, hrest⟩ | ⟨rest, hrest, rfl⟩)
    · have hshort := (h.short _ a hrest).1
      rw [length_append, hlen] at hshort
      obtain rfl : rest = [] := length_eq_zero_iff.1 (by omega)
      rw [append_nil, hc, Option.some.injEq] at hrest
      exact .inl hrest.symm
    obtain ⟨va, hva, -⟩ := h.leaf _ hrest
    obtain ⟨hpath, rfl⟩ := append_inj hva hlen
    have hi : ptIndex va < 512 := mod_lt _ (by decide)
    rcases hslot _ hi with ⟨-, hp, hf⟩ | ⟨hno, -⟩
    · exact .inr ⟨_, hi, hp, mem_singleton.2 hf.symm⟩
    · exact absurd hrest hno

theorem Tree.mem_pdFrees (hlen : path.length = 2) : a ∈ pdFrees m c ↔ Under tab mapped path a := by
  rw [h.under_iff hc (by omega)]
  exact h.mem_frees hc (by omega) (fun i b _ hb a => h.mem_ptFrees hb (by rw [length_append, hlen]; rfl)) le_rfl

theorem Tree.mem_pdptFrees (hlen : path.length = 1) : a ∈ pdptFrees m c ↔ Under tab mapped path a := by
  rw [h.under_iff hc (by omega)]
  exact h.mem_frees hc (by omega) (fun i b _ hb a => h.mem_pdFrees hb (by rw [length_append, hlen]; rfl)) le_rfl

end

/-- **The freed addresses**: the PML4, and the tables and the mapped pages of the lower half. -/
theorem Tree.mem_rootFrees {root : Nat} (h : Tree m tab mapped) (hroot : tab [] = some root) :
    a ∈ nodeFrees m (pdptFrees m) 256 root ↔ (∃ path, tab path = some a ∧ path.headD 0 < 256) ∨
      ∃ path, path ∈ mapped ∧ path.headD 0 < 256 ∧ a = addrOf path := by
  rw [h.mem_frees hroot (by decide) (fun i b _ hb a => h.mem_pdptFrees hb rfl) (by decide)]
  constructor
  · rintro (rfl | ⟨i, hi, -, ⟨rest, hrest⟩ | ⟨rest, hrest, rfl⟩⟩)
    · exact .inl ⟨[], hroot, by decide⟩
    · exact .inl ⟨_, hrest, hi⟩
    · exact .inr ⟨_, hrest, hi, rfl⟩
  rintro (⟨path, hpath, hlt⟩ | ⟨path, hpath, hlt, rfl⟩)
  · cases path with
    | nil =>
      rw [hroot, Option.some.injEq] at hpath
      exact .inl hpath.symm
    | cons i rest => exact .inr ⟨i, hlt, h.prefix_table rest [i] hpath, .inl ⟨rest, hpath⟩⟩
  · obtain ⟨va, rfl, c, hc⟩ := h.leaf path hpath
    exact .inr ⟨pml4Index va, hlt, h.prefix_table [pdptIndex va, pdIndex va] [pml4Index va] hc,
      .inr ⟨[pdptIndex va, pdIndex va, ptIndex va], hpath, rfl⟩⟩

end Tree

/-! ## Creation and destruction -/

def Restored (pmm pmm' : Pmm) : Prop := pmm'.bits = pmm.bits ∧ pmm'.usedPages = pmm.usedPages

/-- The pages of the user's memory that are mapped in the lower half. -/
def LowPage (userMem userSize a : Nat) : Prop :=
  ∃ v ∈ userPages userMem userSize, pml4Index v < 256 ∧ a = v % 281474976710656

def UserPagesFree (pmm : Pmm) (userMem userSize : Nat) : Prop :=
  ∀ a, LowPage userMem userSize a → ∀ i, pmm.used i = true → ¬ pmm.Hits a i

/-- A page that becomes a table of the upper half is a page of the user's memory. -/
def UpperTablesFreed (pmm : Pmm) (userMem userSize : Nat) : Prop :=
  ∀ (n : Nat) (path : List Nat) (q : Nat), (userTables userMem userSize)[n]? = some path → 256 ≤ path.headD 0 →
    pmm.freePages[n]? = some q → ∃ a, LowPage userMem userSize a ∧ pmm.Hits a q

/-- **A creation that leaves nothing behind**: there is no free page, and no free bit behind the last page; or the
address of the first free page, its product taken in 32 bits, is not zero, none of the user's pages was in use, and the
tables of the upper half are freed. -/
def TeardownClean (pmm : Pmm) (userMem userSize : Nat) : Prop :=
  (pmm.freePages = [] ∧ ∀ i, i < 8 * pmm.bitmapBytes → pmm.used i = true) ∨
  (pmm.freePages ≠ [] ∧ (∀ q ∈ pmm.freePages.head?, pmm.pageAddr q ≠ 0) ∧ UserPagesFree pmm userMem userSize ∧
    UpperTablesFreed pmm userMem userSize)

section Teardown

variable {s s' : Machine} {t userMem userSize p : Nat} {tab : List Nat → Option Nat} {mapped seen : List (List Nat)}
  {pages : List Nat}

theorem hits_page_iff (hboot : Booted s t) {q i : Nat} (hq : q ∈ s.pmm.freePages)
    (h0 : s.pmm.baseAddr + 4096 * q ≠ 0) : s.pmm.Hits (s.pmm.baseAddr + 4096 * q) i ↔ i = q := by
  have hlt := (Pmm.mem_freePages.1 hq).1
  have hfits := hboot.fits
  unfold Pmm.Fits at hfits
  have hidx : (s.pmm.baseAddr + 4096 * q - s.pmm.baseAddr) / pageSize % 4294967296 = q := by
    unfold pageSize
    omega
  unfold Pmm.Hits
  rw [hidx]
  exact ⟨fun h => h.2.2.2.symm, fun h => ⟨h0, Nat.le_add_right .., h ▸ hlt, h.symm⟩⟩

/-- **The pages after creation and destruction.** -/
theorem Built.destroy_used (h : Built s s' tab mapped seen pages) (hboot : Booted s t) (hroot : tab [] = some p)
    (hm : ∀ path, path ∈ mapped ↔ ∃ v ∈ userPages userMem userSize, path = pathOf v ++ [ptIndex v])
    (hpages : ∀ v ∈ userPages userMem userSize, v % 4096 = 0) :
    Pmm.SameFrame s.pmm (pagingDestroyUserTask s' p).pmm ∧ Pmm.KeepsCount s.pmm (pagingDestroyUserTask s' p).pmm ∧
    ∀ i, (pagingDestroyUserTask s' p).pmm.used i = true ↔ (s.pmm.used i = true ∨ i ∈ pages) ∧
      ¬ ((∃ path, tab path = some (s.pmm.baseAddr + 4096 * i) ∧ path.headD 0 < 256 ∧ i ∈ pages) ∨
        ∃ a, LowPage userMem userSize a ∧ s.pmm.Hits a i) := by
  have haddr : ∀ {v}, v ∈ userPages userMem userSize → addrOf (pathOf v ++ [ptIndex v]) = v % 2 ^ 48 := by
    intro v hv
    have := hpages v hv
    rw [addrOf_path]
    omega
  have hlist : ∀ a ∈ nodeFrees s'.mem (pdptFrees s'.mem) 256 p, a % 4096 = 0 ∧ a < 2 ^ 64 := by
    intro a ha
    rcases (h.tree.mem_rootFrees hroot).1 ha with ⟨path, hpath, -⟩ | ⟨path, hpath, -, rfl⟩
    · have := h.tree.addr path a hpath
      omega
    · obtain ⟨va, rfl, -⟩ := h.tree.leaf path hpath
      rw [addrOf_path]
      omega
  obtain ⟨hframe, hused, hcount⟩ := Pmm.freeAll_used _ (by rw [h.frame.bitmap]; exact hboot.bitmap) hlist
  rw [← destroy_frees h.tree hroot] at hframe hused hcount
  refine ⟨h.frame.trans hframe, h.count.trans hcount, fun i => ?_⟩
  rw [hused i, h.used i, Bool.and_eq_true, Bool.or_eq_true, decide_eq_true_iff, Bool.not_eq_true',
    decide_eq_false_iff_not]
  refine and_congr_right (fun _ => not_congr ⟨?_, ?_⟩)
  · rintro ⟨a, ha, hhit⟩
    rw [Pmm.hits_frame h.frame] at hhit
    rcases (h.tree.mem_rootFrees hroot).1 ha with ⟨path, hpath, hlow⟩ | ⟨path, hpath, hlow, rfl⟩
    · obtain ⟨q, hq, rfl⟩ := h.table hpath
      obtain rfl := (hits_page_iff hboot (by rw [h.taken]; exact mem_append_left _ hq)
        (h.tree.addr path _ hpath).2.1).1 hhit
      exact .inl ⟨path, hpath, hlow, hq⟩
    · obtain ⟨v, hv, rfl⟩ := (hm path).1 hpath
      exact .inr ⟨_, ⟨v, hv, hlow, haddr hv⟩, hhit⟩
  · rintro (⟨path, hpath, hlow, hi⟩ | ⟨a, ⟨v, hv, hlow, rfl⟩, hhit⟩)
    · refine ⟨_, (h.tree.mem_rootFrees hroot).2 (.inl ⟨path, hpath, hlow⟩), ?_⟩
      rw [Pmm.hits_frame h.frame]
      exact (hits_page_iff hboot (by rw [h.taken]; exact mem_append_left _ hi) (h.tree.addr path _ hpath).2.1).2 rfl
    · refine ⟨_, (h.tree.mem_rootFrees hroot).2 (.inr ⟨_, (hm _).2 ⟨v, hv, rfl⟩, hlow, rfl⟩), ?_⟩
      rw [Pmm.hits_frame h.frame, haddr hv]
      exact hhit

/-- When a tree was built, the pages are as before just when none of the user's was in use and the tables of the upper
half are freed. -/
theorem Built.restored_iff (h : Built s s' tab mapped (userTables userMem userSize) pages)
    (hboot : Booted s t) (hcount : s.pmm.usedPages < 2 ^ 32) (hroot : tab [] = some p)
    (hm : ∀ path, path ∈ mapped ↔ ∃ v ∈ userPages userMem userSize, path = pathOf v ++ [ptIndex v])
    (hpages : ∀ v ∈ userPages userMem userSize, v % 4096 = 0) : Restored s.pmm (pagingDestroyUserTask s' p).pmm ↔
      UserPagesFree s.pmm userMem userSize ∧ UpperTablesFreed s.pmm userMem userSize := by
  obtain ⟨hframe, hkeeps, hused⟩ := h.destroy_used hboot hroot hm hpages
  have hfree : ∀ q ∈ pages, s.pmm.used q = false := by
    intro q hq
    exact (Pmm.mem_freePages.1 (by rw [h.taken]; exact mem_append_left _ hq)).2
  have hlen := h.order.length_eq
  -- the table on a page that was taken
  have hpath : ∀ {n : Nat} {path : List Nat} {q : Nat}, (userTables userMem userSize)[n]? = some path →
      s.pmm.freePages[n]? = some q → q ∈ pages ∧ tab path = some (s.pmm.baseAddr + 4096 * q) := by
    intro n path q hn hq
    obtain ⟨hlt, hget⟩ := List.getElem?_eq_some_iff.1 hn
    have hlt' : n < pages.length := hlen ▸ hlt
    rw [h.taken, List.getElem?_append_left hlt', List.getElem?_eq_getElem hlt', Option.some.injEq] at hq
    have hrel := (List.forall₂_iff_get.1 h.order).2 n hlt hlt'
    rw [get_eq_getElem, get_eq_getElem, hget, hq] at hrel
    exact ⟨hq ▸ getElem_mem hlt', hrel⟩
  constructor
  · rintro ⟨hbits, -⟩
    have hsame := Pmm.bits_eq_iff.1 hbits
    refine ⟨fun a ha i hi hhit => ?_, fun n path q hn hup hq => ?_⟩
    · rw [← hsame i, hused i] at hi
      exact hi.2 (.inr ⟨a, ha, hhit⟩)
    obtain ⟨hqp, htab⟩ := hpath hn hq
    have hno : ¬ (pagingDestroyUserTask s' p).pmm.used q = true := by
      rw [hsame q, hfree q hqp]
      exact Bool.false_ne_true
    rw [hused q, not_and_not_right] at hno
    rcases hno (.inr hqp) with ⟨path', htab', hlow, -⟩ | hhit
    · obtain rfl := h.tree.apart _ _ _ htab htab'
      omega
    · exact hhit
  · rintro ⟨huser, hupper⟩
    have hsame : ∀ i, (pagingDestroyUserTask s' p).pmm.used i = s.pmm.used i := by
      intro i
      refine Bool.eq_iff_iff.2 ((hused i).trans ⟨?_, fun hi => ⟨.inl hi, ?_⟩⟩)
      · rintro ⟨hi | hi, hno⟩
        · exact hi
        -- a page that was taken has been freed again
        obtain ⟨n, hn, rfl⟩ := getElem_of_mem hi
        have hn' : n < (userTables userMem userSize).length := hlen.symm ▸ hn
        have hq : s.pmm.freePages[n]? = some pages[n] := by
          rw [h.taken, List.getElem?_append_left hn, List.getElem?_eq_getElem hn]
        have htab := (hpath (List.getElem?_eq_getElem hn') hq).2
        by_cases hlow : ((userTables userMem userSize)[n]).headD 0 < 256
        · exact absurd (.inl ⟨_, htab, hlow, hi⟩) hno
        · exact absurd (.inr (hupper n _ _ (List.getElem?_eq_getElem hn') (not_lt.1 hlow) hq)) hno
      · rintro (⟨-, -, -, hip⟩ | ⟨a, ha, hhit⟩)
        · rw [hfree i hip] at hi
          cases hi
        · exact huser a ha i hi hhit
    exact ⟨Pmm.bits_eq_iff.2 hsame, hkeeps.eq hframe hcount (fun i _ => hsame i)⟩

/-- **Creation and destruction**: the page allocator is as it was just when the creation leaves nothing behind. -/
theorem teardown_iff (hboot : Booted s t)
    (hown : s.pmm.pmmAllocPage.2 ≠ 0 → OwnPages s t (mostPages s.pmm userMem userSize))
    (hcount : s.pmm.usedPages < 4294967296) (hmem : userMem < 18446744073709551616)
    (h : pagingCreateUserTask s t userMem userSize = .ok (s', p)) :
    Restored s.pmm (pagingDestroyUserTask s' p).pmm ↔ TeardownClean s.pmm userMem userSize := by
  have hpages : ∀ v ∈ userPages userMem userSize, v % 4096 = 0 := fun v hv => by
    unfold userPages at hv
    split at hv
    · cases hv
    · exact ((mem_pagesTo (by omega)).1 hv).1
  unfold TeardownClean
  obtain ⟨hp, hcreate⟩ := create_spec hboot hmem hown h
  rcases Pmm.pmmAllocPage_pages hboot.fits hboot.bitmap with ⟨q, hq, ht, ha, -⟩ | ⟨hnil, hnull, hframe, -, hu⟩
  · have hne : s.pmm.freePages ≠ [] := by
      rw [hq]
      exact cons_ne_nil _ _
    have hhead : (∀ q ∈ s.pmm.freePages.head?, s.pmm.pageAddr q ≠ 0) ↔ p ≠ 0 := by
      rw [hq, List.head?_cons, ← hp, ha]
      simp
    rw [or_iff_right (fun h => hne h.1), and_iff_right hne, hhead]
    rcases hcreate with ⟨rfl, hpmm⟩ | ⟨hp, tab, mapped, pages, hb, -, htab, hm⟩
    · -- the page is lost, since its address reads as `NULL`
      refine iff_of_false (fun hr => ?_) (fun h => h.1 rfl)
      have hself := Pmm.bits_eq_iff.1 hr.1 q
      change s'.pmm.used q = _ at hself
      rw [hpmm, ht.used q, ht.free q le_rfl (lt_succ_self q), decide_eq_true (by omega)] at hself
      cases hself
    · rw [hb.restored_iff hboot hcount htab hm hpages, and_iff_right hp]
  · rcases hcreate with ⟨rfl, hpmm⟩ | ⟨hp0, -⟩
    swap
    · exact absurd (hp.symm.trans hnull) hp0
    have hdestroy : (pagingDestroyUserTask s' 0).pmm = s.pmm.pmmAllocPage.1 := hpmm
    rw [hdestroy]
    have hfill := (Pmm.pmmAllocPage_full hboot.fits hboot.bitmap hnil).used
    rw [or_iff_left (fun h => h.1 hnil), and_iff_right hnil]
    constructor
    · intro hr i hi
      rw [← Pmm.bits_eq_iff.1 hr.1 i, hfill i, decide_eq_true hi, Bool.or_true]
    intro hall
    refine ⟨Pmm.bits_eq_iff.2 (fun i => ?_), hu⟩
    rw [hfill i]
    by_cases hi : i < 8 * s.pmm.bitmapBytes
    · rw [hall i hi, Bool.true_or]
    · rw [decide_eq_false hi, Bool.or_false]

end Teardown

/-- A task whose memory the page allocator does not manage. -/
theorem demo_teardown : ∃ s p, pagingCreateUserTask demoKernel 0x1000000 0x400000 4096 = .ok (s, p) ∧ p ≠ 0 ∧
    Restored demoKernel.pmm (pagingDestroyUserTask s p).pmm := by
  obtain ⟨s, h⟩ := demo_create
  refine ⟨s, _, h, by decide, (teardown_iff demoKernel_booted (fun _ => demoKernel_own) (by decide) (by decide) h).2
    (.inr ⟨by decide, by decide, ?_, ?_⟩)⟩
  · intro a _ i hi
    have hfree : demoKernel.pmm.used i = false := bitAt_of_zero rfl rfl
    rw [hfree] at hi
    cases hi
  · intro n path q hn hup
    have hlow : ∀ path ∈ userTables 0x400000 4096, path.headD 0 < 256 := by decide
    exact absurd (hlow path (mem_of_getElem? hn)) (Nat.not_lt_of_le hup)

/-- A kernel with eight pages, the last of which is a user task's memory. -/
def demoUser : Machine := ⟨bootMem 0x1000000, ⟨4096, fun b => if b = 0 then 0x80#8 else 0x00#8, 0x8000000, 8, 1⟩, []⟩

theorem demoUser_booted : Booted demoUser 0x1000000 where
  tables := bootMem_tables (by decide) (by decide)
  nonzero := by decide
  bitmap := by decide
  fits := by decide
  aligned := by decide

theorem demoUser_own : OwnPages demoUser 0x1000000 (mostPages demoUser.pmm 0x8007000 4096) := by
  unfold OwnPages
  decide

/-- **The user's memory is freed with the tables**: a page that its owner had taken is free afterwards. -/
theorem demo_teardown_frees : ∃ s p, pagingCreateUserTask demoUser 0x1000000 0x8007000 4096 = .ok (s, p) ∧ p ≠ 0 ∧
    demoUser.pmm.used 7 = true ∧ (pagingDestroyUserTask s p).pmm.used 7 = false ∧
    ¬ Restored demoUser.pmm (pagingDestroyUserTask s p).pmm := by
  obtain ⟨s, h⟩ : ∃ s, pagingCreateUserTask demoUser 0x1000000 0x8007000 4096 = .ok (s, 0x8000000) :=
    exists_of_returned (by decide +kernel)
  have hused : demoUser.pmm.used 7 = true := by decide
  have hfreed : (pagingDestroyUserTask s 0x8000000).pmm.used 7 = false := by
    rcases create_spec demoUser_booted (by decide) (fun _ => demoUser_own) h with
      ⟨-, ⟨h0, -⟩ | ⟨-, tab, mapped, pages, hb, -, htab, hm⟩⟩
    · cases h0
    · refine Bool.eq_false_iff.2 (fun hu => ?_)
      rw [(hb.destroy_used demoUser_booted htab hm (by decide)).2.2 7] at hu
      exact hu.2 (.inr ⟨0x8007000, ⟨0x8007000, by decide, by decide, rfl⟩, by decide⟩)
  refine ⟨s, _, h, by decide, hused, hfreed, fun hr => ?_⟩
  have hsame := Pmm.bits_eq_iff.1 hr.1 7
  rw [hfreed, hused] at hsame
  cases hsame

end Paging
end OS64
