import OS64.PageTree
import OS64.PmmPages
/-!
# PageUser — the page tables of a user task

`paging_create_user_task` takes a page for the PML4 and maps the pages of the user memory to themselves.  What it builds
is a tree whose tables are the first free pages in order (`Built`), and only the user pages are mapped in it
(`create_spec`).  The kernel is mapped in the lower half by the boot tables, and the entries of that half are not
copied: a user task's tables map the kernel just where its memory covers the kernel (`kernel_visible_iff`).
-/
namespace OS64

open Function List Res
namespace Paging

/-! ## `kernel/paging.c` -/

def mapLoop (pml4 stop flags : Nat) : Nat → Nat → Nat → Machine → Res (Machine × Int)
  | 0, _, _, _ => .hang
  | n + 1, virt, phys, s =>
    if virt < stop then
      (pagingMapPage s pml4 virt phys flags).bind (fun r =>
        if r.2 ≠ 0 then .ok (r.1, -1)
        else mapLoop pml4 stop flags n (u64 (virt + pageSize)) (u64 (phys + pageSize)) r.1)
    else .ok (s, 0)

def mapTurns : Nat := 4503599627370497

def pagingMapRange (s : Machine) (pml4 virtStart physStart size flags : Nat) : Res (Machine × Int) :=
  if pml4 = 0 ∨ size = 0 then .ok (s, -1)
  else mapLoop pml4 (u64 (virtStart + size)) flags mapTurns (clearLow 12 virtStart) (clearLow 12 physStart) s

def freePt (m : Mem) (pmm : Pmm) (ptbl : Nat) : Pmm :=
  ((List.range 512).foldl (fun pmm l =>
    if present (load m (ptbl + 8 * l) 8) then pmm.pmmFreePage (frameOf (load m (ptbl + 8 * l) 8)) else pmm)
    pmm).pmmFreePage ptbl

/-- The page directory and what is behind it; `HUGE_PAGE_MASK` is taken of an entry with the PS bit. -/
def freePd (m : Mem) (pmm : Pmm) (pdir : Nat) : Pmm :=
  ((List.range 512).foldl (fun pmm k =>
    let pde := load m (pdir + 8 * k) 8
    if present pde && !huge pde then freePt m pmm (frameOf pde)
    else if present pde && huge pde then pmm.pmmFreePage (pde &&& 0xFFFFFFFFFFE00000)
    else pmm) pmm).pmmFreePage pdir

def freePdpt (m : Mem) (pmm : Pmm) (pdpt : Nat) : Pmm :=
  ((List.range 512).foldl (fun pmm j =>
    if present (load m (pdpt + 8 * j) 8) then freePd m pmm (frameOf (load m (pdpt + 8 * j) 8)) else pmm)
    pmm).pmmFreePage pdpt

def pagingDestroyUserTask (s : Machine) (pml4 : Nat) : Machine :=
  if pml4 = 0 then s
  else
    { s with pmm := ((List.range 256).foldl (fun pmm i =>
        if present (load s.mem (pml4 + 8 * i) 8) then freePdpt s.mem pmm (frameOf (load s.mem (pml4 + 8 * i) 8))
          else pmm)
        s.pmm).pmmFreePage pml4 }

def copyKernel (kernelPml4 userPml4 : Nat) (s : Machine) : Machine :=
  (List.range' 256 256).foldl (fun s i =>
    let kernelEntry := load s.mem (kernelPml4 + 8 * i) 8
    if present kernelEntry then s.put .table (userPml4 + 8 * i) kernelEntry else s) s

/-- The result `0` is `NULL`. -/
def pagingCreateUserTask (s : Machine) (kernelPml4 userMem userSize : Nat) : Res (Machine × Nat) :=
  if kernelPml4 = 0 then .ok (s, 0)
  else
    let (pmm, userPml4) := s.pmm.pmmAllocPage
    let s := { s with pmm := pmm }
    if userPml4 = 0 then .ok (s, 0)
    else
      let s := copyKernel kernelPml4 userPml4 (s.wipe .table userPml4 pageSize)
      if userMem ≠ 0 ∧ userSize > 0 then
        -- `PTE_USER | PTE_WRITABLE`
        (pagingMapRange s userPml4 userMem userMem userSize (4 ||| 2)).bind (fun r =>
          if r.2 ≠ 0 then .ok (pagingDestroyUserTask r.1 userPml4, 0) else .ok (r.1, userPml4))
      else .ok (s, userPml4)

/-! ## What the creation builds -/

/-- **The kernel after boot**: its tables are those of the boot code, and the page allocator has its bitmap. -/
structure Booted (s : Machine) (t : Nat) : Prop where
  tables : BootTables s.mem t
  nonzero : t ≠ 0
  bitmap : s.pmm.bitmap ≠ 0
  fits : s.pmm.Fits
  aligned : s.pmm.baseAddr % 4096 = 0

/-- The page allocator has each of the first `k` free pages at its own address, below the top of what an entry can hold
and clear of the boot code's tables. -/
def OwnPages (s : Machine) (t k : Nat) : Prop :=
  ∀ q ∈ s.pmm.freePages.take k, s.pmm.pageAddr q = s.pmm.baseAddr + 4096 * q ∧
    s.pmm.baseAddr + 4096 * q + 4096 ≤ 281474976710656 ∧
    (s.pmm.baseAddr + 4096 * q + 4096 ≤ t ∨ t + bootLength ≤ s.pmm.baseAddr + 4096 * q)

def addPath (seen : List (List Nat)) (path : List Nat) : List (List Nat) := if path ∈ seen then seen else seen ++ [path]

def addPage (seen : List (List Nat)) (va : Nat) : List (List Nat) :=
  addPath (addPath (addPath seen [pml4Index va]) [pml4Index va, pdptIndex va]) (pathOf va)

theorem length_le_addPath (seen : List (List Nat)) (path : List Nat) : seen.length ≤ (addPath seen path).length := by
  unfold addPath
  split
  · exact le_rfl
  · exact (sublist_append_left ..).length_le

theorem length_le_foldl : ∀ (l : List Nat) (seen : List (List Nat)), seen.length ≤ (l.foldl addPage seen).length
  | [], _ => le_rfl
  | va :: l, seen => by
    have hpage : seen.length ≤ (addPage seen va).length :=
      (length_le_addPath ..).trans ((length_le_addPath ..).trans (length_le_addPath ..))
    exact hpage.trans (length_le_foldl l _)

/-- **The tree that was built since `s₀`**: the tables `seen`, in the order they were made, are the first free pages. -/
structure Built (s₀ s : Machine) (tab : List Nat → Option Nat) (mapped seen : List (List Nat))
    (pages : List Nat) : Prop where
  tree : Tree s.mem tab mapped
  frame : Pmm.SameFrame s₀.pmm s.pmm
  taken : s₀.pmm.freePages = pages ++ s.pmm.freePages
  used : ∀ i, s.pmm.used i = (s₀.pmm.used i || decide (i ∈ pages))
  count : Pmm.KeepsCount s₀.pmm s.pmm
  order : List.Forall₂ (fun path q => tab path = some (s₀.pmm.baseAddr + 4096 * q)) seen pages
  all : ∀ path a, tab path = some a → path ∈ seen
  mem : ∀ x, (∀ q ∈ pages, x < s₀.pmm.baseAddr + 4096 * q ∨ s₀.pmm.baseAddr + 4096 * q + 4096 ≤ x) → s.mem x = s₀.mem x

section Built

variable {s₀ s : Machine} {t : Nat} {tab : List Nat → Option Nat} {mapped seen : List (List Nat)} {pages : List Nat}

variable {a k : Nat}

theorem mem_take_front {l front rest : List Nat} {q : Nat} (hl : l = front ++ rest) (hq : q ∈ front)
    (hk : front.length ≤ k ∨ l.length ≤ k) : q ∈ l.take k := by
  rw [hl, length_append] at hk
  rw [hl, take_append, take_of_length_le (by omega)]
  exact mem_append_left _ hq

theorem alloc_cases (hboot : Booted s₀ t) (hown : OwnPages s₀ t k)
    (hk : pages.length + 1 ≤ k ∨ s₀.pmm.freePages.length ≤ k) (hframe : Pmm.SameFrame s₀.pmm s.pmm)
    (htaken : s₀.pmm.freePages = pages ++ s.pmm.freePages) :
    (∃ q, s.pmm.freePages = q :: s.pmm.pmmAllocPage.1.freePages ∧ Pmm.Takes s.pmm s.pmm.pmmAllocPage.1 q 1 ∧
      s.pmm.pmmAllocPage.2 = s₀.pmm.baseAddr + 4096 * q ∧ q ∉ pages ∧ s₀.pmm.baseAddr + 4096 * q + 4096 ≤ 2 ^ 48 ∧
      Pmm.KeepsCount s.pmm s.pmm.pmmAllocPage.1) ∨ (s.pmm.freePages = [] ∧ s.pmm.pmmAllocPage.2 = 0) := by
  have hfits : s.pmm.Fits := by
    unfold Pmm.Fits
    rw [hframe.total]
    exact hboot.fits
  rcases Pmm.pmmAllocPage_pages hfits (by rw [hframe.bitmap]; exact hboot.bitmap) with ⟨q, hq, ht, ha, hd⟩ |
    ⟨hnil, ha, -⟩
  · have hfront : s₀.pmm.freePages = (pages ++ [q]) ++ s.pmm.pmmAllocPage.1.freePages := by
      rw [htaken, hq, append_assoc]
      rfl
    obtain ⟨hexact, hlt, -⟩ := hown q (mem_take_front hfront (mem_append_right _ (.head _)) (by rwa [length_append]))
    have hnd := s₀.pmm.freePages_nodup
    rw [htaken, hq] at hnd
    refine .inl ⟨q, hq, ht, ?_, fun hqp => ?_, hlt, hd⟩
    · rw [ha, Pmm.pageAddr_frame hframe, hexact]
    · exact (nodup_append.1 hnd).2.2 q hqp q mem_cons_self rfl
  · exact .inr ⟨hnil, ha⟩

theorem Built.table (h : Built s₀ s tab mapped seen pages) {path : List Nat} (ha : tab path = some a) :
    ∃ q ∈ pages, a = s₀.pmm.baseAddr + 4096 * q := by
  obtain ⟨n, hn, hpath⟩ := getElem_of_mem (h.all path a ha)
  have hlen := h.order.length_eq
  have hrel := (List.forall₂_iff_get.1 h.order).2 n hn (hlen ▸ hn)
  rw [get_eq_getElem, hpath, ha, Option.some.injEq] at hrel
  exact ⟨_, getElem_mem _, hrel⟩

theorem or_flags {b : Nat} (hb : b % 4096 = 0) : b ||| 7 ||| 1 ||| 2 = b + 7 := by
  have h7 : (b ||| 7 ||| 1 ||| 2) = b ||| 7 := by
    rw [Nat.or_assoc, Nat.or_assoc]
    rfl
  obtain ⟨c, rfl⟩ : ∃ c, b = 2 ^ 12 * c := ⟨b / 4096, by omega⟩
  rw [h7, ← Nat.two_pow_add_eq_or_of_lt (by decide)]

def withTable (s : Machine) (pmm : Pmm) (b e : Nat) : Machine :=
  ({ s with pmm := pmm }.wipe .table b pageSize).put .table e (b ||| 7 ||| 1 ||| 2)

theorem withTable_pmm (s : Machine) (pmm : Pmm) (b e : Nat) : (withTable s pmm b e).pmm = pmm := rfl

theorem withTable_mem (s : Machine) (pmm : Pmm) {b : Nat} (hb : b % 4096 = 0) (e : Nat) :
    (withTable s pmm b e).mem = store (fill s.mem b 4096 0#8) e 8 (b + 7) := by
  rw [← or_flags hb]
  rfl

theorem getNextLevel_new {i : Nat} (hslot : present (load s.mem (a + 8 * i) 8) = false) : getNextLevel s a i 7 true =
      if s.pmm.pmmAllocPage.2 = 0 then .panic "PAGING: Failed to allocate page table"
      else .ok (withTable s s.pmm.pmmAllocPage.1 s.pmm.pmmAllocPage.2 (a + 8 * i), s.pmm.pmmAllocPage.2) := by
  unfold getNextLevel
  simp only [hslot]
  rfl

/-- **One level of `get_next_level`** finds the table at the end of the path or makes it. -/
theorem Built.next (h : Built s₀ s tab mapped seen pages) (hboot : Booted s₀ t) (hown : OwnPages s₀ t k)
    {path : List Nat} {i : Nat} (hpath : tab path = some a) (hlen : path.length < 3) (hi : i < 512) {r : Machine × Nat}
    (hr : getNextLevel s a i 7 true = .ok r)
    (hk : (addPath seen (path ++ [i])).length ≤ k ∨ s₀.pmm.freePages.length ≤ k) :
    ∃ tab' pages', Built s₀ r.1 tab' mapped (addPath seen (path ++ [i])) pages' ∧ tab' (path ++ [i]) = some r.2 ∧
      ∀ p c, tab p = some c → tab' p = some c := by
  have hslot := h.tree.node path a i hpath hlen hi
  cases hnext : tab (path ++ [i]) with
  | some b =>
    rw [hnext] at hslot
    obtain ⟨hb4, -, hblt⟩ := h.tree.addr _ b hnext
    rw [getNextLevel_present hslot hb4 (by omega)] at hr
    cases hr
    refine ⟨tab, pages, ?_, hnext, fun _ _ hc => hc⟩
    unfold addPath
    rwa [if_pos (h.all _ b hnext)]
  | none =>
    rw [hnext] at hslot
    rw [getNextLevel_new hslot] at hr
    have hseen : path ++ [i] ∉ seen := fun hmem => by
      obtain ⟨n, hn, hget⟩ := getElem_of_mem hmem
      have hrel := (List.forall₂_iff_get.1 h.order).2 n hn (h.order.length_eq ▸ hn)
      rw [get_eq_getElem, hget, hnext] at hrel
      cases hrel
    have hadd : addPath seen (path ++ [i]) = seen ++ [path ++ [i]] := if_neg hseen
    rw [hadd, length_append, h.order.length_eq] at hk
    rcases alloc_cases hboot hown hk h.frame h.taken with ⟨q, hq, ht, ha, hnew, hlt, hcount⟩ | ⟨-, ha⟩
    · rw [ha] at hr
      by_cases hb0 : s₀.pmm.baseAddr + 4096 * q = 0
      · rw [if_pos hb0] at hr
        cases hr
      rw [if_neg hb0] at hr
      cases hr
      have hb4 : (s₀.pmm.baseAddr + 4096 * q) % 4096 = 0 := by
        have := hboot.aligned
        omega
      have hfresh : ∀ p, tab p ≠ some (s₀.pmm.baseAddr + 4096 * q) := fun p hp => by
        obtain ⟨q', hq', heq⟩ := h.table hp
        obtain rfl : q = q' := by omega
        exact hnew hq'
      have hkeep : ∀ p c, tab p = some c → update tab (path ++ [i]) (some (s₀.pmm.baseAddr + 4096 * q)) p = some c := by
        intro p c hc
        rw [update_of_ne, hc]
        rintro rfl
        rw [hnext] at hc
        cases hc
      refine ⟨_, pages ++ [q], ⟨?_, h.frame.trans ht.frame, ?_, fun j => ?_, h.count.trans hcount,
        ?_, fun p c hc => ?_, fun x hx => ?_⟩, update_self .., hkeep⟩
      · rw [withTable_mem s _ hb4]
        exact h.tree.grow hpath hlen hi hnext ⟨hb4, hb0, hlt⟩ hfresh
      · rw [h.taken, hq, append_assoc]
        rfl
      · rw [withTable_pmm, ht.used j, h.used j, Bool.or_assoc, ← Bool.decide_or]
        refine congrArg (s₀.pmm.used j || ·) (decide_eq_decide.2 ?_)
        rw [mem_append, mem_singleton]
        exact or_congr Iff.rfl (by omega)
      · rw [hadd]
        refine rel_append ?_ (List.Forall₂.cons (update_self ..) List.Forall₂.nil)
        exact h.order.imp (fun p q' hp => hkeep p _ hp)
      · rw [hadd, mem_append, mem_singleton]
        by_cases hp : p = path ++ [i]
        · exact .inr hp
        · rw [update_of_ne hp] at hc
          exact .inl (h.all p c hc)
      · have hxq := hx q (mem_append_right _ (mem_singleton_self q))
        obtain ⟨qa, hqa, haq⟩ := h.table hpath
        have hxa := hx qa (mem_append_left _ hqa)
        rw [withTable_mem s _ hb4, store_apart _ (by omega), fill_apart _ (by omega)]
        exact h.mem x (fun q' hq' => hx q' (mem_append_left _ hq'))
    · rw [ha] at hr
      cases hr

theorem frameOf_or_flags (va : Nat) : frameOf va ||| 7 = addrOf (pathOf va ++ [ptIndex va]) + 7 := by
  have h4 : frameOf va % 4096 = 0 := by
    rw [frameOf_eq]
    omega
  have h7 := or_flags h4
  rw [Nat.or_assoc, Nat.or_assoc] at h7
  rw [addrOf_path]
  refine h7.trans ?_
  rw [frameOf_eq]
  omega

/-- **`paging_map_page`** makes the tables on the way that are missing and maps the page to itself. -/
theorem Built.mapPage (h : Built s₀ s tab mapped seen pages) (hboot : Booted s₀ t) (hown : OwnPages s₀ t k)
    {root va : Nat} (hk : (addPage seen va).length ≤ k ∨ s₀.pmm.freePages.length ≤ k) (hroot : tab [] = some root)
    {r : Machine × Int} (hr : pagingMapPage s root va va (4 ||| 2) = .ok r) :
    r.2 = 0 ∧ ∃ tab' pages', Built s₀ r.1 tab' ((pathOf va ++ [ptIndex va]) :: mapped) (addPage seen va) pages' ∧
      tab' [] = some root := by
  have hnz : ∀ {s : Machine} {tab mapped seen pages p a}, Built s₀ s tab mapped seen pages → tab p = some a → a ≠ 0 :=
    fun h ha => (h.tree.addr _ _ ha).2.1
  have hk₂ := hk.imp_left (length_le_addPath _ _).trans
  unfold pagingMapPage at hr
  rw [if_neg (hnz h hroot)] at hr
  obtain ⟨⟨s₁, t₁⟩, h₁, hr⟩ := bind_ok hr
  obtain ⟨tab₁, pages₁, hb₁, ht₁, hk₁⟩ := h.next hboot hown hroot (show 0 < 3 by decide)
    (Nat.mod_lt _ (by decide)) h₁ (hk₂.imp_left (length_le_addPath _ _).trans)
  have hn₁ : t₁ ≠ 0 := hnz hb₁ ht₁
  simp only [if_neg hn₁] at hr
  obtain ⟨⟨s₂, t₂⟩, h₂, hr⟩ := bind_ok hr
  obtain ⟨tab₂, pages₂, hb₂, ht₂, hk₂⟩ := hb₁.next hboot hown ht₁ (show 1 < 3 by decide)
    (Nat.mod_lt _ (by decide)) h₂ hk₂
  have hn₂ : t₂ ≠ 0 := hnz hb₂ ht₂
  simp only [if_neg hn₂] at hr
  obtain ⟨⟨s₃, t₃⟩, h₃, hr⟩ := bind_ok hr
  obtain ⟨tab₃, pages₃, hb₃, ht₃, hk₃⟩ := hb₂.next hboot hown ht₂ (show 2 < 3 by decide)
    (Nat.mod_lt _ (by decide)) h₃ hk
  have hn₃ : t₃ ≠ 0 := hnz hb₃ ht₃
  simp only [if_neg hn₃] at hr
  cases hr
  refine ⟨rfl, tab₃, pages₃, ⟨?_, hb₃.frame, hb₃.taken, hb₃.used, hb₃.count, hb₃.order, hb₃.all, fun x hx => ?_⟩,
    hk₃ _ _ (hk₂ _ _ (hk₁ _ _ hroot))⟩
  · have hmap := hb₃.tree.map ht₃
    rw [← frameOf_or_flags] at hmap
    exact hmap
  obtain ⟨q, hq, hqa⟩ := hb₃.table ht₃
  have hxq := hx q hq
  have hi : ptIndex va < 512 := Nat.mod_lt _ (by decide)
  change store s₃.mem (t₃ + 8 * ptIndex va) 8 _ x = _
  rw [store_apart _ (by omega)]
  exact hb₃.mem x hx

end Built

/-! ## The user's pages -/

def pagesTo (virt stop : Nat) : List Nat := (List.range ((stop - virt + 4095) / 4096)).map (fun i => virt + 4096 * i)

theorem pagesTo_nil {virt stop : Nat} (h : stop ≤ virt) : pagesTo virt stop = [] := by
  unfold pagesTo
  rw [show (stop - virt + 4095) / 4096 = 0 by omega]
  rfl

theorem pagesTo_cons {virt stop : Nat} (h : virt < stop) : pagesTo virt stop = virt :: pagesTo (virt + 4096) stop := by
  unfold pagesTo
  rw [show (stop - virt + 4095) / 4096 = (stop - (virt + 4096) + 4095) / 4096 + 1 by omega, range_succ_eq_map,
    map_cons, map_map]
  refine congrArg (virt :: ·) (map_congr_left (fun i _ => ?_))
  change virt + 4096 * (i + 1) = virt + 4096 + 4096 * i
  omega

theorem mem_pagesTo {virt stop v : Nat} (hvirt : virt % 4096 = 0) :
    v ∈ pagesTo virt stop ↔ v % 4096 = 0 ∧ virt ≤ v ∧ v < stop := by
  unfold pagesTo
  rw [mem_map]
  constructor
  · rintro ⟨i, hi, rfl⟩
    rw [mem_range] at hi
    omega
  · rintro ⟨h4, hle, hlt⟩
    exact ⟨(v - virt) / 4096, mem_range.2 (by omega), by omega⟩

/-- The pages of the memory given to a user task, as `paging_map_range` goes through them. -/
def userPages (userMem userSize : Nat) : List Nat :=
  if userMem = 0 ∨ userSize = 0 then [] else pagesTo (userMem / 4096 * 4096) (u64 (userMem + userSize))

/-- The tables of that memory, in the order in which they are made. -/
def userTables (userMem userSize : Nat) : List (List Nat) := (userPages userMem userSize).foldl addPage [[]]

/-- **How many pages the creation takes**, at most: one for each table, or all where the loop never comes to its end
since that is in the last page there is. -/
def mostPages (pmm : Pmm) (userMem userSize : Nat) : Nat :=
  if u64 (userMem + userSize) + 4096 ≤ 18446744073709551616 then (userTables userMem userSize).length
  else pmm.freePages.length

theorem mostPages_cases (pmm : Pmm) (userMem userSize : Nat) :
    u64 (userMem + userSize) + 4096 ≤ 2 ^ 64 ∧ (userTables userMem userSize).length ≤ mostPages pmm userMem userSize ∨
      pmm.freePages.length ≤ mostPages pmm userMem userSize := by
  unfold mostPages
  split
  · rename_i hstop
    exact .inl ⟨hstop, le_rfl⟩
  · exact .inr le_rfl

section Create

variable {s₀ s : Machine} {t : Nat} {tab : List Nat → Option Nat} {mapped seen : List (List Nat)} {pages : List Nat}

variable {root k : Nat}

/-- **The loop of `paging_map_range`**, when it ends, has mapped every page up to the end. -/
theorem Built.mapLoop (hboot : Booted s₀ t) (hown : OwnPages s₀ t k) {stop : Nat} : ∀ (n virt : Nat) {s : Machine}
    {tab : List Nat → Option Nat} {mapped seen : List (List Nat)} {pages : List Nat},
    Built s₀ s tab mapped seen pages → tab [] = some root → virt % 4096 = 0 → virt < 2 ^ 64 →
    stop + 4096 ≤ 2 ^ 64 ∧ ((pagesTo virt stop).foldl addPage seen).length ≤ k ∨ s₀.pmm.freePages.length ≤ k →
    ∀ {r}, mapLoop root stop (4 ||| 2) n virt virt s = .ok r → r.2 = 0 ∧ stop + 4096 ≤ 2 ^ 64 ∧ ∃ tab' mapped' pages',
        Built s₀ r.1 tab' mapped' ((pagesTo virt stop).foldl addPage seen) pages' ∧ tab' [] = some root ∧
        ∀ path, path ∈ mapped' ↔ path ∈ mapped ∨ ∃ v ∈ pagesTo virt stop, path = pathOf v ++ [ptIndex v]
  | 0, _, _, _, _, _, _, _, _, _, _, _, _, hr => nomatch hr
  | n + 1, virt, s, tab, mapped, seen, pages, h, hroot, h4, hlt, hk, r, hr => by
    rw [Paging.mapLoop] at hr
    by_cases hv : virt < stop
    · rw [if_pos hv] at hr
      obtain ⟨r₁, hr₁, hr⟩ := bind_ok hr
      rw [pagesTo_cons hv, foldl_cons] at hk
      obtain ⟨hz, tab₁, pages₁, hb₁, hroot₁⟩ := h.mapPage hboot hown
        (hk.imp_left (fun h => (length_le_foldl _ _).trans h.2)) hroot hr₁
      rw [if_neg (fun h => h hz)] at hr
      have hnext4 : u64 (virt + pageSize) % 4096 = 0 := by
        unfold u64 pageSize
        omega
      obtain ⟨hz', hstop, tab', mapped', pages', hb', hroot', hm'⟩ :=
        Built.mapLoop hboot hown n (u64 (virt + pageSize)) hb₁ hroot₁ hnext4 (u64_lt _)
          (hk.imp_left (fun ⟨hstop, hk⟩ => ⟨hstop, by rwa [u64_of_lt (by unfold pageSize; omega)]⟩)) hr
      -- the address does not wrap, or the loop would not have come to an end
      have hnext : u64 (virt + pageSize) = virt + 4096 := by
        unfold u64 pageSize
        omega
      rw [hnext] at hb' hm'
      refine ⟨hz', hstop, tab', mapped', pages', ?_, hroot', fun path => ?_⟩
      · rwa [pagesTo_cons hv, foldl_cons]
      rw [hm', pagesTo_cons hv, mem_cons, or_assoc, or_left_comm]
      refine or_congr Iff.rfl ⟨?_, ?_⟩
      · rintro (h | ⟨v, hv, h⟩)
        · exact ⟨virt, .head _, h⟩
        · exact ⟨v, .tail _ hv, h⟩
      · rintro ⟨v, hv, h⟩
        rcases mem_cons.1 hv with rfl | hv
        · exact .inl h
        · exact .inr ⟨v, hv, h⟩
    · rw [if_neg hv] at hr
      cases hr
      refine ⟨rfl, by omega, tab, mapped, pages, ?_, hroot, fun path => ?_⟩
      · rwa [pagesTo_nil (not_lt.1 hv)]
      · rw [pagesTo_nil (not_lt.1 hv)]
        exact (or_iff_left (fun ⟨v, hv, _⟩ => not_mem_nil hv)).symm

theorem built_root (hboot : Booted s₀ t) (hown : OwnPages s₀ t k) (hk : 1 ≤ k ∨ s₀.pmm.freePages.length ≤ k) {pmm : Pmm}
    (halloc : s₀.pmm.pmmAllocPage = (pmm, root)) (hroot : root ≠ 0) :
    ∃ tab q, Built s₀ ({ s₀ with pmm := pmm }.wipe .table root pageSize) tab [] [[]] [q] ∧ tab [] = some root := by
  have hframe := Pmm.SameFrame.rfl' s₀.pmm
  rcases @alloc_cases s₀ s₀ t [] k hboot hown hk hframe rfl with ⟨q, hq, ht, ha, -, hlt, hcount⟩ | ⟨-, ha⟩
  · rw [halloc] at hq ht ha hcount
    have hb4 : root % 4096 = 0 := by
      have := hboot.aligned
      omega
    have htab : ∀ {p a}, update (fun _ : List Nat => none) [] (some root) p = some a → p = [] ∧ a = root := by
      intro p a hp
      rw [update_apply] at hp
      split at hp
      · rename_i h
        exact ⟨h, (Option.some.inj hp).symm⟩
      · cases hp
    have hempty : ∀ i, i < 512 → present (load (fill s₀.mem root 4096 0#8) (root + 8 * i) 8) = false := fun i hi => by
      have hzero : load (fill s₀.mem root 4096 0#8) (root + 8 * i) 8 = 0 := by
        refine @load_of_bytes _ 8 _ 0 (fun k hk => ?_)
        unfold fill
        rw [if_pos (by omega), Nat.zero_div]
        rfl
      rw [hzero]
      rfl
    refine ⟨update (fun _ => none) [] (some root), q, ⟨⟨fun p a hp => ?_, fun p i a hp => ?_,
      fun p p' a hp hp' => ?_, fun p a hp => ?_, fun p a i hp _ hi => ?_, fun p a i hp hlen _ => ?_,
      fun p hp => absurd hp not_mem_nil⟩, ht.frame, ?_, fun i => ?_, hcount, ?_, fun p a hp => ?_, fun x hx => ?_⟩,
      update_self ..⟩
    · obtain ⟨rfl, -⟩ := htab hp
      exact ⟨Nat.zero_le 3, fun i hi => absurd hi not_mem_nil⟩
    · exact absurd (htab hp).1 (append_ne_nil_of_right_ne_nil p (cons_ne_nil i []))
    · exact (htab hp).1.trans (htab hp').1.symm
    · rw [(htab hp).2]
      exact ⟨hb4, hroot, by omega⟩
    · obtain ⟨rfl, rfl⟩ := htab hp
      exact hempty i hi
    · rw [(htab hp).1] at hlen
      cases hlen
    · exact hq
    · change pmm.used i = _
      rw [ht.used i]
      refine congrArg (s₀.pmm.used i || ·) (decide_eq_decide.2 ?_)
      rw [mem_singleton]
      omega
    · refine List.Forall₂.cons ?_ List.Forall₂.nil
      exact congrArg some ha
    · rw [(htab hp).1]
      exact mem_singleton_self []
    · have hxq := hx q (mem_singleton_self q)
      change fill s₀.mem root pageSize 0#8 x = _
      rw [fill_apart _ (by unfold pageSize; omega)]
  · rw [halloc] at ha
    exact absurd ha hroot

theorem copyKernel_eq {kernelPml4 userPml4 : Nat}
    (h : ∀ i, 256 ≤ i → i < 512 → present (load s.mem (kernelPml4 + 8 * i) 8) = false) :
    copyKernel kernelPml4 userPml4 s = s := by
  have hfold : ∀ l : List Nat, (∀ i ∈ l, 256 ≤ i ∧ i < 512) →
      l.foldl (fun s i => if present (load s.mem (kernelPml4 + 8 * i) 8) then
        s.put .table (userPml4 + 8 * i) (load s.mem (kernelPml4 + 8 * i) 8) else s) s = s := fun l => by
    induction l with
    | nil => exact fun _ => rfl
    | cons i l ih =>
      intro hl
      obtain ⟨hlo, hhi⟩ := hl i (.head _)
      rw [foldl_cons, h i hlo hhi]
      exact ih (fun j hj => hl j (mem_cons_of_mem i hj))
  refine hfold _ (fun i hi => ?_)
  rw [mem_range'_1] at hi
  omega

theorem copyKernel_boot (h : BootTables s.mem t) (userPml4 : Nat) : copyKernel t userPml4 s = s :=
  copyKernel_eq (fun i hlo hhi => h.pml4None i (Nat.le_trans (by decide) hlo) hhi)

theorem Built.bootTables (h : Built s₀ s tab mapped seen pages) (hboot : Booted s₀ t) (hown : OwnPages s₀ t k)
    (hk : seen.length ≤ k ∨ s₀.pmm.freePages.length ≤ k) : BootTables s.mem t := by
  refine bootTables_congr hboot.tables (fun x hlo hhi => h.mem x (fun q hq => ?_))
  have := (hown q (mem_take_front h.taken hq (h.order.length_eq ▸ hk))).2.2
  omega

theorem Built.mapRange (h : Built s₀ s tab mapped [[]] pages) (hboot : Booted s₀ t) {userMem userSize : Nat}
    (hown : OwnPages s₀ t (mostPages s₀.pmm userMem userSize)) (hroot : tab [] = some root) (hmem : userMem < 2 ^ 64)
    (hmem0 : userMem ≠ 0)
    (hsize : userSize ≠ 0) {r : Machine × Int} (hr : pagingMapRange s root userMem userMem userSize (4 ||| 2) = .ok r) :
    r.2 = 0 ∧ ∃ tab' mapped' pages',
      Built s₀ r.1 tab' mapped' (userTables userMem userSize) pages' ∧ tab' [] = some root ∧
      ∀ path, path ∈ mapped' ↔ path ∈ mapped ∨ ∃ v ∈ userPages userMem userSize, path = pathOf v ++ [ptIndex v] := by
  have hpages : userPages userMem userSize = pagesTo (userMem / 4096 * 4096) (u64 (userMem + userSize)) := by
    unfold userPages
    rw [if_neg (not_or.2 ⟨hmem0, hsize⟩)]
  have hclear : clearLow 12 userMem = userMem / 4096 * 4096 := clearLow_eq 12 userMem (by decide) hmem
  unfold pagingMapRange at hr
  rw [if_neg (not_or.2 ⟨(h.tree.addr _ _ hroot).2.1, hsize⟩), hclear] at hr
  generalize mapTurns = turns at hr
  have hk := mostPages_cases s₀.pmm userMem userSize
  unfold userTables at hk ⊢
  rw [hpages] at hk ⊢
  obtain ⟨hz, -, hrest⟩ := Built.mapLoop hboot hown turns (userMem / 4096 * 4096) h hroot (by omega) (by omega) hk hr
  exact ⟨hz, hrest⟩

/-- **`paging_create_user_task`** returns `NULL` when there is no page for the PML4; else it has mapped the pages of the
user's memory to themselves, and nothing more. -/
theorem create_spec (hboot : Booted s₀ t) {userMem userSize p : Nat} (hmem : userMem < 2 ^ 64)
    (hown : s₀.pmm.pmmAllocPage.2 ≠ 0 → OwnPages s₀ t (mostPages s₀.pmm userMem userSize))
    (h : pagingCreateUserTask s₀ t userMem userSize = .ok (s, p)) :
    s₀.pmm.pmmAllocPage.2 = p ∧ ((p = 0 ∧ s.pmm = s₀.pmm.pmmAllocPage.1) ∨
    (p ≠ 0 ∧ ∃ tab mapped pages, Built s₀ s tab mapped (userTables userMem userSize) pages ∧ BootTables s.mem t ∧
      tab [] = some p ∧ ∀ path, path ∈ mapped ↔ ∃ v ∈ userPages userMem userSize, path = pathOf v ++ [ptIndex v])) := by
  unfold pagingCreateUserTask at h
  rw [if_neg hboot.nonzero] at h
  rcases halloc : s₀.pmm.pmmAllocPage with ⟨pmm, root⟩
  rw [halloc] at h hown
  simp only at h hown
  by_cases hroot : root = 0
  · rw [if_pos hroot] at h
    cases h
    exact ⟨hroot, .inl ⟨rfl, rfl⟩⟩
  rw [if_neg hroot] at h
  replace hown := hown hroot
  have hk := (mostPages_cases s₀.pmm userMem userSize).imp_left And.right
  have hk₁ : 1 ≤ mostPages s₀.pmm userMem userSize ∨ _ := hk.imp_left (length_le_foldl _ [[]]).trans
  obtain ⟨tab, q, hb, htab⟩ := built_root hboot hown hk₁ halloc hroot
  rw [copyKernel_boot (hb.bootTables hboot hown hk₁)] at h
  by_cases huser : userMem ≠ 0 ∧ userSize > 0
  · rw [if_pos huser] at h
    obtain ⟨r, hr, h⟩ := bind_ok h
    obtain ⟨hz, tab', mapped', pages', hb', htab', hm⟩ := hb.mapRange hboot hown htab hmem huser.1
      (Nat.pos_iff_ne_zero.1 huser.2) hr
    rw [if_neg (fun h => h hz)] at h
    cases h
    refine ⟨rfl, .inr ⟨hroot, tab', mapped', pages', hb', hb'.bootTables hboot hown hk, htab', fun path => ?_⟩⟩
    rw [hm path]
    exact or_iff_right not_mem_nil
  · rw [if_neg huser] at h
    cases h
    have hpages : userPages userMem userSize = [] := by
      unfold userPages
      rw [if_pos]
      by_cases h0 : userMem = 0
      · exact .inl h0
      · exact .inr (by_contra (fun hs => huser ⟨h0, Nat.pos_iff_ne_zero.2 hs⟩))
    unfold userTables
    rw [hpages]
    refine ⟨rfl, .inr ⟨hroot, tab, [], [q], hb, hb.bootTables hboot hown hk₁, htab, fun path => ?_⟩⟩
    exact iff_of_false not_mem_nil (fun ⟨v, hv, _⟩ => not_mem_nil hv)

end Create

/-! ## The kernel in a user task's tables -/

def kernelStart : Nat := 0x00100000

/-- **The kernel is visible** in the tables at `user`: its addresses, up to the end of its image and heap, which hold
its stacks, are translated as in the kernel's tables. -/
def KernelVisible (m : Mem) (user kernel kernelEnd : Nat) : Prop :=
  ∀ va, kernelStart ≤ va → va < kernelEnd → translate m user va = translate m kernel va

theorem path_eq_iff {v va : Nat} (hva : va < 2 ^ 39) :
    pathOf va ++ [ptIndex va] = pathOf v ++ [ptIndex v] ↔ v % 2 ^ 48 / 4096 = va / 4096 := by
  constructor
  · intro heq
    have h1 := congrArg addrOf heq
    rw [addrOf_path, addrOf_path] at h1
    omega
  intro heq
  unfold pathOf
  simp only [cons_append, nil_append, List.cons.injEq, and_true]
  unfold pml4Index pdptIndex pdIndex ptIndex
  omega

theorem translate_user_iff {s s' : Machine} {t userMem userSize p va : Nat} (hboot : Booted s t)
    (hown : OwnPages s t (mostPages s.pmm userMem userSize)) (hmem : userMem < 2 ^ 64)
    (h : pagingCreateUserTask s t userMem userSize = .ok (s', p)) (hp : p ≠ 0)
    (hva : va < 2 ^ 39) : translate s'.mem p va = translate s'.mem t va ↔
      ∃ v ∈ userPages userMem userSize, v % 2 ^ 48 / 4096 = va / 4096 := by
  rcases create_spec hboot hmem (fun _ => hown) h with ⟨-, ⟨hp0, -⟩ | ⟨-, tab, mapped, pages, hb, hkernel, htab, hm⟩⟩
  · exact absurd hp0 hp
  have hiff : pathOf va ++ [ptIndex va] ∈ mapped ↔ ∃ v ∈ userPages userMem userSize, v % 2 ^ 48 / 4096 = va / 4096 :=
    (hm _).trans (exists_congr (fun v => and_congr_right (fun _ => path_eq_iff hva)))
  rw [translate_low hkernel hva, hb.tree.translate_tree htab, ← hiff]
  split
  · rename_i hcov
    refine iff_of_true ?_ hcov
    rw [Nat.mod_eq_of_lt (by omega)]
  · rename_i hcov
    exact iff_of_false nofun hcov

/-- **What the tables of a user task show of the kernel**: it is visible just when the user's memory covers all its
pages. -/
theorem kernel_visible_iff {s s' : Machine} {t userMem userSize p kernelEnd : Nat} (hboot : Booted s t)
    (hown : OwnPages s t (mostPages s.pmm userMem userSize))
    (hmem : userMem < 18446744073709551616) (hend : kernelEnd ≤ 549755813888)
    (h : pagingCreateUserTask s t userMem userSize = .ok (s', p)) (hp : p ≠ 0) : KernelVisible s'.mem p t kernelEnd ↔
      ∀ va, kernelStart ≤ va → va < kernelEnd →
        ∃ v ∈ userPages userMem userSize, v % 281474976710656 / 4096 = va / 4096 := by
  refine forall_congr' (fun va => forall_congr' (fun _ => forall_congr' (fun hhi => ?_)))
  exact translate_user_iff hboot hown hmem h hp (by omega)

def demoKernel : Machine := ⟨bootMem 0x1000000, ⟨4096, fun _ => 0x00#8, 0x8000000, 8, 0⟩, []⟩

theorem demoKernel_booted : Booted demoKernel 0x1000000 where
  tables := bootMem_tables (by decide) (by decide)
  nonzero := by decide
  bitmap := by decide
  fits := by decide
  aligned := by decide

theorem demoKernel_own : OwnPages demoKernel 0x1000000 (mostPages demoKernel.pmm 0x400000 4096) := by
  unfold OwnPages
  decide

def returned : Res (Machine × Nat) → Option Nat
  | .ok (_, p) => some p
  | _ => none

theorem exists_of_returned {r : Res (Machine × Nat)} {p : Nat} (h : returned r = some p) : ∃ s, r = .ok (s, p) := by
  unfold returned at h
  split at h
  · cases h
    exact ⟨_, rfl⟩
  · cases h

theorem demo_create : ∃ s, pagingCreateUserTask demoKernel 0x1000000 0x400000 4096 = .ok (s, 0x8000000) :=
  exists_of_returned (by decide +kernel)

/-- The tables of a user task with one page of memory. -/
theorem demo_kernel_visible_iff : ∃ s p, pagingCreateUserTask demoKernel 0x1000000 0x400000 4096 = .ok (s, p) ∧ p ≠ 0 ∧
    (KernelVisible s.mem p 0x1000000 0x2000000 ↔ ∀ va, kernelStart ≤ va → va < 0x2000000 →
      ∃ v ∈ userPages 0x400000 4096, v % 281474976710656 / 4096 = va / 4096) := by
  obtain ⟨s, h⟩ := demo_create
  exact ⟨s, _, h, by decide, kernel_visible_iff demoKernel_booted demoKernel_own (by decide) (by decide) h (by decide)⟩

/-- **The kernel is not mapped**: with the tables of that task the first address of the kernel is not translated as
before. -/
theorem demo_kernel_hidden : ∃ s p, pagingCreateUserTask demoKernel 0x1000000 0x400000 4096 = .ok (s, p) ∧ p ≠ 0 ∧
    ¬ KernelVisible s.mem p 0x1000000 0x2000000 := by
  obtain ⟨s, h⟩ := demo_create
  refine ⟨s, _, h, by decide, fun hvis => ?_⟩
  have hcov := (translate_user_iff demoKernel_booted demoKernel_own (by decide) h (by decide) (by decide)).1
    (hvis kernelStart (by decide) (by decide))
  exact absurd hcov (by decide)

end Paging
end OS64
