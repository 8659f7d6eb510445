import OS64.SchedInv
/-!
# SchedSteps — the runs of the scheduler

`kill_all_tasks` and `emergency_terminate_all` leave the init task alone in the ring (`Restart`), and
`schedule_from_isr` leaves the ring as it is (`Switch`).  With the other calls these are all steps of a run
(`step_cases`), so after any run the ring is the list that the events give (`ring_queue`).
-/
namespace OS64

open Function List Res

namespace Sched

open Sched.Core

variable {s s' : Sched} {l : List Nat} {p t c regs : Nat} {op : Op} {r : Sched × Nat} {x : Task}

/-! ## Back to the init task -/

/-- **What the two calls that end all tasks leave**: the init task runs, and no task changed but by going. -/
structure Restart (s s' : Sched) : Prop where
  current : s'.current = some 0
  init : ∃ x, s.body 0 = some x ∧ s'.body 0 = some { x with state := .running, halted := false }
  body : ∀ p, p ≠ 0 → s'.body p = s.body p ∨ s'.body p = none

theorem eq_singleton_zero (hnd : l.Nodup) (hne : l ≠ []) (h : ∀ x ∈ l, x = 0) : l = [0] := by
  cases l with
  | nil => exact absurd rfl hne
  | cons a b =>
    obtain rfl := h a (.head _)
    cases b with
    | nil => rfl
    | cons z b =>
      obtain rfl := h z (.tail _ (.head _))
      exact absurd mem_cons_self (nodup_cons.1 hnd).1

theorem becomeInit_spec (hc : Core s l) (hx : s.body 0 = some x) : ∃ s', s.becomeInit = .ok s' ∧ Core s' l ∧
      s'.body = update s.body 0 (some { x with state := .running, halted := false }) ∧ s'.current = some 0 ∧
      s'.zombieList = s.zombieList ∧ s'.taskRing = s.taskRing := by
  obtain ⟨i, hi, rfl⟩ := Option.map_eq_some_iff.1 hx
  unfold becomeInit
  rw [task_ok hi]
  exact ⟨_, rfl, (hc.setTask (y := { i with state := .running, halted := false }) hi rfl rfl).congr
    rfl rfl rfl rfl rfl rfl, body_setTask, rfl, rfl, rfl⟩

theorem Core.note_reset (hc : Core s l) (hring : IsRing s'.nextOf s'.taskRing [0]) (hbody : s'.body = s.body)
    (hnp : s'.nextPid = s.nextPid) (hlog : s'.log = s.log ++ [.reset]) : Core s' [0] where
  ring := hring
  queue := by rw [hlog, queueOf_concat]; rfl
  size := Nat.succ_le_succ (Nat.zero_le _)
  init := by rw [pidOf_eq, hbody, ← pidOf_eq]; exact hc.init
  pids p hp := by rw [pidOf_eq, hbody, ← pidOf_eq]; exact hc.pids p hp
  nextPid := by rw [hnp]; exact hc.nextPid
  passed p hp hp0 := by
    rw [hlog, passedOf_concat] at hp
    rw [pidOf_eq, hbody, ← pidOf_eq]
    exact hc.passed p hp hp0

theorem Inv.of_restart (hc : Core s' [0]) (hz : s'.zombieList = []) (h : Restart s s') : Inv s' [0] := by
  refine ⟨hc, ?_, ?_, ?_, ?_⟩
  · rw [hz]
    exact nodup_nil
  · rw [hz]
    exact fun z hz => absurd hz not_mem_nil
  · rw [hz]
    exact fun z hz => absurd hz not_mem_nil
  · intro c hc
    rw [h.current, Option.some.injEq] at hc
    obtain ⟨x, -, hx⟩ := h.init
    exact ⟨_, hc ▸ hx⟩

theorem killAllTasks_spec (hi : Inv s l) : ∃ s', s.killAllTasks = .ok s' ∧ Inv s' [0] ∧ Restart s s' := by
  obtain ⟨y, a, b, hy, hynext, hl, hhead, hsize⟩ := hi.core.ends
  obtain ⟨s₁, h₁, hc₁, hb₁, heq₁⟩ := killLoop_spec s.turns [] a b hi.core hhead.symm hl hsize
  rw [← hl] at hb₁ heq₁
  -- the zombies are those of before and all tasks of the ring
  have hz₁ : s₁.zombieList = (l.filter (· ≠ 0)).reverse ++ s.zombieList := by rw [heq₁]
  have hmem : ∀ z, z ∈ s₁.zombieList ↔ (z ∈ l ∧ z ≠ 0) ∨ z ∈ s.zombieList := fun z => by
    rw [hz₁, mem_append, mem_reverse, mem_filter, decide_eq_true_iff]
  have hnd : s₁.zombieList.Nodup := by
    rw [hz₁, nodup_append]
    refine ⟨nodup_reverse.2 (hi.core.ring.nodup.filter _), hi.zombieNodup, fun x hx z hz hxz => ?_⟩
    rw [mem_reverse, mem_filter, decide_eq_true_iff] at hx
    exact hi.zombieOut z hz (hxz ▸ hx.2) (hxz ▸ hx.1)
  have hkept : ∀ p, (p ∉ l ∨ p = 0) → s₁.body p = s.body p := fun p hp => by
    rw [hb₁]
    exact if_neg (fun h => hp.elim (fun h' => h' h.1) h.2)
  have halive : ∀ z ∈ s₁.zombieList, ∃ x, s₁.body z = some x := fun z hz => by
    rcases (hmem z).1 hz with ⟨hzl, hz0⟩ | hzs
    · obtain ⟨x, hx⟩ := hc₁.task_of_mem hzl
      exact ⟨x.body, body_of hx⟩
    obtain ⟨x, hx, -⟩ := hi.zombieHalted z hzs
    refine ⟨x, ?_⟩
    rw [hkept z, hx]
    by_cases hz0 : z = 0
    · exact .inr hz0
    · exact .inl (hi.zombieOut z hzs hz0)
  have hc₁' : Core { s₁ with zombieList := [] } l := hc₁.congr rfl rfl rfl rfl rfl rfl
  obtain ⟨s₂, h₂, hc₂, hb₂, hr₂, hz₂, -⟩ := reapList_spec s₁.zombieList hc₁' hnd halive
  -- so the init task is left
  have hlist : s₁.zombieList.foldl removeTask l = [0] := by
    refine eq_singleton_zero hc₂.ring.nodup hc₂.ring.ne_nil (fun x hx => ?_)
    by_contra hx0
    have hxl : x ∈ l := (mem_foldl_removeTask _ _ hx).resolve_left hx0
    exact notMem_foldl_removeTask hx0 _ _ hi.core.ring.nodup ((hmem x).2 (.inl ⟨hxl, hx0⟩)) hx
  rw [hlist] at hc₂
  have htail : s₂.taskRing = 0 := Option.some.inj (hc₂.ring.last.symm.trans rfl)
  obtain ⟨i, hi0⟩ := hi.core.initTask
  have hinit : s₂.body 0 = some i.body := by
    rw [hb₂, freed_zero]
    exact (hkept 0 (.inr rfl)).trans (body_of hi0)
  obtain ⟨s₃, h₃, hc₃, hb₃, hcur₃, hz₃, htail₃⟩ := becomeInit_spec hc₂ hinit
  obtain ⟨r, hr⟩ := hc₃.initTask
  have hpid : r.pid = 0 := (hc₃.pid_eq_zero_iff hr).2 rfl
  have hrun : s.killAllTasks = .ok (s₃.note .reset) := by
    unfold killAllTasks
    rw [task_ok hy]
    simp only [Res.bind]
    rw [hynext, h₁]
    simp only
    rw [reapZombies, h₂]
    simp only
    rw [h₃]
    simp only
    rw [htail₃, htail, task_ok hr]
    exact if_neg (fun h => h hpid)
  have hrestart : Restart s (s₃.note .reset) := by
    refine ⟨hcur₃, ⟨i.body, body_of hi0, ?_⟩, fun p hp => ?_⟩
    · change s₃.body 0 = _
      rw [hb₃, update_self]
    change s₃.body p = _ ∨ s₃.body p = _
    rw [hb₃, update_of_ne hp, hb₂]
    by_cases hpz : p ∈ s₁.zombieList
    · exact .inr (if_pos ⟨hpz, hp⟩)
    · rw [freed_of_notMem hpz]
      refine .inl (hkept p (.inl (fun hpl => hpz ((hmem p).2 (.inl ⟨hpl, hp⟩)))))
  exact ⟨_, hrun, Inv.of_restart (hc₃.note_reset hc₃.ring rfl rfl rfl) (hz₃.trans hz₂) hrestart, hrestart⟩

theorem resetRing_spec (hc : Core s l) : ∃ s', s.resetRing = .ok s' ∧ Core s' [0] ∧ s'.body = s.body := by
  obtain ⟨i, hi⟩ := hc.initTask
  unfold resetRing
  rw [task_ok hi]
  have hbody := body_setTask_next hi 0
  refine ⟨_, rfl, hc.note_reset (IsRing.single ?_) hbody rfl rfl, hbody⟩
  change (s.setTask 0 _).nextOf 0 = some 0
  rw [nextOf_setTask]
  exact update_self ..

theorem emergencyTerminateAll_spec (hi : Inv s l) :
    ∃ s', s.emergencyTerminateAll = .ok s' ∧ Inv s' [0] ∧ Restart s s' := by
  obtain ⟨y, a, b, hy, hynext, hl, hhead, hsize⟩ := hi.core.ends
  obtain ⟨ts, hts, hsub, hne⟩ := collectLoop_spec hi.core.ring s.turns [] a b [] hl hsize
  rw [hhead, nil_append] at hts
  rw [← hl] at hsub
  have hnd : ts.Nodup := hi.core.ring.nodup.sublist hsub
  obtain ⟨s₁, h₁, hc₁, hb₁, -, -, -⟩ := unlinkAll_spec ts hi.core
  have halive : ∀ t ∈ ts, ∃ x, s₁.body t = some x := fun t ht => by
    obtain ⟨x, hx⟩ := hi.core.task_of_mem (hsub.subset ht)
    exact ⟨x.body, by rw [hb₁]; exact body_of hx⟩
  obtain ⟨s₂, h₂, hc₂, hb₂, -, -, -⟩ := freeAll_spec ts hc₁ hnd
    (fun t ht => .inr (notMem_foldl_removeTask (hne t ht) ts l hi.core.ring.nodup ht)) halive
  obtain ⟨s₃, h₃, hc₃, hb₃⟩ := resetRing_spec hc₂
  obtain ⟨i, hi0⟩ := hi.core.initTask
  have hinit : s₃.body 0 = some i.body := by
    rw [hb₃, hb₂, freed_zero, hb₁]
    exact body_of hi0
  obtain ⟨s₄, h₄, hc₄, hb₄, hcur₄, -, -⟩ := becomeInit_spec hc₃ hinit
  have hrun : s.emergencyTerminateAll = .ok { s₄ with zombieList := [] } := by
    unfold emergencyTerminateAll
    rw [task_ok hy]
    simp only [Res.bind]
    rw [hynext, hts]
    simp only
    rw [h₁]
    simp only
    rw [h₂]
    simp only
    rw [h₃]
    simp only
    rw [h₄]
  have hrestart : Restart s { s₄ with zombieList := [] } := by
    refine ⟨hcur₄, ⟨i.body, body_of hi0, ?_⟩, fun p hp => ?_⟩
    · change s₄.body 0 = _
      rw [hb₄, update_self]
    change s₄.body p = _ ∨ s₄.body p = _
    rw [hb₄, update_of_ne hp, hb₃, hb₂]
    by_cases hpt : p ∈ ts
    · exact .inr (if_pos ⟨hpt, hp⟩)
    · rw [freed_of_notMem hpt, hb₁]
      exact .inl rfl
  exact ⟨_, hrun, Inv.of_restart (hc₄.congr rfl rfl rfl rfl rfl rfl) rfl hrestart, hrestart⟩

/-! ## The switch to another task -/

def Runnable (s : Sched) (p : Nat) : Prop := ∃ x, s.tasks p = some x ∧ (x.state = .ready ∨ x.state = .running)

/-- Following `next` from `c`, a task other than `c` can run. -/
def OtherRunnable (s : Sched) (c : Nat) : Prop := ∃ n, n ≠ c ∧ s.Follows c n ∧ s.Runnable n

theorem findTask_visits {start : Nat} {found : Task → Bool} {r : Option Nat} :
    ∀ (n it : Nat), s.findTask start found n it = .ok r → ∃ v : List Nat, (it ∈ v ∨ r = some it) ∧
        (∀ p ∈ v, ∃ x, s.tasks p = some x ∧ found x = false ∧
          (x.next ∈ v ∨ r = some x.next ∨ (r = none ∧ x.next = start))) ∧
        ∀ m, r = some m → (m = it ∨ s.Follows it m) ∧ ∃ x, s.tasks m = some x ∧ found x = true
  | 0, _, h => by cases h
  | n + 1, it, h => by
    obtain ⟨x, hx, h⟩ := bind_ok h
    have hx := of_task_ok hx
    by_cases hf : found x = true
    · rw [if_pos hf, Res.ok.injEq] at h
      subst h
      refine ⟨[], .inr rfl, fun p hp => absurd hp not_mem_nil, fun m hm => ?_⟩
      cases hm
      exact ⟨.inl rfl, x, hx, hf⟩
    rw [if_neg hf] at h
    by_cases hend : x.next = start
    · rw [if_pos hend, Res.ok.injEq] at h
      subst h
      refine ⟨[it], .inl (mem_singleton_self it), fun p hp => ?_, fun m hm => by cases hm⟩
      rw [mem_singleton.1 hp]
      exact ⟨x, hx, Bool.eq_false_iff.2 hf, .inr (.inr ⟨rfl, hend⟩)⟩
    rw [if_neg hend] at h
    obtain ⟨v, hv, hpass, hfound⟩ := findTask_visits n x.next h
    refine ⟨it :: v, .inl (.head _), fun p hp => ?_, fun m hm => ?_⟩
    · rcases mem_cons.1 hp with rfl | hp
      · refine ⟨x, hx, Bool.eq_false_iff.2 hf, ?_⟩
        exact hv.elim (fun h => .inl (.tail _ h)) (fun h => .inr (.inl h))
      · obtain ⟨y, hy, hyf, hynext⟩ := hpass p hp
        exact ⟨y, hy, hyf, hynext.imp_left (mem_cons_of_mem _)⟩
    obtain ⟨hm', hxm⟩ := hfound m hm
    have hstep : s.nextOf it = some x.next := nextOf_of hx
    refine ⟨.inr ?_, hxm⟩
    rcases hm' with rfl | hm'
    · exact Relation.TransGen.single hstep
    · exact Relation.TransGen.head hstep hm'

theorem Follows.mem_of_closed {v : Nat → Prop} (hclosed : ∀ p q, v p → s.nextOf p = some q → v q) {a b : Nat}
    (ha : v a) (h : s.Follows a b) : v b := by
  induction h with
  | single h => exact hclosed _ _ ha h
  | tail _ h ih => exact hclosed _ _ ih h

/-- **`pick_next` finds another task just when there is one to run.** -/
theorem pickNext_spec {r : Option Nat} (hcur : s.current = some c) (h : s.pickNext = .ok r) :
    (s.OtherRunnable c ↔ ∃ n, r = some n ∧ n ≠ c) ∧ ∀ n, r = some n → s.Runnable n := by
  obtain ⟨x, hx, h⟩ := bind_ok h
  rw [hcur] at hx
  have hx : s.tasks c = some x := of_task_ok hx
  have hcx : s.nextOf c = some x.next := nextOf_of hx
  obtain ⟨v, hv, hpass, hfound⟩ := findTask_visits _ _ h
  have hrun : ∀ n, r = some n → s.Runnable n := fun n hn => by
    obtain ⟨-, y, hy, hyf⟩ := hfound n hn
    exact ⟨y, hy, of_decide_eq_true hyf⟩
  refine ⟨⟨?_, ?_⟩, hrun⟩
  · rintro ⟨n, hnc, hfol, y, hy, hyrun⟩
    by_contra hnone
    -- nothing but `c` was found, so all that follows was passed over
    have hr : ∀ m, r = some m → m = c := fun m hm => by
      by_contra hmc
      exact hnone ⟨m, hm, hmc⟩
    have hstart : x.next ∈ v ∨ x.next = c := hv.imp_right (hr _)
    have hmem : n ∈ v ∨ n = c := by
      refine Follows.mem_of_closed (v := fun p => p ∈ v ∨ p = c) (fun p q hp hq => ?_) (.inr rfl) hfol
      rcases hp with hp | rfl
      · obtain ⟨z, hz, -, hznext⟩ := hpass p hp
        rw [nextOf_of hz, Option.some.injEq] at hq
        subst hq
        rcases hznext with h' | h' | ⟨-, h'⟩
        · exact .inl h'
        · exact .inr (hr _ h')
        · exact h' ▸ hstart
      · rw [hcx, Option.some.injEq] at hq
        exact hq ▸ hstart
    obtain ⟨z, hz, hzf, -⟩ := hpass n (hmem.resolve_right hnc)
    rw [hy, Option.some.injEq] at hz
    exact of_decide_eq_false hzf (hz ▸ hyrun)
  · rintro ⟨n, hn, hnc⟩
    obtain ⟨hn', -⟩ := hfound n hn
    refine ⟨n, hnc, ?_, hrun n hn⟩
    rcases hn' with rfl | hn'
    · exact Relation.TransGen.single hcx
    · exact Relation.TransGen.head hcx hn'

def saved (x : Task) (regs : Nat) : Task :=
  { x with regs := regs, state := if x.state = .running then .ready else x.state }

theorem otherRunnable_saved (hx : s.tasks c = some x) (regs : Nat) :
    (s.setTask c (saved x regs)).OtherRunnable c ↔ s.OtherRunnable c := by
  have hnext : (s.setTask c (saved x regs)).nextOf = s.nextOf := by
    rw [nextOf_setTask, show (saved x regs).next = x.next from rfl, ← nextOf_of hx, update_eq_self]
  unfold OtherRunnable Follows
  rw [hnext]
  refine exists_congr (fun n => and_congr_right (fun hn => and_congr_right (fun _ => ?_)))
  unfold Runnable
  rw [setTask_tasks, update_of_ne hn]

/-- **A switch from `c` to `n`**, which are the same when there is nothing else to run. -/
structure Switch (s s' : Sched) (regs c n : Nat) (x y : Task) : Prop where
  current : s.current = some c
  left : s.body c = some x
  entered : update s.body c (some (saved x regs)) n = some y
  body : s'.body = update (update s.body c (some (saved x regs))) n (some { y with state := .running })
  current' : s'.current = some n
  loaded : s'.loaded = if y.pageTable = none then s.loaded else y.pageTable
  released : s'.released = s.released
  utaskLock : s'.utaskLock = s.utaskLock
  zombieList : s'.zombieList = s.zombieList
  runnable : n ≠ c → y.state = .ready ∨ y.state = .running
  other : n ≠ c ↔ s.needReschedule = true ∧ s.OtherRunnable c

/-- **The first interrupt**: the init task becomes the current one. -/
structure FirstSwitch (s s' : Sched) : Prop where
  current : s.current = none
  current' : s'.current = some 0
  body : ∃ x y, s.body 0 = some x ∧ y.halted = x.halted ∧ y.pageTable = x.pageTable ∧ y.state = .running ∧
    s'.body = update s.body 0 (some y)
  loaded : s'.loaded = s.loaded
  released : s'.released = s.released
  utaskLock : s'.utaskLock = s.utaskLock
  zombieList : s'.zombieList = s.zombieList

theorem dispatch_spec {n : Nat} (h : s.dispatch n = .ok r) :
    ∃ y, s.tasks n = some y ∧ r.1 = { s.setTask n { y with state := .running } with
      syscallKstackTop := y.kstackTop, loaded := if y.pageTable = none then s.loaded else y.pageTable } := by
  obtain ⟨y, hy, h⟩ := bind_ok h
  refine ⟨y, of_task_ok hy, ?_⟩
  cases h
  cases hp : y.pageTable with
  | none => rfl
  | some m => rfl

theorem schedule_first (hcur : s.current = none) (hi : Inv s l)
    (h : s.scheduleFromIsr regs = .ok r) : FirstSwitch s r.1 ∧ Inv r.1 l := by
  unfold scheduleFromIsr at h
  split at h
  · cases h
  rw [hcur] at h
  obtain ⟨i, hi0, h⟩ := bind_ok h
  have hi0 := of_task_ok hi0
  cases h
  have hbody := body_setTask (s := s) (p := 0)
    (t := { i with kstackTop := s.initStackTop, regs := regs, state := .running })
  have hc : Core (s.setTask 0 { i with kstackTop := s.initStackTop, regs := regs, state := .running }) l :=
    hi.core.setTask hi0 rfl rfl
  have hfirst : FirstSwitch s { s.setTask 0 { i with kstackTop := s.initStackTop, regs := regs, state := .running } with
      current := some 0, syscallKstackTop := s.initStackTop, needReschedule := false } :=
    ⟨hcur, rfl, ⟨i.body, Task.body { i with kstackTop := s.initStackTop, regs := regs, state := .running },
      body_of hi0, rfl, rfl, rfl, hbody⟩, rfl, rfl, rfl, rfl⟩
  refine ⟨hfirst, hc.congr rfl rfl rfl rfl rfl rfl, hi.zombieNodup, fun z hz => ?_, hi.zombieOut, fun c hc => ?_⟩
  · obtain ⟨x, hx, hxh⟩ := hi.zombieHalted z hz
    change ∃ x, (s.setTask 0 _).body z = _ ∧ _
    rw [hbody, update_apply]
    split
    · rename_i hz0
      rw [hz0, body_of hi0, Option.some.injEq] at hx
      rw [← hx] at hxh
      exact ⟨_, rfl, hxh⟩
    · exact ⟨x, hx, hxh⟩
  · cases hc
    exact ⟨_, rfl⟩

theorem schedule_chosen (hcur : s.current = some c)
    (h : s.scheduleFromIsr regs = .ok r) :
    ∃ x n, s.tasks c = some x ∧
      { s.setTask c (saved x regs) with current := some n, needReschedule := false }.dispatch n =
        .ok r ∧ (n ≠ c ↔ s.needReschedule = true ∧ s.OtherRunnable c) ∧
        (n ≠ c → (s.setTask c (saved x regs)).Runnable n) := by
  unfold scheduleFromIsr at h
  split at h
  · cases h
  rw [hcur] at h
  obtain ⟨x, hx, h⟩ := bind_ok h
  have hx := of_task_ok hx
  refine ⟨x, ?_⟩
  change (if s.needReschedule = true then (s.setTask c (saved x regs)).pickNext.bind _
    else (s.setTask c (saved x regs)).dispatch c) = _ at h
  by_cases hflag : s.needReschedule = true
  · rw [if_pos hflag] at h
    obtain ⟨m, hm, h⟩ := bind_ok h
    obtain ⟨hother, hrun⟩ := pickNext_spec (s := s.setTask c (saved x regs)) hcur hm
    rw [otherRunnable_saved hx] at hother
    refine ⟨m.getD c, hx, h, ?_, fun hne => ?_⟩
    · rw [hother, and_iff_right hflag]
      cases m with
      | none => exact ⟨fun h => absurd rfl h, fun ⟨n, hn, _⟩ => nomatch hn⟩
      | some n => exact ⟨fun h => ⟨n, rfl, h⟩, fun ⟨n', hn', hne⟩ => Option.some.inj hn' ▸ hne⟩
    · cases m with
      | none => exact absurd rfl hne
      | some n => exact hrun n rfl
  · rw [if_neg hflag] at h
    have hflag' : s.needReschedule = false := Bool.eq_false_iff.2 hflag
    have hsame : { s.setTask c (saved x regs) with current := some c, needReschedule := false } =
        s.setTask c (saved x regs) := by
      rw [← hcur, ← hflag']
      rfl
    exact ⟨c, hx, hsame ▸ h, ⟨fun h => absurd rfl h, fun h => absurd h.1 hflag⟩, fun h => absurd rfl h⟩

theorem schedule_switch (hcur : s.current = some c) (hi : Inv s l)
    (h : s.scheduleFromIsr regs = .ok r) : (∃ n x y, Switch s r.1 regs c n x y) ∧ Inv r.1 l := by
  obtain ⟨x, n, hx, hd, hother, hrun⟩ := schedule_chosen hcur h
  obtain ⟨y, hy, hr⟩ := dispatch_spec hd
  have hb₁ : (s.setTask c (saved x regs)).body = update s.body c (some (saved x.body regs)) := body_setTask
  have hbody : r.1.body = update (update s.body c (some (saved x.body regs))) n
      (some { y.body with state := .running }) := by
    rw [hr, ← hb₁]
    exact body_setTask
  have hc : Core ((s.setTask c (saved x regs)).setTask n { y with state := .running }) l :=
    (hi.core.setTask (y := saved x regs) hx rfl rfl).setTask hy rfl rfl
  have hentered : update s.body c (some (saved x.body regs)) n = some y.body := by
    rw [← hb₁]
    exact body_of hy
  have hhalted : ∀ z w, s.body z = some w → ∃ w', r.1.body z = some w' ∧ w'.halted = w.halted := fun z w hw => by
    have h₁ : ∃ w', update s.body c (some (saved x.body regs)) z = some w' ∧ w'.halted = w.halted := by
      rw [update_apply]
      split
      · rename_i hzc
        rw [hzc, body_of hx, Option.some.injEq] at hw
        exact ⟨_, rfl, hw ▸ rfl⟩
      · exact ⟨w, hw, rfl⟩
    obtain ⟨w', hw', hh⟩ := h₁
    rw [hbody, update_apply]
    split
    · rename_i hzn
      rw [hzn, hentered, Option.some.injEq] at hw'
      exact ⟨_, rfl, by rw [← hh, ← hw']⟩
    · exact ⟨w', hw', hh⟩
  have hcur' : r.1.current = some n := by rw [hr]; rfl
  have hz : r.1.zombieList = s.zombieList := by rw [hr]; rfl
  refine ⟨⟨n, x.body, y.body, ⟨hcur, body_of hx, hentered, hbody, hcur', ?_, ?_, ?_, hz, fun hne => ?_, hother⟩⟩,
    ?_, hz ▸ hi.zombieNodup, fun z hzm => ?_, hz ▸ hi.zombieOut, fun q hq => ?_⟩
  · rw [hr]
    rfl
  · rw [hr]
    rfl
  · rw [hr]
    rfl
  · obtain ⟨y', hy', hst⟩ := hrun hne
    rw [hy, Option.some.injEq] at hy'
    exact hy' ▸ hst
  · rw [hr]
    exact hc.congr rfl rfl rfl rfl rfl rfl
  · rw [hz] at hzm
    obtain ⟨w, hw, hwh⟩ := hi.zombieHalted z hzm
    obtain ⟨w', hw', hh⟩ := hhalted z w hw
    exact ⟨w', hw', hh.trans hwh⟩
  · rw [hcur', Option.some.injEq] at hq
    rw [← hq, hbody, update_self]
    exact ⟨_, rfl⟩

/-! ## Runs -/

theorem timer_same (s : Sched) : ∃ flag counter,
    s.timerApicHandler = { s with needReschedule := flag, preemptCounter := counter } := by
  unfold timerApicHandler
  split
  · exact ⟨_, _, rfl⟩
  · exact ⟨_, _, rfl⟩

/-- **All that a step of a run can do.** -/
theorem step_cases (hi : Inv s l) (ha : s.Allowed op) (h : s.step op = .ok s') : (∃ l', Inv s' l' ∧ Quiet s l s' l' ∧
      (∀ regs, op ≠ .scheduleFromIsr regs) ∧ op ≠ .killAllTasks ∧ op ≠ .emergencyTerminateAll) ∨
    (Inv s' [0] ∧ Restart s s' ∧ (op = .killAllTasks ∨ op = .emergencyTerminateAll)) ∨
    (Inv s' l ∧ FirstSwitch s s' ∧ ∃ regs, op = .scheduleFromIsr regs) ∨
    (Inv s' l ∧ ∃ regs c n x y, Switch s s' regs c n x y ∧ op = .scheduleFromIsr regs) ∨
    (Inv s' l ∧ (∃ flag counter, s' = { s with needReschedule := flag, preemptCounter := counter }) ∧
      op = .timerApicHandler) := by
  cases op with
  | taskCreate p regs kstackTop =>
    obtain ⟨s₁, l', h₁, hi', hq⟩ := taskCreate_spec hi ha.2 regs kstackTop
    cases h₁.symm.trans h
    exact .inl ⟨l', hi', hq, nofun, nofun, nofun⟩
  | utaskCreate p regs kstackTop pml4 =>
    have hlock : s.utaskLock = false := by
      cases hlock : s.utaskLock with
      | false => rfl
      | true =>
        change s.utaskCreate p regs kstackTop pml4 = .ok s' at h
        unfold utaskCreate at h
        rw [if_pos hlock] at h
        cases h
    obtain ⟨s₁, l', h₁, hi', hq⟩ := utaskCreate_spec hi ha.2 hlock regs kstackTop pml4
    cases h₁.symm.trans h
    exact .inl ⟨l', hi', hq, nofun, nofun, nofun⟩
  | taskStop pid =>
    obtain ⟨s₁, l', h₁, hi', hq⟩ := taskStop_spec hi ha pid
    cases h₁.symm.trans h
    exact .inl ⟨l', hi', hq, nofun, nofun, nofun⟩
  | taskExit exitCode =>
    obtain ⟨s₁, l', h₁, hi', hq⟩ := taskExit_spec hi ha exitCode
    cases h₁.symm.trans h
    exact .inl ⟨l', hi', hq, nofun, nofun, nofun⟩
  | reapZombies =>
    obtain ⟨s₁, l', h₁, hi', -, hsh⟩ := reapZombies_spec hi ha
    cases h₁.symm.trans h
    exact .inl ⟨l', hi', hsh.quiet, nofun, nofun, nofun⟩
  | killAllTasks =>
    obtain ⟨s₁, h₁, hi', hr⟩ := killAllTasks_spec hi
    cases h₁.symm.trans h
    exact .inr (.inl ⟨hi', hr, .inl rfl⟩)
  | emergencyTerminateAll =>
    obtain ⟨s₁, h₁, hi', hr⟩ := emergencyTerminateAll_spec hi
    cases h₁.symm.trans h
    exact .inr (.inl ⟨hi', hr, .inr rfl⟩)
  | scheduleFromIsr regs =>
    obtain ⟨r, hr, h⟩ := bind_ok h
    cases h
    cases hcur : s.current with
    | none =>
      obtain ⟨hf, hi'⟩ := schedule_first hcur hi hr
      exact .inr (.inr (.inl ⟨hi', hf, regs, rfl⟩))
    | some c =>
      obtain ⟨⟨n, x, y, hs⟩, hi'⟩ := schedule_switch hcur hi hr
      exact .inr (.inr (.inr (.inl ⟨hi', regs, c, n, x, y, hs, rfl⟩)))
  | timerApicHandler =>
    cases h
    obtain ⟨flag, counter, heq⟩ := timer_same s
    refine .inr (.inr (.inr (.inr ⟨?_, ⟨flag, counter, heq⟩, rfl⟩)))
    rw [heq]
    exact ⟨hi.core.congr rfl rfl rfl rfl rfl rfl, hi.zombieNodup, hi.zombieHalted, hi.zombieOut, hi.current⟩

theorem Inv.step (hi : Inv s l) (h : Step s s') : ∃ l', Inv s' l' := by
  obtain ⟨op, ha, h⟩ := h
  rcases step_cases hi ha h with ⟨l', hi', -⟩ | ⟨hi', -⟩ | ⟨hi', -⟩ | ⟨hi', -⟩ | ⟨hi', -⟩
  all_goals exact ⟨_, hi'⟩

theorem Inv.run (hi : Inv s l) (h : Relation.ReflTransGen Step s s') : ∃ l', Inv s' l' := by
  induction h with
  | refl => exact ⟨l, hi⟩
  | tail _ h ih =>
    obtain ⟨l', hi'⟩ := ih
    exact hi'.step h

theorem Reach.inv (h : Reach s) : ∃ l, Inv s l := by
  obtain ⟨initStackTop, h⟩ := h
  exact (Inv.schedulerInit initStackTop).run h

/-- **No call gets stuck**: in every state of a run each call of the current task returns, a second `utask_create`
apart. -/
theorem call_returns (h : Reach s) (ha : s.Allowed op) (hop : ∀ regs, op ≠ .scheduleFromIsr regs)
    (hlock : ∀ p regs kstackTop pml4, op = .utaskCreate p regs kstackTop pml4 → s.utaskLock = false) :
    ∃ s', s.step op = .ok s' := by
  obtain ⟨l, hi⟩ := h.inv
  cases op with
  | taskCreate p regs kstackTop => exact (taskCreate_spec hi ha.2 regs kstackTop).imp (fun s' ⟨_, h, _⟩ => h)
  | utaskCreate p regs kstackTop pml4 =>
    exact (utaskCreate_spec hi ha.2 (hlock p _ _ _ rfl) regs kstackTop pml4).imp (fun s' ⟨_, h, _⟩ => h)
  | taskStop pid => exact (taskStop_spec hi ha pid).imp (fun s' ⟨_, h, _⟩ => h)
  | taskExit exitCode => exact (taskExit_spec hi ha exitCode).imp (fun s' ⟨_, h, _⟩ => h)
  | reapZombies => exact (reapZombies_spec hi ha).imp (fun s' ⟨_, h, _⟩ => h)
  | killAllTasks => exact (killAllTasks_spec hi).imp (fun s' h => h.1)
  | emergencyTerminateAll => exact (emergencyTerminateAll_spec hi).imp (fun s' h => h.1)
  | scheduleFromIsr regs => exact absurd rfl (hop regs)
  | timerApicHandler => exact ⟨_, rfl⟩

/-- **The ring is a queue.**  After any run the tasks that `next` leads through from `task_ring->next` on are pairwise
different, end at `task_ring` and lead back to the first.  They are the created tasks without the unlinked ones, or the
init task where none is left, and none but the init task was passed to `free_task_resources`. -/
theorem ring_queue (h : Reach s) : ∃ l, IsRing s.nextOf s.taskRing l ∧ l ≠ [] ∧ l = queueOf s.log ∧
    ∀ t ∈ l, t ≠ 0 → t ∉ passedOf s.log := by
  obtain ⟨l, hi⟩ := h.inv
  refine ⟨l, hi.core.ring, hi.core.ring.ne_nil, hi.core.queue.symm, fun t ht ht0 hp => ?_⟩
  obtain ⟨x, hx⟩ := hi.core.task_of_mem ht
  have hnone := hi.core.passed t hp ht0
  unfold pidOf at hnone
  rw [hx] at hnone
  cases hnone

theorem init_not_halted (initStackTop : Nat) : ¬ (schedulerInit initStackTop).CurrentHalted := by
  rintro ⟨c, x, hc, -⟩
  cases hc

theorem created_ring_queue : ∃ s, (schedulerInit 0).step (.taskCreate 5 1 2) = .ok s ∧
    ∃ l, IsRing s.nextOf s.taskRing l ∧ l ≠ [] ∧ l = queueOf s.log ∧ ∀ t ∈ l, t ≠ 0 → t ∉ passedOf s.log :=
  ⟨_, rfl, ring_queue ⟨0, .single ⟨.taskCreate 5 1 2, ⟨init_not_halted 0, rfl⟩, rfl⟩⟩⟩

/-- **The init task is passed on too**: `task_stop(0)` hands it to `free_task_resources`, and it stays in the ring. -/
theorem init_passed : ∃ s, Reach s ∧ s.InRing 0 ∧ 0 ∈ passedOf s.log := by
  refine ⟨_, ⟨0, .single ⟨.taskStop 0, init_not_halted 0, rfl⟩⟩, Relation.TransGen.single rfl, ?_⟩
  exact .head _

theorem not_halted (hc : s.current = some c) (hx : s.tasks c = some x) (hh : x.halted = false) :
    ¬ s.CurrentHalted := by
  rintro ⟨c', x', hc', hx', hh'⟩
  cases hc.symm.trans hc'
  cases hx.symm.trans hx'
  cases hh.symm.trans hh'

theorem Reach.step (h : Reach s) (op : Op) (ha : s.Allowed op) (hop : s.step op = .ok s') : Reach s' := by
  obtain ⟨initStackTop, h⟩ := h
  exact ⟨initStackTop, h.tail ⟨op, ha, hop⟩⟩

theorem Reach.timers (h : Reach s) : ∀ n, Reach (timerApicHandler^[n] s)
  | 0 => h
  | n + 1 => by
    rw [Function.iterate_succ_apply']
    exact (h.timers n).step .timerApicHandler trivial rfl

/-- A task is created, scheduled and exits; then the init task runs again. -/
theorem exited_run : ∃ s, Reach s ∧ s.zombieList = [5] ∧ ¬ s.CurrentHalted := by
  have h₁ := Reach.step ⟨0, .refl⟩ (.scheduleFromIsr 1) trivial rfl
  have h₂ := h₁.step (.taskCreate 5 1 2) ⟨not_halted rfl rfl rfl, rfl⟩ rfl
  have h₃ := (h₂.timers 10).step (.scheduleFromIsr 1) trivial rfl
  have h₄ := h₃.step (.taskExit 7) (not_halted rfl rfl rfl) rfl
  have h₅ := (h₄.timers 10).step (.scheduleFromIsr 1) trivial rfl
  exact ⟨_, h₅, rfl, not_halted rfl rfl rfl⟩

theorem exited_returns : ∃ s s' : Sched, s.zombieList = [5] ∧ s.step .reapZombies = .ok s' := by
  obtain ⟨s, h, hz, ha⟩ := exited_run
  obtain ⟨s', hs'⟩ : ∃ s', s.step .reapZombies = .ok s' := call_returns h ha nofun nofun
  exact ⟨s, s', hz, hs'⟩

end Sched

end OS64
