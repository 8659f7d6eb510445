import OS64.SchedCalls
/-!
# SchedInv — what the calls of the scheduler keep

Each call of `kernel/sched.c` returns in a state of a run, keeps what holds of the ring, the zombies and the current
task (`Inv`), and changes no task but those it creates, ends or frees (`Quiet`).
-/
namespace OS64

open Function List

namespace Sched

open Sched.Core

variable {s s' s'' : Sched} {l l' l'' : List Nat} {c p t : Nat}

/-- **What holds in every state of a run.**  Zombies are tasks that halted, and no longer in the ring. -/
structure Inv (s : Sched) (l : List Nat) : Prop where
  core : Core s l
  zombieNodup : s.zombieList.Nodup
  zombieHalted : ∀ z ∈ s.zombieList, ∃ x, s.body z = some x ∧ x.halted = true
  zombieOut : ∀ z ∈ s.zombieList, z ≠ 0 → z ∉ l
  current : ∀ c, s.current = some c → ∃ x, s.body c = some x

theorem Inv.schedulerInit (initStackTop : Nat) : Inv (schedulerInit initStackTop) [0] where
  core := Core.schedulerInit initStackTop
  zombieNodup := nodup_nil
  zombieHalted _ hz := absurd hz not_mem_nil
  zombieOut _ hz := absurd hz not_mem_nil
  current _ hc := nomatch hc

theorem currentHalted_iff : s.CurrentHalted ↔ ∃ c x, s.current = some c ∧ s.body c = some x ∧ x.halted = true := by
  constructor
  · rintro ⟨c, x, hc, hx, hh⟩
    exact ⟨c, x.body, hc, body_of hx, hh⟩
  · rintro ⟨c, x, hc, hx, hh⟩
    obtain ⟨y, hy, rfl⟩ := Option.map_eq_some_iff.1 hx
    exact ⟨c, y, hc, hy, hh⟩

/-! ## Reaping and dropping -/

structure Shrinks (s : Sched) (l : List Nat) (s' : Sched) (l' : List Nat) : Prop where
  rest : SameRest s s'
  body : ∀ p, s'.body p = s.body p ∨ (s'.body p = none ∧ p ≠ 0 ∧ s.current ≠ some p)
  mem : ∀ p ∈ l', p = 0 ∨ p ∈ l
  released : ∀ m ∈ s'.released, m ∈ s.released ∨ ∃ p x, s.body p = some x ∧ s'.body p = none ∧ x.pageTable = some m

theorem Shrinks.trans (h : Shrinks s l s' l') (h' : Shrinks s' l' s'' l'') : Shrinks s l s'' l'' where
  rest := h.rest.trans h'.rest
  body p := by
    rcases h'.body p with hp | ⟨hp, hp0, hpc⟩
    · rw [hp]
      exact h.body p
    · exact .inr ⟨hp, hp0, h.rest.current ▸ hpc⟩
  mem p hp := (h'.mem p hp).elim .inl (h.mem p)
  released m hm := by
    rcases h'.released m hm with hm | ⟨p, x, hx, hp, hxm⟩
    · rcases h.released m hm with hm | ⟨p, x, hx, hp, hxm⟩
      · exact .inl hm
      · refine .inr ⟨p, x, hx, ?_, hxm⟩
        rcases h'.body p with h'' | h''
        · exact h''.trans hp
        · exact h''.1
    · refine .inr ⟨p, x, ?_, hp, hxm⟩
      rcases h.body p with h'' | h''
      · exact h''.symm.trans hx
      · rw [h''.1] at hx
        cases hx

theorem Shrinks.body_current (h : Shrinks s l s' l') (hc : s.current = some c) : s'.body c = s.body c :=
  (h.body c).resolve_right (fun h' => h'.2.2 hc)

theorem shrinks_of_freed {ts : List Nat} (hrest : SameRest s s') (hbody : s'.body = freed ts s.body)
    (hrel : ReleasedBy ts s s') (hcur : ∀ t ∈ ts, t ≠ 0 → s.current ≠ some t) (hmem : ∀ p ∈ l', p = 0 ∨ p ∈ l) :
    Shrinks s l s' l' where
  rest := hrest
  body p := by
    rw [hbody]
    unfold freed
    split
    · rename_i h
      exact .inr ⟨rfl, h.2, hcur p h.1 h.2⟩
    · exact .inl rfl
  mem := hmem
  released m hm := by
    rcases hrel m hm with hm | ⟨p, hp, hp0, x, hx, hxm⟩
    · exact .inl hm
    · refine .inr ⟨p, x, hx, ?_, hxm⟩
      rw [hbody]
      exact if_pos ⟨hp, hp0⟩

theorem Inv.current_of_shrinks (hi : Inv s l) (h : Shrinks s l s' l') (c : Nat) (hc : s'.current = some c) :
    ∃ x, s'.body c = some x := by
  rw [h.rest.current] at hc
  rw [h.body_current hc]
  exact hi.current c hc

theorem reapZombies_spec (hi : Inv s l) (hh : ¬ s.CurrentHalted) :
    ∃ s' l', s.reapZombies = .ok s' ∧ Inv s' l' ∧ s'.zombieList = [] ∧ Shrinks s l s' l' := by
  have hc : Core { s with zombieList := [] } l := hi.core.congr rfl rfl rfl rfl rfl rfl
  obtain ⟨s', h', hc', hb', hr', hz', hrel'⟩ := reapList_spec s.zombieList hc hi.zombieNodup
    (fun z hz => (hi.zombieHalted z hz).imp (fun x hx => hx.1))
  have hsh : Shrinks s l s' (s.zombieList.foldl removeTask l) := by
    refine shrinks_of_freed ⟨hr'.created, hr'.current, hr'.nextPid, hr'.needReschedule, hr'.utaskLock, hr'.loaded⟩
      hb' hrel'
      (fun z hz _ hcur => ?_) (fun p hp => mem_foldl_removeTask _ _ hp)
    obtain ⟨x, hx, hxh⟩ := hi.zombieHalted z hz
    exact hh (currentHalted_iff.2 ⟨z, x, hcur, hx, hxh⟩)
  refine ⟨s', _, h', ⟨hc', ?_, ?_, ?_, hi.current_of_shrinks hsh⟩, hz', hsh⟩
  all_goals rw [hz']
  · exact nodup_nil
  · exact fun z hz => absurd hz not_mem_nil
  · exact fun z hz => absurd hz not_mem_nil

theorem drop_spec (hi : Inv s l) (hz : s.zombieList = []) (hp : p ∈ l) (hcur : s.current ≠ some p) :
    ∃ s₁ s', s.unlinkFromRing p = .ok s₁ ∧ s₁.freeTaskResources p = .ok s' ∧ Inv s' (removeTask l p) ∧
      Shrinks s l s' (removeTask l p) := by
  obtain ⟨y, hy⟩ := hi.core.task_of_mem hp
  obtain ⟨s₁, h₁, hc₁, hb₁, hr₁, hz₁, hrel₁⟩ := hi.core.unlink_spec p
  have hout : p = 0 ∨ p ∉ removeTask l p := by
    by_cases hp0 : p = 0
    · exact .inl hp0
    · exact .inr (notMem_removeTask hi.core.ring.nodup hp0)
  obtain ⟨s', h', hc', hb', hr', hz', hrel'⟩ := hc₁.free_spec hout (by rw [hb₁]; exact body_of hy)
  have hsh : Shrinks s l s' (removeTask l p) := by
    refine shrinks_of_freed (hr₁.trans hr') (hb₁ ▸ hb') ?_ (fun z hz _ => ?_) (fun q hq => mem_removeTask hq)
    · intro m hm
      rcases hrel' m hm with hm | hm
      · exact .inl (hrel₁ ▸ hm)
      · exact .inr (hb₁ ▸ hm)
    · rwa [mem_singleton.1 hz]
  have hnil : s'.zombieList = [] := hz'.trans (hz₁.trans hz)
  refine ⟨s₁, s', h₁, h', ⟨hc', ?_, ?_, ?_, hi.current_of_shrinks hsh⟩, hsh⟩
  all_goals rw [hnil]
  · exact nodup_nil
  · exact fun z hz => absurd hz not_mem_nil
  · exact fun z hz => absurd hz not_mem_nil

def dead (x : Task) (exitCode : Option Int) : Task :=
  { x with state := .zombie, exitCode := exitCode.getD x.exitCode, halted := true }

theorem die_spec (hi : Inv s l) (hz : s.zombieList = []) (hcur : s.current = some c) {x : Task}
    (hx : s.body c = some x) (exitCode : Option Int) :
    ∃ s', s.die c exitCode = .ok s' ∧ Inv s' (removeTask l c) ∧ SameRest s s' ∧
      s'.body = update s.body c (some (dead x exitCode)) ∧ s'.released = s.released := by
  obtain ⟨y, hy, rfl⟩ := Option.map_eq_some_iff.1 hx
  have hc : Core { s.setTask c { y with state := .zombie, exitCode := exitCode.getD y.exitCode, halted := true } with
      zombieList := c :: s.zombieList } l :=
    (hi.core.setTask (y := { y with state := .zombie, exitCode := exitCode.getD y.exitCode, halted := true })
      hy rfl rfl).congr rfl rfl rfl rfl rfl rfl
  obtain ⟨s', h', hc', hb', hr', hz', hrel'⟩ := hc.unlink_spec c
  have hbody : s'.body = update s.body c (some (dead y.body exitCode)) := hb'.trans body_setTask
  have hzc : s'.zombieList = [c] := by
    refine hz'.trans ?_
    rw [hz]
  refine ⟨s', ?_, ⟨hc', ?_, ?_, ?_, ?_⟩,
    ⟨hr'.created, hr'.current, hr'.nextPid, hr'.needReschedule, hr'.utaskLock, hr'.loaded⟩, hbody, hrel'⟩
  · unfold die
    rwa [task_ok hy]
  · rw [hzc]
    exact nodup_singleton c
  · intro z hz
    rw [hzc, mem_singleton] at hz
    rw [hz, hbody, update_self]
    exact ⟨_, rfl, rfl⟩
  · intro z hz hz0
    rw [hzc, mem_singleton] at hz
    rw [hz] at hz0 ⊢
    exact notMem_removeTask hi.core.ring.nodup hz0
  · intro q hq
    obtain rfl : c = q := Option.some.inj (hcur.symm.trans (hr'.current.symm.trans hq))
    rw [hbody, update_self]
    exact ⟨_, rfl⟩

/-! ## The calls of the current task -/

/-- **What a call does**: the current task may die, tasks that are neither the current nor the init task may go, and a
new task may come, with a page table of its own only while the lock of `utask_create` is free. -/
structure Quiet (s : Sched) (l : List Nat) (s' : Sched) (l' : List Nat) : Prop where
  current : s'.current = s.current
  loaded : s'.loaded = s.loaded
  utaskLock : s.utaskLock = true → s'.utaskLock = true
  body : ∀ p x', s'.body p = some x' → s.body p = some x' ∨
    (s.current = some p ∧ ∃ x exitCode, s.body p = some x ∧ x.halted = false ∧ x' = dead x exitCode) ∨
    (s.body p = none ∧ x'.state = .ready ∧ x'.halted = false ∧
      ∀ m, x'.pageTable = some m → s.utaskLock = false ∧ s'.utaskLock = true ∧ m ∉ s'.released)
  fresh : ∀ p q x y, s.body p = none → s.body q = none → s'.body p = some x → s'.body q = some y → p = q
  gone : ∀ p x, s.body p = some x → s'.body p = none → p ≠ 0 ∧ s.current ≠ some p
  mem : ∀ p ∈ l', p = 0 ∨ p ∈ l ∨ s.body p = none
  released : ∀ m ∈ s'.released, m ∈ s.released ∨ ∃ p x, s.body p = some x ∧ s'.body p = none ∧ x.pageTable = some m

theorem Shrinks.quiet (h : Shrinks s l s' l') : Quiet s l s' l' where
  current := h.rest.current
  loaded := h.rest.loaded
  utaskLock hl := h.rest.utaskLock.trans hl
  body p x' hx' := by
    rcases h.body p with hp | hp
    · exact .inl (hp ▸ hx')
    · rw [hp.1] at hx'
      cases hx'
  fresh p q x y hp _ hx _ := by
    rw [(h.body p).elim (fun h' => h'.trans hp) And.left] at hx
    cases hx
  gone p x hx hp := by
    rcases h.body p with hp' | hp'
    · rw [hp', hx] at hp
      cases hp
    · exact hp'.2
  mem p hp := (h.mem p hp).imp_right .inl
  released := h.released

theorem Shrinks.quiet_die (h : Shrinks s l s' l') (hh : ¬ s.CurrentHalted) (hcur : s'.current = some c) {x : Task}
    (hx : s'.body c = some x) {exitCode : Option Int} (hrest : SameRest s' s'')
    (hbody : s''.body = update s'.body c (some (dead x exitCode))) (hrel : s''.released = s'.released)
    (hmem : ∀ p ∈ l'', p = 0 ∨ p ∈ l') : Quiet s l s'' l'' := by
  have hcur' : s.current = some c := h.rest.current ▸ hcur
  rw [h.body_current hcur'] at hx
  have hxh : x.halted = false := by
    cases hxh : x.halted with
    | false => rfl
    | true => exact absurd (currentHalted_iff.2 ⟨c, x, hcur', hx, hxh⟩) hh
  have hother : ∀ p, p ≠ c → s''.body p = s'.body p := fun p hp => by
    rw [hbody, update_of_ne hp]
  refine ⟨hrest.current.trans h.rest.current, hrest.loaded.trans h.rest.loaded,
    fun hl => hrest.utaskLock.trans (h.rest.utaskLock.trans hl), fun p x' hx' => ?_, fun p q y z hp hq hy hz => ?_,
    fun p y hy hp => ?_, fun p hp => ?_, fun m hm => ?_⟩
  · by_cases hp : p = c
    · subst hp
      rw [hbody, update_self, Option.some.injEq] at hx'
      exact .inr (.inl ⟨hcur', x, exitCode, hx, hxh, hx'.symm⟩)
    rw [hother p hp] at hx'
    exact .inl ((h.quiet.body p x' hx').elim id (fun h' => by
      rcases h.body p with hb | hb
      · exact hb.symm.trans hx'
      · rw [hb.1] at hx'
        cases hx'))
  · have hpc : p ≠ c := by
      rintro rfl
      rw [hp] at hx
      cases hx
    have hqc : q ≠ c := by
      rintro rfl
      rw [hq] at hx
      cases hx
    rw [hother p hpc] at hy
    rw [hother q hqc] at hz
    exact h.quiet.fresh p q y z hp hq hy hz
  · by_cases hpc : p = c
    · rw [hpc, hbody, update_self] at hp
      cases hp
    · rw [hother p hpc] at hp
      exact h.quiet.gone p y hy hp
  · exact (hmem p hp).elim .inl (h.quiet.mem p)
  · rw [hrel] at hm
    rcases h.released m hm with hm | ⟨p, y, hy, hp, hym⟩
    · exact .inl hm
    refine .inr ⟨p, y, hy, ?_, hym⟩
    rw [hother p, hp]
    rintro rfl
    rw [h.body_current hcur', hx] at hp
    cases hp

theorem insertTask_spec (hi : Inv s l) (hp : s.tasks p = none) {x : Task} (hpid : x.pid ≠ 0) :
    ∃ s', s.insertTask p x = .ok s' ∧ Inv s' (l ++ [p]) ∧ s'.body = update s.body p (some x.body) ∧
      s' = { s with tasks := s'.tasks, created := s.created + 1, taskRing := p, nextPid := s.nextPid + 1,
                    log := s.log ++ [.created p] } := by
  obtain ⟨s', h', hc', hb', heq⟩ := hi.core.insert_spec hp hpid
  have hbp : s.body p = none := by
    unfold body
    rw [hp]
    rfl
  have hne : ∀ {q y}, s.body q = some y → q ≠ p := by
    rintro q y hy rfl
    rw [hbp] at hy
    cases hy
  have hz : s'.zombieList = s.zombieList := by rw [heq]
  have hcur : s'.current = s.current := by rw [heq]
  refine ⟨s', h', ⟨hc', hz ▸ hi.zombieNodup, ?_, ?_, ?_⟩, hb', heq⟩
  · intro z hzm
    rw [hz] at hzm
    obtain ⟨y, hy, hyh⟩ := hi.zombieHalted z hzm
    exact ⟨y, by rw [hb', update_of_ne (hne hy), hy], hyh⟩
  · intro z hzm hz0 hzl
    rw [hz] at hzm
    obtain ⟨y, hy, -⟩ := hi.zombieHalted z hzm
    rcases mem_append.1 hzl with hzl | hzl
    · exact hi.zombieOut z hzm hz0 hzl
    · exact hne hy (mem_singleton.1 hzl)
  · intro c hc
    rw [hcur] at hc
    obtain ⟨y, hy⟩ := hi.current c hc
    exact ⟨y, by rw [hb', update_of_ne (hne hy), hy]⟩

theorem quiet_of_insert (hp : s.tasks p = none) {x : Task} (hstate : x.state = .ready) (hhalt : x.halted = false)
    (hbody : s'.body = update s.body p (some x.body)) (hcur : s'.current = s.current)
    (hloaded : s'.loaded = s.loaded) (hlock : s.utaskLock = true → s'.utaskLock = true)
    (hrel : ∀ m ∈ s'.released, m ∈ s.released)
    (htable : ∀ m, x.pageTable = some m → s.utaskLock = false ∧ s'.utaskLock = true ∧ m ∉ s'.released) :
    Quiet s l s' (l ++ [p]) where
  current := hcur
  loaded := hloaded
  utaskLock := hlock
  body q y hy := by
    rw [hbody, update_apply] at hy
    split at hy
    · rename_i hq
      cases hy
      refine .inr (.inr ⟨?_, hstate, hhalt, htable⟩)
      rw [hq]
      unfold body
      rw [hp]
      rfl
    · exact .inl hy
  fresh q q' y z hq hq' hy hz := by
    rw [hbody, update_apply] at hy hz
    split at hy
    · split at hz
      · rename_i h1 h2
        exact h1.trans h2.symm
      · rw [hq'] at hz
        cases hz
    · rw [hq] at hy
      cases hy
  gone q y hy hq := by
    rw [hbody, update_apply] at hq
    split at hq
    · cases hq
    · rw [hy] at hq
      cases hq
  mem q hq := by
    rcases mem_append.1 hq with hq | hq
    · exact .inr (.inl hq)
    refine .inr (.inr ?_)
    rw [mem_singleton.1 hq]
    unfold body
    rw [hp]
    rfl
  released m hm := .inl (hrel m hm)

theorem taskCreate_spec (hi : Inv s l) (hp : s.tasks p = none) (regs kstackTop : Nat) :
    ∃ s' l', s.taskCreate p regs kstackTop = .ok s' ∧ Inv s' l' ∧ Quiet s l s' l' := by
  obtain ⟨s', h', hi', hb', heq⟩ := insertTask_spec hi hp (x :=
    { pid := s.nextPid, state := .ready, regs := regs, kstackTop := kstackTop, exitCode := 0, next := 0,
      pageTable := none, halted := false }) (Nat.pos_iff_ne_zero.1 hi.core.nextPid)
  exact ⟨s', _, h', hi', quiet_of_insert hp rfl rfl hb' (by rw [heq]) (by rw [heq]) (by rw [heq]; exact id)
    (by rw [heq]; exact fun m hm => hm) (fun m hm => nomatch hm)⟩

theorem utaskCreate_spec (hi : Inv s l) (hp : s.tasks p = none) (hlock : s.utaskLock = false)
    (regs kstackTop pml4 : Nat) :
    ∃ s' l', s.utaskCreate p regs kstackTop pml4 = .ok s' ∧ Inv s' l' ∧ Quiet s l s' l' := by
  have hi₀ : Inv { s with utaskLock := true, released := s.released.filter (· ≠ pml4) } l :=
    ⟨hi.core.congr rfl rfl rfl rfl rfl rfl, hi.zombieNodup, hi.zombieHalted, hi.zombieOut, hi.current⟩
  obtain ⟨s', h', hi', hb', heq⟩ := insertTask_spec hi₀ hp (x :=
    { pid := s.nextPid, state := .ready, regs := regs, kstackTop := kstackTop, exitCode := 0, next := 0,
      pageTable := some pml4, halted := false }) (Nat.pos_iff_ne_zero.1 hi.core.nextPid)
  refine ⟨s', _, ?_, hi', quiet_of_insert hp rfl rfl hb' (by rw [heq]) (by rw [heq]) (by rw [heq]; exact fun _ => rfl)
    (by rw [heq]; exact fun m hm => (mem_filter.1 hm).1) (fun m hm => ⟨hlock, by rw [heq], fun hm' => ?_⟩)⟩
  · unfold utaskCreate
    rwa [if_neg (by rw [hlock]; exact Bool.false_ne_true)]
  · rw [heq] at hm'
    exact of_decide_eq_true (mem_filter.1 hm').2 (Option.some.inj hm).symm

theorem taskStop_spec (hi : Inv s l) (hh : ¬ s.CurrentHalted) (pid : Int) :
    ∃ s' l', (s.taskStop pid).bind (fun r => .ok r.1) = .ok s' ∧ Inv s' l' ∧ Quiet s l s' l' := by
  obtain ⟨s₁, l₁, h₁, hi₁, hz₁, hsh₁⟩ := reapZombies_spec hi hh
  obtain ⟨y, a, b, hy, hynext, hl, hhead, hsize⟩ := hi₁.core.ends
  obtain ⟨r, hr, hmem⟩ := findTask_spec hi₁.core.ring (fun t => decide ((t.pid : Int) = pid)) s₁.turns [] a b hl hsize
  rw [hhead] at hr
  unfold taskStop
  rw [h₁]
  change ∃ s' l', (((s₁.task s₁.taskRing).bind _).bind _) = _ ∧ _
  rw [task_ok hy]
  change ∃ s' l', (((s₁.findTask y.next _ _ y.next).bind _).bind _) = _ ∧ _
  rw [hynext, hr]
  cases r with
  | none => exact ⟨s₁, l₁, rfl, hi₁, hsh₁.quiet⟩
  | some found =>
    have hf := hmem found rfl
    simp only [Res.bind]
    by_cases hcur : s₁.current = some found
    · obtain ⟨x, hx⟩ := hi₁.current found hcur
      obtain ⟨s', h', hi', hr', hb', hrel'⟩ := die_spec hi₁ hz₁ hcur hx none
      rw [if_pos hcur, h']
      exact ⟨s', _, rfl, hi', hsh₁.quiet_die hh hcur hx hr' hb' hrel' (fun p hp => mem_removeTask hp)⟩
    obtain ⟨s₂, s', h₂, h', hi', hsh'⟩ := drop_spec hi₁ hz₁ hf hcur
    rw [if_neg hcur, h₂]
    simp only
    rw [h']
    exact ⟨s', _, rfl, hi', (hsh₁.trans hsh').quiet⟩

theorem taskExit_spec (hi : Inv s l) (hh : ¬ s.CurrentHalted) (exitCode : Int) :
    ∃ s' l', s.taskExit exitCode = .ok s' ∧ Inv s' l' ∧ Quiet s l s' l' := by
  obtain ⟨s₁, l₁, h₁, hi₁, hz₁, hsh₁⟩ := reapZombies_spec hi hh
  unfold taskExit
  rw [h₁]
  simp only [Res.bind]
  cases hcur : s₁.current with
  | none => exact ⟨s₁, l₁, rfl, hi₁, hsh₁.quiet⟩
  | some c =>
    simp only
    by_cases hc0 : c = 0
    · rw [if_pos hc0]
      exact ⟨s₁, l₁, rfl, hi₁, hsh₁.quiet⟩
    · obtain ⟨x, hx⟩ := hi₁.current c hcur
      obtain ⟨s', h', hi', hr', hb', hrel'⟩ := die_spec hi₁ hz₁ hcur hx (some exitCode)
      rw [if_neg hc0]
      exact ⟨s', _, h', hi', hsh₁.quiet_die hh hcur hx hr' hb' hrel' (fun p hp => mem_removeTask hp)⟩

end Sched

end OS64
