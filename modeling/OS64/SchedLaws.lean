import OS64.SchedSteps
/-!
# SchedLaws — running and dead tasks

Two laws over all runs of the scheduler.  No task of the ring but the current one has the state `TASK_RUNNING`
(`single_running`).  A dead task stays dead as long as the interrupts after its end can leave it (`dead_stay_iff`).
-/
namespace OS64

open Function Option

namespace Sched

variable {s s' s'' : Sched} {l l' : List Nat} {c p : Nat} {op : Op}

/-! ## One running task -/

/-- No task but the current one, or before the first interrupt the init task, is running. -/
def Single (s : Sched) (l : List Nat) : Prop :=
  ∀ p x, (p ∈ l ∨ p = 0) → s.current.getD 0 ≠ p → s.body p = some x → x.state ≠ .running

theorem Single.quiet (h : Single s l) (hq : Quiet s l s' l') : Single s' l' := by
  intro p x hp hcur hx
  rw [hq.current] at hcur
  have hp' : p = 0 ∨ p ∈ l ∨ s.body p = none := hp.elim (hq.mem p) .inl
  rcases hq.body p x hx with hold | ⟨hc, -⟩ | ⟨-, hready, -⟩
  · refine h p x ?_ hcur hold
    rcases hp' with hp' | hp' | hp'
    · exact .inr hp'
    · exact .inl hp'
    · rw [hp'] at hold
      cases hold
  · rw [hc] at hcur
    exact absurd rfl hcur
  · rw [hready]
    exact TaskState.noConfusion

theorem saved_not_running (x : Task) (regs : Nat) : (saved x regs).state ≠ .running := by
  unfold saved
  split
  · exact TaskState.noConfusion
  · assumption

theorem Single.switch {regs n : Nat} {x y : Task} (h : Single s l) (hs : Switch s s' regs c n x y) : Single s' l := by
  intro p z hp hcur hz
  rw [hs.current', getD_some] at hcur
  rw [hs.body, update_of_ne (Ne.symm hcur), update_apply] at hz
  split at hz
  · cases hz
    exact saved_not_running x regs
  · rename_i hpc
    refine h p z hp ?_ hz
    rw [hs.current]
    exact Ne.symm hpc

theorem Single.step (h : Single s l) (hi : Inv s l) (hstep : Step s s') : ∃ l', Inv s' l' ∧ Single s' l' := by
  obtain ⟨op, ha, hop⟩ := hstep
  rcases step_cases hi ha hop with ⟨l', hi', hq, -⟩ | ⟨hi', hr, -⟩ | ⟨hi', hf, -⟩ | ⟨hi', _, c, n, x, y, hs, -⟩ |
    ⟨hi', ⟨flag, counter, rfl⟩, -⟩
  · exact ⟨l', hi', h.quiet hq⟩
  · refine ⟨[0], hi', fun p x hp hcur _ => absurd ?_ hcur⟩
    rw [hr.current]
    exact (hp.elim List.mem_singleton.1 id).symm
  · refine ⟨l, hi', fun p x hp hcur hx => ?_⟩
    rw [hf.current', getD_some] at hcur
    obtain ⟨_, _, -, -, -, -, hb⟩ := hf.body
    rw [hb, update_of_ne (Ne.symm hcur)] at hx
    refine h p x hp ?_ hx
    rwa [hf.current]
  · exact ⟨l, hi', h.switch hs⟩
  · exact ⟨l, hi', h⟩

theorem single_init (initStackTop : Nat) : Single (schedulerInit initStackTop) [0] := by
  intro p x hp hcur _
  exact absurd (hp.elim List.mem_singleton.1 id).symm hcur

theorem Single.run (h : Single s l) (hi : Inv s l) (hr : Relation.ReflTransGen Step s s') :
    ∃ l', Inv s' l' ∧ Single s' l' := by
  induction hr with
  | refl => exact ⟨l, hi, h⟩
  | tail _ hstep ih =>
    obtain ⟨l', hi', h'⟩ := ih
    exact h'.step hi' hstep

theorem current_ne_none (hi : Inv s l) (hcur : s.current ≠ none) (hr : Relation.ReflTransGen Step s s') :
    s'.current ≠ none := by
  induction hr with
  | refl => exact hcur
  | @tail s₁ s₂ hr hstep ih =>
    obtain ⟨l', hi'⟩ := hi.run hr
    obtain ⟨op, ha, hop⟩ := hstep
    rcases step_cases hi' ha hop with ⟨_, -, hq, -⟩ | ⟨-, hr, -⟩ | ⟨-, hf, -⟩ | ⟨-, _, _, _, _, _, hs, -⟩ |
      ⟨-, ⟨flag, counter, rfl⟩, -⟩
    · rwa [hq.current]
    · rw [hr.current]
      exact some_ne_none 0
    · rw [hf.current']
      exact some_ne_none 0
    · rw [hs.current']
      exact some_ne_none _
    · exact ih

theorem schedule_current_ne_none (hi : Inv s l) {regs : Nat} (h : s.step (.scheduleFromIsr regs) = .ok s') :
    s'.current ≠ none := by
  obtain ⟨r, hr, h⟩ := Res.bind_ok h
  cases h
  cases hcur : s.current with
  | none =>
    rw [(schedule_first hcur hi hr).1.current']
    exact some_ne_none 0
  | some c =>
    obtain ⟨⟨n, x, y, hs⟩, -⟩ := schedule_switch hcur hi hr
    rw [hs.current']
    exact some_ne_none n

/-- **A single running task.**  In every state that a run comes to after a `schedule_from_isr`, no task of the ring
other than the current one has the state `TASK_RUNNING`. -/
theorem single_running {regs : Nat} {x : Task} (h : Reach s) (hsched : s.step (.scheduleFromIsr regs) = .ok s')
    (hrun : Relation.ReflTransGen Step s' s'') (hp : s''.InRing p) (hcur : s''.current ≠ some p)
    (hx : s''.tasks p = some x) : x.state ≠ .running := by
  obtain ⟨initStackTop, h⟩ := h
  obtain ⟨l, hi, hsingle⟩ := (single_init initStackTop).run (Inv.schedulerInit initStackTop) h
  have hstep : Step s s' := ⟨.scheduleFromIsr regs, trivial, hsched⟩
  obtain ⟨l₁, hi₁, hsingle₁⟩ := hsingle.step hi hstep
  obtain ⟨l₂, hi₂, hsingle₂⟩ := hsingle₁.run hi₁ hrun
  have hne := current_ne_none hi₁ (schedule_current_ne_none hi hsched) hrun
  obtain ⟨c, hc⟩ := ne_none_iff_exists'.1 hne
  refine hsingle₂ p x.body (.inl (hi₂.core.mem_of_inRing hp)) ?_ (body_of hx)
  rw [hc] at hcur ⊢
  exact fun h => hcur (congrArg some h)

/-- After the first interrupt a new task is ready and not running. -/
theorem created_single_running : ∃ s s' s'', Reach s ∧ s.step (.scheduleFromIsr 1) = .ok s' ∧
    s'.step (.taskCreate 5 1 2) = .ok s'' ∧ s''.InRing 5 ∧ s''.current ≠ some 5 ∧
    ∃ x, s''.tasks 5 = some x ∧ x.state ≠ .running := by
  have hring : ∀ s'' : Sched, s''.taskRing = 5 → s''.nextOf 5 = some 0 → s''.nextOf 0 = some 5 → s''.InRing 5 := by
    intro s'' ht h5 h0
    unfold InRing
    rw [ht]
    exact Relation.TransGen.tail (Relation.TransGen.single h5) h0
  have hallowed : ∀ s', (schedulerInit 0).step (.scheduleFromIsr 1) = .ok s' → s'.Allowed (.taskCreate 5 1 2) := by
    intro s' h
    cases h
    refine ⟨?_, rfl⟩
    rintro ⟨c, x, hc, hx, hh⟩
    cases hc
    cases hx
    cases hh
  refine ⟨schedulerInit 0, _, _, ⟨0, .refl⟩, rfl, rfl, hring _ rfl rfl rfl, nofun, _, rfl, ?_⟩
  have hfirst : ∀ s', (schedulerInit 0).step (.scheduleFromIsr 1) = .ok s' →
      (schedulerInit 0).step (.scheduleFromIsr 1) = .ok s' := fun _ h => h
  exact single_running ⟨0, .refl⟩ (hfirst _ rfl) (.single ⟨.taskCreate 5 1 2, hallowed _ rfl, rfl⟩)
    (hring _ rfl rfl rfl) nofun rfl

/-! ## Dead tasks -/

/-- The condition under which a step leaves the dead alone: an interrupt that comes to a dead current task has the flag
set and another task to go to, and the init task is not dead when the other tasks are ended. -/
def KeepsDead (s : Sched) : Op → Prop
  | .scheduleFromIsr _ => ∀ c x, s.current = some c → s.tasks c = some x → x.halted = true →
      s.needReschedule = true ∧ s.OtherRunnable c
  | .killAllTasks => ∀ x, s.tasks 0 = some x → x.halted = false
  | .emergencyTerminateAll => ∀ x, s.tasks 0 = some x → x.halted = false
  | _ => True

/-- **The dead stay dead**: no task that came to its end by `task_exit` or `task_stop` gets the state `TASK_RUNNING` or
`TASK_READY` or the processor again. -/
def DeadStay (s s' : Sched) : Prop :=
  ∀ p x, s.tasks p = some x → x.halted = true →
    (∀ x', s'.tasks p = some x' → x'.halted = true ∧ x'.state ≠ .running ∧ x'.state ≠ .ready) ∧
    (s.current ≠ some p → s'.current ≠ some p)

def DeadRun (s : Sched) : Prop := ∃ initStackTop,
  Relation.ReflTransGen (fun s s' => ∃ op, s.Allowed op ∧ s.KeepsDead op ∧ s.step op = .ok s')
    (schedulerInit initStackTop) s

/-- All dead tasks are zombies, and before the first interrupt there are none. -/
structure AllZombies (s : Sched) : Prop where
  zombie : ∀ p x, s.body p = some x → x.halted = true → x.state = .zombie
  boot : s.current = none → ∀ p x, s.body p = some x → x.halted = false

theorem allZombies_init (initStackTop : Nat) : AllZombies (schedulerInit initStackTop) := by
  have hlive : ∀ p x, (schedulerInit initStackTop).body p = some x → x.halted = false := fun p x hx => by
    obtain ⟨y, hy, rfl⟩ := map_eq_some_iff.1 hx
    change (if p = 0 then _ else none) = _ at hy
    split at hy
    · cases hy
      rfl
    · cases hy
  refine ⟨fun p x hx hh => ?_, fun _ => hlive⟩
  rw [hlive p x hx] at hh
  cases hh

section
variable (h : AllZombies s)
include h

theorem AllZombies.quiet (hq : Quiet s l s' l') : AllZombies s' where
  zombie p x hx hh := by
    rcases hq.body p x hx with hold | ⟨-, y, code, -, -, rfl⟩ | ⟨-, -, hlive, -⟩
    · exact h.zombie p x hold hh
    · rfl
    · rw [hlive] at hh
      cases hh
  boot hcur p x hx := by
    rw [hq.current] at hcur
    rcases hq.body p x hx with hold | ⟨hc, -⟩ | ⟨-, -, hlive, -⟩
    · exact h.boot hcur p x hold
    · rw [hcur] at hc
      cases hc
    · exact hlive

theorem AllZombies.entered {regs n : Nat} {x y : Task} (hs : Switch s s' regs c n x y)
    (hkeep : s.KeepsDead (.scheduleFromIsr regs)) : y.halted = false := by
  cases hy : y.halted with
  | false => rfl
  | true =>
    have hyb := hs.entered
    by_cases hn : n = c
    · rw [hn, update_self, Option.some.injEq] at hyb
      obtain ⟨w, hw, hwx⟩ := map_eq_some_iff.1 hs.left
      have hwh : w.halted = true := by
        rw [← hyb, ← hwx] at hy
        exact hy
      exact absurd hn (hs.other.2 (hkeep c w hs.current hw hwh))
    · rw [update_of_ne hn] at hyb
      have hz := h.zombie n y hyb hy
      rcases hs.runnable hn with hr | hr
      all_goals
        rw [hz] at hr
        cases hr

theorem AllZombies.dead_switch {regs n : Nat} {x y z : Task} (hs : Switch s s' regs c n x y)
    (hy : y.halted = false) (hz : s.body p = some z) (hh : z.halted = true) :
    p ≠ n ∧ ∀ z', s'.body p = some z' → z'.halted = true ∧ z'.state = .zombie := by
  have hzst := h.zombie p z hz hh
  have hleft : ∃ w, update s.body c (some (saved x regs)) p = some w ∧ w.halted = true ∧ w.state = .zombie := by
    rw [update_apply]
    split
    · rename_i hpc
      rw [hpc, hs.left, Option.some.injEq] at hz
      refine ⟨_, rfl, hz ▸ hh, ?_⟩
      unfold saved
      rw [hz, hzst, if_neg TaskState.noConfusion]
    · exact ⟨z, hz, hh, hzst⟩
  obtain ⟨w, hw, hwh, hwst⟩ := hleft
  have hpn : p ≠ n := by
    rintro rfl
    rw [hs.entered, Option.some.injEq] at hw
    rw [← hw, hy] at hwh
    cases hwh
  refine ⟨hpn, fun z' hz' => ?_⟩
  rw [hs.body, update_of_ne hpn, hw, Option.some.injEq] at hz'
  exact hz' ▸ ⟨hwh, hwst⟩

theorem AllZombies.switch {regs n : Nat} {x y : Task} (hs : Switch s s' regs c n x y)
    (hy : y.halted = false) : AllZombies s' where
  zombie p z' hz' hh := by
    have hz : ∃ z, s.body p = some z ∧ z.halted = true := by
      rw [hs.body, update_apply] at hz'
      split at hz'
      · cases hz'
        rw [hy] at hh
        cases hh
      rw [update_apply] at hz'
      split at hz'
      · rename_i hpc
        cases hz'
        exact ⟨x, hpc ▸ hs.left, hh⟩
      · exact ⟨z', hz', hh⟩
    obtain ⟨z, hz, hzh⟩ := hz
    exact ((h.dead_switch hs hy hz hzh).2 z' hz').2
  boot hcur := by
    rw [hs.current'] at hcur
    cases hcur

theorem AllZombies.restart (hr : Restart s s') : AllZombies s' where
  zombie p x hx hh := by
    by_cases hp : p = 0
    · obtain ⟨y, -, hy⟩ := hr.init
      rw [hp, hy] at hx
      cases hx
      cases hh
    · rcases hr.body p hp with hb | hb
      · exact h.zombie p x (hb ▸ hx) hh
      · rw [hb] at hx
        cases hx
  boot hcur := by
    rw [hr.current] at hcur
    cases hcur

theorem AllZombies.first (hf : FirstSwitch s s') : AllZombies s' := by
  obtain ⟨x, y, hx, hyh, -, -, hb⟩ := hf.body
  have hlive := h.boot hf.current
  refine ⟨fun p z hz hh => ?_, fun hcur => ?_⟩
  · rw [hb, update_apply] at hz
    split at hz
    · cases hz
      rw [hyh, hlive 0 x hx] at hh
      cases hh
    · exact h.zombie p z hz hh
  · rw [hf.current'] at hcur
    cases hcur

theorem AllZombies.step (hi : Inv s l) (ha : s.Allowed op) (hkeep : s.KeepsDead op)
    (hop : s.step op = .ok s') : AllZombies s' := by
  rcases step_cases hi ha hop with ⟨l', -, hq, -⟩ | ⟨-, hr, -⟩ | ⟨-, hf, -⟩ | ⟨-, _, c, n, x, y, hs, rfl⟩ |
    ⟨-, ⟨flag, counter, rfl⟩, -⟩
  · exact h.quiet hq
  · exact h.restart hr
  · exact h.first hf
  · exact h.switch hs (h.entered hs hkeep)
  · exact ⟨h.zombie, h.boot⟩

end

theorem DeadRun.spec (h : DeadRun s) : (∃ l, Inv s l) ∧ AllZombies s := by
  obtain ⟨initStackTop, h⟩ := h
  induction h with
  | refl => exact ⟨⟨[0], Inv.schedulerInit initStackTop⟩, allZombies_init initStackTop⟩
  | tail _ hstep ih =>
    obtain ⟨⟨l, hi⟩, hz⟩ := ih
    obtain ⟨op, ha, hkeep, hop⟩ := hstep
    exact ⟨hi.step ⟨op, ha, hop⟩, hz.step hi ha hkeep hop⟩

theorem AllZombies.deadStay (h : AllZombies s) (hi : Inv s l) (ha : s.Allowed op) (hkeep : s.KeepsDead op)
    (hop : s.step op = .ok s') : DeadStay s s' := fun p x hx hh => by
  have hb : s.body p = some x.body := body_of hx
  have hst : x.state = .zombie := h.zombie p x.body hb hh
  -- it is enough that the task is as it was, if it is still there
  have hsame : s'.body p = s.body p → ∀ x', s'.tasks p = some x' →
      x'.halted = true ∧ x'.state ≠ .running ∧ x'.state ≠ .ready := fun heq x' hx' => by
    have hbx : x'.body = x.body := Option.some.inj ((body_of hx').symm.trans (heq.trans hb))
    have hst' : x'.state = .zombie := (congrArg Task.state hbx).trans hst
    rw [hst']
    exact ⟨(congrArg Task.halted hbx).trans hh, TaskState.noConfusion, TaskState.noConfusion⟩
  rcases step_cases hi ha hop with ⟨l', -, hq, -⟩ | ⟨-, hr, hkill⟩ | ⟨-, hf, -⟩ | ⟨-, _, c, n, y, z, hs, rfl⟩ |
    ⟨-, ⟨flag, counter, rfl⟩, -⟩
  · refine ⟨fun x' hx' => hsame ?_ x' hx', fun hc => hq.current ▸ hc⟩
    rcases hq.body p x'.body (body_of hx') with hold | ⟨-, y, code, hy, hyh, -⟩ | ⟨hnew, -⟩
    · rw [hold]
      exact body_of hx'
    · rw [hb, Option.some.injEq] at hy
      rw [← hy, show x.body.halted = x.halted from rfl, hh] at hyh
      cases hyh
    · rw [hb] at hnew
      cases hnew
  · have hp : p ≠ 0 := by
      rintro rfl
      have hlive : x.halted = false := by
        rcases hkill with rfl | rfl
        · exact hkeep x hx
        · exact hkeep x hx
      rw [hlive] at hh
      cases hh
    refine ⟨fun x' hx' => ?_, fun _ hc => hp (Option.some.inj (hc.symm.trans hr.current))⟩
    rcases hr.body p hp with hb' | hb'
    · exact hsame hb' x' hx'
    · rw [body_of hx'] at hb'
      cases hb'
  · have := h.boot hf.current p x.body hb
    rw [show x.body.halted = x.halted from rfl, hh] at this
    cases this
  · obtain ⟨hpn, hdead⟩ := h.dead_switch hs (h.entered hs hkeep) hb hh
    refine ⟨fun x' hx' => ?_, fun _ hc => hpn (Option.some.inj (hc.symm.trans hs.current'))⟩
    obtain ⟨hh', hst'⟩ := hdead x'.body (body_of hx')
    have hst' : x'.state = .zombie := hst'
    rw [hst']
    exact ⟨hh', TaskState.noConfusion, TaskState.noConfusion⟩
  · exact ⟨hsame rfl, id⟩

theorem keepsDead_of_deadStay (hi : Inv s l) (ha : s.Allowed op) (hop : s.step op = .ok s') (h : DeadStay s s') :
    s.KeepsDead op := by
  -- a dead task that has the state `TASK_RUNNING` afterwards
  have hwake : ∀ p x y, s.tasks p = some x → x.halted = true → s'.body p = some y → y.state ≠ .running := by
    intro p x y hx hh hy
    obtain ⟨w, hw, rfl⟩ := map_eq_some_iff.1 hy
    exact ((h p x hx hh).1 w hw).2.1
  rcases step_cases hi ha hop with ⟨l', -, -, hsched, hkill, hemergency⟩ | ⟨-, hr, hkill⟩ | ⟨-, hf, _, rfl⟩ |
    ⟨-, _, c, n, y, z, hs, rfl⟩ | ⟨-, -, rfl⟩
  · cases op with
    | scheduleFromIsr regs => exact absurd rfl (hsched regs)
    | killAllTasks => exact absurd rfl hkill
    | emergencyTerminateAll => exact absurd rfl hemergency
    | _ => trivial
  · have hlive : ∀ x, s.tasks 0 = some x → x.halted = false := fun x hx => by
      cases hh : x.halted with
      | false => rfl
      | true =>
        obtain ⟨y, -, hy⟩ := hr.init
        exact absurd rfl (hwake 0 x _ hx hh hy)
    rcases hkill with rfl | rfl
    · exact hlive
    · exact hlive
  · intro c x hc
    rw [hf.current] at hc
    cases hc
  · intro c' x hc hx hh
    cases hs.current.symm.trans hc
    rw [← hs.other]
    rintro rfl
    refine hwake n x { z with state := .running } hx hh ?_ rfl
    rw [hs.body, update_self]
  · trivial

/-- **The dead stay dead just where they can be left.**  In a run whose steps all met the condition every task that
ended itself is a zombie, and the next step leaves it alone exactly if it meets the condition too. -/
theorem dead_stay_iff (h : DeadRun s) : (∀ p x, s.tasks p = some x → x.halted = true → x.state = .zombie) ∧
    ∀ op s', s.Allowed op → s.step op = .ok s' → (DeadStay s s' ↔ s.KeepsDead op) := by
  obtain ⟨⟨l, hi⟩, hz⟩ := h.spec
  refine ⟨fun p x hx hh => hz.zombie p x.body (body_of hx) hh, fun op s' ha hop => ⟨?_, ?_⟩⟩
  · exact keepsDead_of_deadStay hi ha hop
  · exact fun hkeep => hz.deadStay hi ha hkeep hop

theorem stopped_init_run : ∃ s₁ s₂, (schedulerInit 0).step (.scheduleFromIsr 1) = .ok s₁ ∧
    s₁.step (.taskStop 0) = .ok s₂ ∧ s₁.Allowed (.taskStop 0) ∧ s₂.current = some 0 ∧
    (∃ x, s₂.tasks 0 = some x ∧ x.halted = true) ∧
    ∃ s₃, (timerApicHandler^[10] s₂).step (.scheduleFromIsr 1) = .ok s₃ ∧ ∃ x, s₃.tasks 0 = some x ∧
      x.state = .running := by
  exact ⟨_, _, rfl, rfl, not_halted rfl rfl rfl, rfl, ⟨_, rfl, rfl⟩, _, rfl, _, rfl, rfl⟩

/-- The condition decides on the next step of the init task that ended itself. -/
theorem stopped_init_dead_stay_iff : ∃ s, s.CurrentHalted ∧
    (∀ p x, s.tasks p = some x → x.halted = true → x.state = .zombie) ∧
    ∀ op s', s.Allowed op → s.step op = .ok s' → (DeadStay s s' ↔ s.KeepsDead op) := by
  obtain ⟨s₁, s₂, h₁, h₂, ha, hcur, ⟨x, hx, hh⟩, -⟩ := stopped_init_run
  refine ⟨s₂, ⟨0, x, hcur, hx, hh⟩, dead_stay_iff ⟨0, ?_⟩⟩
  refine .tail (.single ⟨.scheduleFromIsr 1, trivial, fun c x hc => ?_, h₁⟩) ⟨.taskStop 0, ha, trivial, h₂⟩
  cases hc

theorem timers_tasks (s : Sched) : ∀ n, (timerApicHandler^[n] s).tasks = s.tasks
  | 0 => rfl
  | n + 1 => by
    rw [iterate_succ_apply']
    obtain ⟨flag, counter, h⟩ := timer_same (timerApicHandler^[n] s)
    rw [h]
    exact timers_tasks s n

/-- **A dead task that runs again**: the interrupt finds nothing else to run, and sets the state of the task that ended
itself to `TASK_RUNNING`. -/
theorem dead_init_runs : ∃ s s', Reach s ∧ s.step (.scheduleFromIsr 1) = .ok s' ∧ ¬ DeadStay s s' := by
  obtain ⟨s₁, s₂, h₁, h₂, ha, -, ⟨x, hx, hh⟩, s₃, h₃, y, hy, hrun⟩ := stopped_init_run
  have hreach : Reach s₂ := (Reach.step ⟨0, .refl⟩ (.scheduleFromIsr 1) trivial h₁).step (.taskStop 0) ha h₂
  refine ⟨timerApicHandler^[10] s₂, s₃, hreach.timers 10, h₃, fun h => ?_⟩
  exact ((h 0 x (by rw [timers_tasks]; exact hx) hh).1 y hy).2.1 hrun

end Sched

end OS64
