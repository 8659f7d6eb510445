import OS64.SchedLaws
/-!
# SchedTables — the loaded page table

`paging_switch` loads nothing for a task without a page table of its own.  So the loaded table is the current task's as
long as no switch leaves a task that has one (`table_right_iff`); then it is not one that was released either.
-/
namespace OS64

open Function Option

namespace Sched

variable {s s' : Sched} {l l' : List Nat} {c p : Nat} {op : Op}

/-- The condition under which a step keeps the page tables right: no switch leaves a task with a table of its own. -/
def KeepsTable (s : Sched) : Op → Prop
  | .scheduleFromIsr _ => ∀ c x m, s.current = some c → s.tasks c = some x → x.pageTable = some m →
      ¬ (s.needReschedule = true ∧ s.OtherRunnable c)
  | _ => True

/-- The loaded table is the current task's own, or the kernel's if it has none. -/
def TableRight (s : Sched) : Prop := ∀ c x, s.current = some c → s.tasks c = some x → s.loaded = x.pageTable

/-- The steps of creating tasks, of their ends one by one, and of the interrupts. -/
def TaskOp : Op → Prop
  | .killAllTasks => False
  | .emergencyTerminateAll => False
  | _ => True

def TableRun (s : Sched) : Prop := ∃ initStackTop,
  Relation.ReflTransGen (fun s s' => ∃ op, s.Allowed op ∧ TaskOp op ∧ s.KeepsTable op ∧ s.step op = .ok s')
    (schedulerInit initStackTop) s

/-- One task at most has a table of its own, and it is not released.  The current task's is loaded. -/
structure Tables (s : Sched) : Prop where
  init : ∀ x, s.body 0 = some x → x.pageTable = none
  lock : s.utaskLock = false → ∀ p x, s.body p = some x → x.pageTable = none
  unique : ∀ p q x y m m', s.body p = some x → s.body q = some y → x.pageTable = some m → y.pageTable = some m' → p = q
  live : ∀ p x m, s.body p = some x → x.pageTable = some m → m ∉ s.released
  loaded : ∀ c x, s.current = some c → s.body c = some x → s.loaded = x.pageTable
  boot : s.current = none → s.loaded = none

theorem tables_init (initStackTop : Nat) : Tables (schedulerInit initStackTop) := by
  have hnone : ∀ p x, (schedulerInit initStackTop).body p = some x → x.pageTable = none := fun p x hx => by
    obtain ⟨y, hy, rfl⟩ := map_eq_some_iff.1 hx
    change (if p = 0 then _ else none) = _ at hy
    split at hy
    · cases hy
      rfl
    · cases hy
  refine ⟨hnone 0, fun _ => hnone, fun p q x y m m' hx _ hm => ?_, fun p x m hx hm => ?_, fun c x hc => ?_,
    fun _ => rfl⟩
  · rw [hnone p x hx] at hm
    cases hm
  · rw [hnone p x hx] at hm
    cases hm
  · cases hc

theorem Quiet.table (hq : Quiet s l s' l') {x' : Task} {m : Nat} (hx' : s'.body p = some x')
    (hm : x'.pageTable = some m) : (∃ x, s.body p = some x ∧ x.pageTable = some m) ∨
    (s.body p = none ∧ s.utaskLock = false ∧ s'.utaskLock = true ∧ m ∉ s'.released) := by
  rcases hq.body p x' hx' with hold | ⟨-, x, code, hx, -, rfl⟩ | ⟨hnew, -, -, htable⟩
  · exact .inl ⟨x', hold, hm⟩
  · exact .inl ⟨x, hx, hm⟩
  · exact .inr ⟨hnew, htable m hm⟩

theorem Tables.quiet (h : Tables s) (hi : Inv s l) (hq : Quiet s l s' l') : Tables s' where
  init x hx := by
    obtain ⟨i, hi0⟩ := hi.core.initTask
    cases hm : x.pageTable with
    | none => rfl
    | some m =>
      rcases hq.table hx hm with ⟨y, hy, hym⟩ | ⟨hnew, -⟩
      · rw [h.init y hy] at hym
        cases hym
      · rw [body_of hi0] at hnew
        cases hnew
  lock hl p x hx := by
    have hl' : s.utaskLock = false := by
      cases hlock : s.utaskLock with
      | false => rfl
      | true =>
        rw [hq.utaskLock hlock] at hl
        cases hl
    cases hm : x.pageTable with
    | none => rfl
    | some m =>
      rcases hq.table hx hm with ⟨y, hy, hym⟩ | ⟨-, -, hlock, -⟩
      · rw [h.lock hl' p y hy] at hym
        cases hym
      · rw [hl] at hlock
        cases hlock
  unique p q x y m m' hx hy hm hm' := by
    rcases hq.table hx hm with ⟨x₀, hx₀, hx₀m⟩ | ⟨hpnew, hlock, -⟩
    · rcases hq.table hy hm' with ⟨y₀, hy₀, hy₀m⟩ | ⟨-, hlock, -⟩
      · exact h.unique p q x₀ y₀ m m' hx₀ hy₀ hx₀m hy₀m
      · rw [h.lock hlock p x₀ hx₀] at hx₀m
        cases hx₀m
    · rcases hq.table hy hm' with ⟨y₀, hy₀, hy₀m⟩ | ⟨hqnew, -⟩
      · rw [h.lock hlock q y₀ hy₀] at hy₀m
        cases hy₀m
      · exact hq.fresh p q x y hpnew hqnew hx hy
  live p x m hx hm hrel := by
    rcases hq.table hx hm with ⟨x₀, hx₀, hx₀m⟩ | ⟨-, -, -, hnot⟩
    · rcases hq.released m hrel with hrel | ⟨q, y, hy, hgone, hym⟩
      · exact h.live p x₀ m hx₀ hx₀m hrel
      · obtain rfl := h.unique p q x₀ y m m hx₀ hy hx₀m hym
        rw [hgone] at hx
        cases hx
    · exact hnot hrel
  loaded c x hc hx := by
    rw [hq.current] at hc
    rw [hq.loaded]
    obtain ⟨y, hy⟩ := hi.current c hc
    rw [h.loaded c y hc hy]
    rcases hq.body c x hx with hold | ⟨-, x₀, code, hx₀, -, rfl⟩ | ⟨hnew, -⟩
    · rw [hy, Option.some.injEq] at hold
      rw [hold]
    · rw [hy, Option.some.injEq] at hx₀
      rw [hx₀]
      rfl
    · rw [hy] at hnew
      cases hnew
  boot hc := by
    rw [hq.current] at hc
    rw [hq.loaded]
    exact h.boot hc

theorem Tables.first (h : Tables s) (hf : FirstSwitch s s') : Tables s' := by
  obtain ⟨x, y, hx, -, hym, -, hb⟩ := hf.body
  have hy : y.pageTable = none := hym.trans (h.init x hx)
  -- every task has the table it had
  have hold : ∀ {p z m}, s'.body p = some z → z.pageTable = some m → s.body p = some z := by
    intro p z m hz hm
    rw [hb, update_apply] at hz
    split at hz
    · cases hz
      rw [hy] at hm
      cases hm
    · exact hz
  have hnone : ∀ {p z}, s'.body p = some z → (∀ z, s.body p = some z → z.pageTable = none) → z.pageTable = none := by
    intro p z hz hn
    cases hm : z.pageTable with
    | none => rfl
    | some m =>
      rw [hn z (hold hz hm)] at hm
      cases hm
  refine ⟨fun z hz => hnone hz (fun w hw => h.init w hw), fun hl p z hz => hnone hz (h.lock (hf.utaskLock ▸ hl) p),
    fun p q z w m m' hz hw hm hm' => h.unique p q z w m m' (hold hz hm) (hold hw hm') hm hm',
    fun p z m hz hm => hf.released ▸ h.live p z m (hold hz hm) hm, fun c z hc hz => ?_, fun hc => ?_⟩
  · rw [hf.current', Option.some.injEq] at hc
    rw [← hc, hb, update_self, Option.some.injEq] at hz
    rw [hf.loaded, h.boot hf.current, ← hz, hy]
  · rw [hf.current'] at hc
    cases hc

theorem Switch.table {regs n : Nat} {x y z : Task} (hs : Switch s s' regs c n x y) (hz : s'.body p = some z) :
    ∃ w, s.body p = some w ∧ w.pageTable = z.pageTable := by
  have hleft : ∀ w, update s.body c (some (saved x regs)) p = some w →
      ∃ w', s.body p = some w' ∧ w'.pageTable = w.pageTable := fun w hw => by
    rw [update_apply] at hw
    split at hw
    · rename_i hpc
      cases hw
      exact ⟨x, hpc ▸ hs.left, rfl⟩
    · exact ⟨w, hw, rfl⟩
  rw [hs.body, update_apply] at hz
  split at hz
  · rename_i hpn
    cases hz
    exact hleft y (hpn ▸ hs.entered)
  · exact hleft z hz

/-- **The table after a switch is right just when no task with a table was left.** -/
theorem Tables.loaded_iff {regs n : Nat} {x y : Task} (h : Tables s) (hs : Switch s s' regs c n x y) :
    s'.loaded = y.pageTable ↔ x.pageTable = none ∨ n = c := by
  rw [hs.loaded]
  by_cases hn : n = c
  · have hy := hs.entered
    rw [hn, update_self, Option.some.injEq] at hy
    have hyx : y.pageTable = x.pageTable := by
      rw [← hy]
      rfl
    rw [h.loaded c x hs.current hs.left, hyx]
    refine iff_of_true ?_ (.inr hn)
    split <;> rfl
  · have hy := hs.entered
    rw [update_of_ne hn] at hy
    rw [h.loaded c x hs.current hs.left]
    cases hx : x.pageTable with
    | none =>
      refine iff_of_true ?_ (.inl rfl)
      split
      · rename_i hy
        exact hy.symm
      · rfl
    | some m =>
      have hynone : y.pageTable = none := by
        cases hym : y.pageTable with
        | none => rfl
        | some m' => exact absurd (h.unique n c y x m' m hy hs.left hym hx) hn
      rw [hynone]
      exact iff_of_false nofun (not_or.2 ⟨nofun, hn⟩)

theorem Tables.switch {regs n : Nat} {x y : Task} (h : Tables s) (hs : Switch s s' regs c n x y)
    (hloaded : s'.loaded = y.pageTable) : Tables s' := by
  have hnone : ∀ {p z}, s'.body p = some z → (∀ z, s.body p = some z → z.pageTable = none) → z.pageTable = none := by
    intro p z hz hn
    obtain ⟨w, hw, hwz⟩ := hs.table hz
    exact hwz.symm.trans (hn w hw)
  refine ⟨fun z hz => hnone hz h.init, fun hl p z hz => hnone hz (h.lock (hs.utaskLock ▸ hl) p),
    fun p q z w m m' hz hw hm hm' => ?_, fun p z m hz hm => ?_, fun c' z hc hz => ?_, fun hc => ?_⟩
  · obtain ⟨z₀, hz₀, hzz⟩ := hs.table hz
    obtain ⟨w₀, hw₀, hww⟩ := hs.table hw
    exact h.unique p q z₀ w₀ m m' hz₀ hw₀ (hzz.trans hm) (hww.trans hm')
  · obtain ⟨z₀, hz₀, hzz⟩ := hs.table hz
    rw [hs.released]
    exact h.live p z₀ m hz₀ (hzz.trans hm)
  · rw [hs.current', Option.some.injEq] at hc
    rw [← hc, hs.body, update_self, Option.some.injEq] at hz
    rw [hloaded, ← hz]
  · rw [hs.current'] at hc
    cases hc

theorem Switch.keepsTable_iff {regs n : Nat} {x y : Task} (hs : Switch s s' regs c n x y) :
    s.KeepsTable (.scheduleFromIsr regs) ↔ x.pageTable = none ∨ n = c := by
  obtain ⟨w, hw, hwx⟩ := map_eq_some_iff.1 hs.left
  have hmx : x.pageTable = w.pageTable := by
    rw [← hwx]
    rfl
  constructor
  · intro h
    cases hm : x.pageTable with
    | none => exact .inl rfl
    | some m => exact .inr (not_not.1 (mt hs.other.1 (h c w m hs.current hw (hmx.symm.trans hm))))
  intro h c' w' m hc hw' hm
  cases hs.current.symm.trans hc
  rw [hw, Option.some.injEq] at hw'
  rw [← hs.other, not_not]
  refine h.resolve_left ?_
  rw [hmx, hw', hm]
  exact some_ne_none m

theorem Tables.step (h : Tables s) (hi : Inv s l) (ha : s.Allowed op) (htask : TaskOp op) (hkeep : s.KeepsTable op)
    (hop : s.step op = .ok s') : Tables s' := by
  rcases step_cases hi ha hop with ⟨l', -, hq, -⟩ | ⟨-, -, rfl | rfl⟩ | ⟨-, hf, -⟩ | ⟨-, _, c, n, x, y, hs, rfl⟩ |
    ⟨-, ⟨flag, counter, rfl⟩, -⟩
  · exact h.quiet hi hq
  · exact absurd htask id
  · exact absurd htask id
  · exact h.first hf
  · exact h.switch hs ((h.loaded_iff hs).2 (hs.keepsTable_iff.1 hkeep))
  · exact ⟨h.init, h.lock, h.unique, h.live, h.loaded, h.boot⟩

theorem TableRun.spec (h : TableRun s) : (∃ l, Inv s l) ∧ Tables s := by
  obtain ⟨initStackTop, h⟩ := h
  induction h with
  | refl => exact ⟨⟨[0], Inv.schedulerInit initStackTop⟩, tables_init initStackTop⟩
  | tail _ hstep ih =>
    obtain ⟨⟨l, hi⟩, ht⟩ := ih
    obtain ⟨op, ha, htask, hkeep, hop⟩ := hstep
    exact ⟨hi.step ⟨op, ha, hop⟩, ht.step hi ha htask hkeep hop⟩

/-- **The loaded page table is right just where no user task is left.**  In a run whose steps all met the condition the
loaded table is not a released one, and after the next `schedule_from_isr` it is the current task's own, or the kernel's
if that has none, exactly if that step meets the condition too. -/
theorem table_right_iff (h : TableRun s) : (∀ m, s.loaded = some m → m ∉ s.released) ∧
    ∀ regs s', s.step (.scheduleFromIsr regs) = .ok s' → (TableRight s' ↔ s.KeepsTable (.scheduleFromIsr regs)) := by
  obtain ⟨⟨l, hi⟩, ht⟩ := h.spec
  refine ⟨fun m hm => ?_, fun regs s' hop => ?_⟩
  · cases hc : s.current with
    | none =>
      rw [ht.boot hc] at hm
      cases hm
    | some c =>
      obtain ⟨x, hx⟩ := hi.current c hc
      exact ht.live c x m hx ((ht.loaded c x hc hx).symm.trans hm)
  · have hright : ∀ {c x}, s'.current = some c → s'.body c = some x → (TableRight s' ↔ s'.loaded = x.pageTable) := by
      intro c x hc hx
      obtain ⟨w, hw, rfl⟩ := map_eq_some_iff.1 hx
      refine ⟨fun h => h c w hc hw, fun h c' w' hc' hw' => ?_⟩
      rw [hc, Option.some.injEq] at hc'
      rw [← hc', hw, Option.some.injEq] at hw'
      exact hw' ▸ h
    obtain ⟨r, hr, h⟩ := Res.bind_ok hop
    cases h
    cases hcur : s.current with
    | none =>
      obtain ⟨hf, -⟩ := schedule_first hcur hi hr
      obtain ⟨x, y, hx, -, hym, -, hb⟩ := hf.body
      rw [hright hf.current' (by rw [hb]; exact update_self ..)]
      refine iff_of_true ?_ (fun c x m hc => ?_)
      · rw [hf.loaded, ht.boot hcur, hym, ht.init x hx]
      · rw [hcur] at hc
        cases hc
    | some c =>
      obtain ⟨⟨n, x, y, hs⟩, -⟩ := schedule_switch hcur hi hr
      rw [hright hs.current' (by rw [hs.body]; exact update_self ..), hs.keepsTable_iff]
      have hiff := ht.loaded_iff hs
      exact hiff

/-- A user task is created at boot. -/
theorem utask_table_right_iff : ∃ s, (schedulerInit 0).step (.utaskCreate 5 1 2 7) = .ok s ∧
    (∀ m, s.loaded = some m → m ∉ s.released) ∧
    ∀ regs s', s.step (.scheduleFromIsr regs) = .ok s' → (TableRight s' ↔ s.KeepsTable (.scheduleFromIsr regs)) := by
  refine ⟨_, rfl, table_right_iff ⟨0, .single ⟨.utaskCreate 5 1 2 7, ⟨init_not_halted 0, rfl⟩, trivial, trivial, rfl⟩⟩⟩

theorem utask_run : ∃ s₁ s₂ s₃ s₄ s₅, (schedulerInit 0).step (.utaskCreate 5 1 2 7) = .ok s₁ ∧
    s₁.step (.scheduleFromIsr 1) = .ok s₂ ∧ (timerApicHandler^[10] s₂).step (.scheduleFromIsr 1) = .ok s₃ ∧
    (timerApicHandler^[10] s₃).step (.scheduleFromIsr 1) = .ok s₄ ∧ s₄.current = some 0 ∧ s₄.loaded = some 7 ∧
    (∃ x, s₄.tasks 0 = some x ∧ x.pageTable = none ∧ x.halted = false) ∧
    s₄.step (.taskStop 1) = .ok s₅ ∧ s₅.loaded = some 7 ∧ 7 ∈ s₅.released :=
  ⟨_, _, _, _, _, rfl, rfl, rfl, rfl, rfl, rfl, ⟨_, rfl, rfl, rfl⟩, rfl, rfl, .head _⟩

/-- **A table that stays loaded**: the switch from a user task to the init task leaves the user task's table loaded, and
it still is when `task_stop` has released it. -/
theorem user_table_stays : ∃ s s' s'', Reach s ∧ s.step (.scheduleFromIsr 1) = .ok s' ∧ ¬ TableRight s' ∧
    s'.Allowed (.taskStop 1) ∧ s'.step (.taskStop 1) = .ok s'' ∧ ∃ m, s''.loaded = some m ∧ m ∈ s''.released := by
  obtain ⟨s₁, s₂, s₃, s₄, s₅, h₁, h₂, h₃, h₄, hcur, hloaded, ⟨x, hx, hxm, hlive⟩, h₅, hloaded₅, hrel⟩ := utask_run
  have hr₁ := Reach.step ⟨0, .refl⟩ (.utaskCreate 5 1 2 7) ⟨init_not_halted 0, rfl⟩ h₁
  have hr₂ := hr₁.step (.scheduleFromIsr 1) trivial h₂
  have hr₃ := (hr₂.timers 10).step (.scheduleFromIsr 1) trivial h₃
  refine ⟨timerApicHandler^[10] s₃, s₄, s₅, hr₃.timers 10, h₄, fun h => ?_, not_halted hcur hx hlive, h₅, 7,
    hloaded₅, hrel⟩
  have := h 0 x hcur hx
  rw [hloaded, hxm] at this
  cases this

end Sched

end OS64
