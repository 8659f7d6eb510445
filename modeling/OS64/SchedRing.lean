import OS64.Sched
import OS64.RingList
/-!
# SchedRing — the ring of the scheduler is a queue

The ring that `task_ring` points to stands for a list of tasks (`Core`).  Every function keeps it, and does to the list
what it did to the ring: a new task comes last (`insert_spec`), an unlinked task is removed (`unlink_spec`), and where
the last one goes the init task is left.  A task that is freed was not in the ring (`free_spec`).
-/
namespace OS64

open Function List Option Nat

def Task.body (t : Task) : Task := { t with next := 0 }

namespace Sched

/-! ## The list of tasks -/

/-- The list without `t`; the init task is left when it would be empty. -/
def removeTask (l : List Nat) (t : Nat) : List Nat := if l.erase t = [] then [0] else l.erase t

def queueStep (l : List Nat) : Event → List Nat
  | .created t => l ++ [t]
  | .unlinked t => removeTask l t
  | .passed _ => l
  | .reset => [0]

def queueOf (log : List Event) : List Nat := log.foldl queueStep [0]

def passedStep (l : List Nat) : Event → List Nat
  | .created t => l.filter (· ≠ t)
  | .passed t => t :: l
  | _ => l

/-- The tasks that were passed to `free_task_resources`, until their memory is used for a new task. -/
def passedOf (log : List Event) : List Nat := log.foldl passedStep []

theorem queueOf_concat (log : List Event) (e : Event) : queueOf (log ++ [e]) = queueStep (queueOf log) e :=
  foldl_concat ..

theorem passedOf_concat (log : List Event) (e : Event) : passedOf (log ++ [e]) = passedStep (passedOf log) e :=
  foldl_concat ..

section removeTask

variable {l : List Nat} {t x : Nat}

theorem removeTask_of_notMem (hl : l ≠ []) (ht : t ∉ l) : removeTask l t = l := by
  unfold removeTask
  rw [erase_of_not_mem ht, if_neg hl]

theorem removeTask_split {pre post : List Nat} (hl : (pre ++ t :: post).Nodup) (hne : pre ++ post ≠ []) :
    removeTask (pre ++ t :: post) t = pre ++ post := by
  have ht : t ∉ pre := fun h => (nodup_append.1 hl).2.2 t h t mem_cons_self rfl
  unfold removeTask
  rw [erase_append_right _ ht, erase_cons_head, if_neg hne]

theorem length_removeTask_le {n : Nat} (hl : l.length ≤ n + 1) : (removeTask l t).length ≤ n + 1 := by
  unfold removeTask
  split
  · exact succ_le_succ (zero_le n)
  · exact le_trans (erase_sublist.length_le) hl

theorem mem_removeTask (hx : x ∈ removeTask l t) : x = 0 ∨ x ∈ l := by
  unfold removeTask at hx
  split at hx
  · exact .inl (mem_singleton.1 hx)
  · exact .inr (mem_of_mem_erase hx)

theorem notMem_removeTask (hl : l.Nodup) (ht : t ≠ 0) : t ∉ removeTask l t := by
  intro h
  unfold removeTask at h
  split at h
  · exact ht (mem_singleton.1 h)
  · exact hl.not_mem_erase h

end removeTask

/-! ## Views of the table -/

def pidOf (s : Sched) (p : Nat) : Option Nat := (s.tasks p).map Task.pid

def body (s : Sched) (p : Nat) : Option Task := (s.tasks p).map Task.body

section Views

variable {s : Sched} {p q : Nat} {t : Task}

theorem task_ok (h : s.tasks p = some t) : s.task p = .ok t := by
  unfold task
  rw [h]

theorem of_task_ok (h : s.task p = .ok t) : s.tasks p = some t := by
  unfold task at h
  cases hp : s.tasks p with
  | none => rw [hp] at h; cases h
  | some t' => rw [hp] at h; cases h; rfl

@[simp] theorem setTask_tasks : (s.setTask p t).tasks = update s.tasks p (some t) := rfl

theorem nextOf_setTask : (s.setTask p t).nextOf = update s.nextOf p (some t.next) := by
  funext q
  unfold nextOf
  rw [setTask_tasks, update_apply, update_apply]
  split <;> rfl

theorem body_setTask : (s.setTask p t).body = update s.body p (some t.body) := by
  funext q
  unfold body
  rw [setTask_tasks, update_apply, update_apply]
  split <;> rfl

theorem body_of (h : s.tasks p = some t) : s.body p = some t.body := by
  unfold body
  rw [h]
  rfl

theorem nextOf_of (h : s.tasks p = some t) : s.nextOf p = some t.next := by
  unfold nextOf
  rw [h]
  rfl

theorem pidOf_eq (s : Sched) (p : Nat) : s.pidOf p = (s.body p).map Task.pid := by
  unfold body
  rw [Option.map_map]
  rfl

theorem exists_of_next (h : s.nextOf p = some q) : ∃ t, s.tasks p = some t ∧ t.next = q :=
  map_eq_some_iff.1 h

theorem exists_of_pid (h : s.pidOf p ≠ none) : ∃ t, s.tasks p = some t := by
  cases hp : s.tasks p with
  | none => exact absurd (by unfold pidOf; rw [hp]; rfl) h
  | some t => exact ⟨t, rfl⟩

theorem body_setTask_next (h : s.tasks p = some t) (n : Nat) : (s.setTask p { t with next := n }).body = s.body := by
  rw [body_setTask, show Task.body { t with next := n } = t.body from rfl, ← body_of h, update_eq_self]

end Views

/-! ## The ring and its list -/

/-- The ring stands for the list `l`, which is the one the events give; every task in it is there. -/
structure Core (s : Sched) (l : List Nat) : Prop where
  ring : IsRing s.nextOf s.taskRing l
  queue : queueOf s.log = l
  size : l.length ≤ s.created + 1
  init : s.pidOf 0 = some 0
  pids : ∀ p, p ≠ 0 → s.pidOf p ≠ some 0
  nextPid : 0 < s.nextPid
  passed : ∀ p ∈ passedOf s.log, p ≠ 0 → s.pidOf p = none

/-- Nothing but the table, the ring, the zombies, the released tables and the events changed. -/
structure SameRest (s s' : Sched) : Prop where
  created : s'.created = s.created
  current : s'.current = s.current
  nextPid : s'.nextPid = s.nextPid
  needReschedule : s'.needReschedule = s.needReschedule
  utaskLock : s'.utaskLock = s.utaskLock
  loaded : s'.loaded = s.loaded

theorem SameRest.trans {s s' s'' : Sched} (h : SameRest s s') (h' : SameRest s' s'') : SameRest s s'' :=
  ⟨h'.created.trans h.created, h'.current.trans h.current, h'.nextPid.trans h.nextPid,
    h'.needReschedule.trans h.needReschedule, h'.utaskLock.trans h.utaskLock, h'.loaded.trans h.loaded⟩

namespace Core

variable {s s' : Sched} {l : List Nat} {p t : Nat}

theorem schedulerInit (initStackTop : Nat) : Core (schedulerInit initStackTop) [0] where
  ring := IsRing.single rfl
  queue := rfl
  size := le_refl 1
  init := rfl
  pids p hp := by
    have : (Sched.schedulerInit initStackTop).tasks p = none := if_neg hp
    unfold pidOf
    rw [this]
    exact nofun
  nextPid := Nat.one_pos
  passed p hp := absurd hp not_mem_nil

section
variable (hc : Core s l)
include hc

theorem task_of_mem (hp : p ∈ l) : ∃ t, s.tasks p = some t := by
  obtain ⟨q, -, hq⟩ := hc.ring.next_mem hp
  obtain ⟨t, ht, -⟩ := exists_of_next hq
  exact ⟨t, ht⟩

theorem tail : ∃ t, s.tasks s.taskRing = some t ∧ t.next = l.headD s.taskRing :=
  exists_of_next hc.ring.next_tail

theorem ends : ∃ y a b, s.tasks s.taskRing = some y ∧ y.next = a ∧ l = a :: b ∧
    l.headD s.taskRing = a ∧ (a :: b).length ≤ s.created + 1 := by
  obtain ⟨y, hy, hynext⟩ := hc.tail
  obtain ⟨a, b, rfl⟩ := exists_cons_of_ne_nil hc.ring.ne_nil
  exact ⟨y, a, b, hy, hynext, rfl, rfl, hc.size⟩

theorem initTask : ∃ t, s.tasks 0 = some t :=
  exists_of_pid (by rw [hc.init]; exact some_ne_none 0)

theorem mem_of_inRing (h : s.InRing p) : p ∈ l := by
  induction h with
  | single h =>
    obtain ⟨q, hq, hn⟩ := hc.ring.next_mem hc.ring.tail_mem
    rw [h, Option.some.injEq] at hn
    exact hn ▸ hq
  | tail _ h ih =>
    obtain ⟨q, hq, hn⟩ := hc.ring.next_mem ih
    rw [h, Option.some.injEq] at hn
    exact hn ▸ hq

theorem congr (hring : s'.taskRing = s.taskRing) (hnext : s'.nextOf = s.nextOf)
    (hpid : s'.pidOf = s.pidOf) (hcreated : s'.created = s.created) (hnp : s'.nextPid = s.nextPid)
    (hlog : s'.log = s.log) : Core s' l where
  ring := by rw [hnext, hring]; exact hc.ring
  queue := by rw [hlog]; exact hc.queue
  size := by rw [hcreated]; exact hc.size
  init := by rw [hpid]; exact hc.init
  pids := by rw [hpid]; exact hc.pids
  nextPid := by rw [hnp]; exact hc.nextPid
  passed := by rw [hlog, hpid]; exact hc.passed

/-- **A new task comes last.** -/
theorem insert_spec (hp : s.tasks p = none) {x : Task} (hx : x.pid ≠ 0) :
    ∃ s', s.insertTask p x = .ok s' ∧ Core s' (l ++ [p]) ∧ s'.body = update s.body p (some x.body) ∧
      s' = { s with tasks := s'.tasks, created := s.created + 1, taskRing := p, nextPid := s.nextPid + 1,
                    log := s.log ++ [.created p] } := by
  obtain ⟨y, hy, hynext⟩ := hc.tail
  have hne : p ≠ s.taskRing := by
    rintro rfl
    rw [hp] at hy
    cases hy
  have hpl : p ∉ l := fun h => by
    obtain ⟨t, ht⟩ := hc.task_of_mem h
    rw [hp] at ht
    cases ht
  have hbody : ((s.setTask p { x with next := y.next }).setTask s.taskRing { y with next := p }).body =
      update s.body p (some x.body) := by
    rw [body_setTask_next, body_setTask]
    · rfl
    · rw [setTask_tasks, update_of_ne hne.symm, hy]
  have hnext : ((s.setTask p { x with next := y.next }).setTask s.taskRing { y with next := p }).nextOf =
      update (update s.nextOf p (some y.next)) s.taskRing (some p) := by
    rw [nextOf_setTask, nextOf_setTask]
  have hring : IsRing (update (update s.nextOf p (some y.next)) s.taskRing (some p)) p (l ++ [p]) := by
    refine hc.ring.push hpl ?_ (update_self ..) (fun z hz hzt => ?_)
    · rw [update_of_ne hne, update_self, nextOf_of hy]
    · rw [update_of_ne hzt, update_of_ne]
      rintro rfl
      exact hpl hz
  rw [← hnext] at hring
  unfold insertTask
  rw [task_ok hy]
  refine ⟨_, rfl, ?_, hbody, rfl⟩
  have hpid : ∀ q, ((s.setTask p { x with next := y.next }).setTask s.taskRing { y with next := p }).pidOf q =
      if q = p then some x.pid else s.pidOf q := fun q => by
    rw [pidOf_eq, hbody, update_apply, pidOf_eq]
    split <;> rfl
  refine ⟨hring, ?_, ?_, ?_, ?_, succ_pos _, ?_⟩
  · change queueOf (s.log ++ [.created p]) = _
    rw [queueOf_concat, hc.queue]
    rfl
  · rw [length_append]
    exact succ_le_succ hc.size
  · refine (hpid 0).trans ?_
    rw [if_neg, hc.init]
    rintro rfl
    obtain ⟨t, ht⟩ := hc.initTask
    rw [hp] at ht
    cases ht
  · intro q hq h
    have h' := (hpid q).symm.trans h
    split at h'
    · exact hx (Option.some.inj h')
    · exact hc.pids q hq h'
  · intro q hq hq0
    change q ∈ passedOf (s.log ++ [.created p]) at hq
    rw [passedOf_concat] at hq
    obtain ⟨hq, hqp⟩ := mem_filter.1 hq
    refine (hpid q).trans ?_
    rw [if_neg (of_decide_eq_true hqp)]
    exact hc.passed q hq hq0

end

/-! ### Unlinking -/

theorem unlinkLoop_spec (hring : IsRing s.nextOf s.taskRing l) :
    ∀ (n : Nat) (a : List Nat) (x : Nat) (b : List Nat), l = a ++ x :: b → t ∉ a → b.length < n →
      (t ∉ l ∧ s.unlinkLoop t (l.headD s.taskRing) n (IsRing.prev s.taskRing a) x = .ok none) ∨
      (∃ pre post, l = pre ++ t :: post ∧
        s.unlinkLoop t (l.headD s.taskRing) n (IsRing.prev s.taskRing a) x = .ok (some (IsRing.prev s.taskRing pre)))
  | 0, _, _, _, _, _, hn => absurd hn (not_lt_zero _)
  | n + 1, a, x, b, hl, ha, hn => by
    rw [unlinkLoop]
    by_cases hx : x = t
    · subst hx
      obtain ⟨y, -, hy⟩ := hring.next_mem (by rw [hl]; exact mem_append_right _ (.head _))
      obtain ⟨z, hz, -⟩ := exists_of_next hy
      refine .inr ⟨a, b, hl, ?_⟩
      rw [task_ok hz]
      exact if_pos rfl
    · have ha' : t ∉ a ++ [x] := by
        rw [mem_append, mem_singleton]
        rintro (h | h)
        · exact ha h
        · exact hx h.symm
      have hwalk := (hl ▸ hring).walk
      rw [← hl] at hwalk
      rcases hwalk with ⟨rfl, hnext⟩ | ⟨y, b', rfl, hnext, hy⟩
      · obtain ⟨z, hz, hzn⟩ := exists_of_next hnext
        refine .inl ⟨by rwa [hl], ?_⟩
        rw [task_ok hz]
        exact (if_neg hx).trans (if_pos hzn)
      obtain ⟨z, hz, hzn⟩ := exists_of_next hnext
      have ih := unlinkLoop_spec hring n (a ++ [x]) y b' (by rw [hl, append_assoc]; rfl) ha' (lt_of_succ_lt_succ hn)
      have hprev : IsRing.prev s.taskRing (a ++ [x]) = x := by
        unfold IsRing.prev
        rw [List.getLast?_concat]
        rfl
      rw [hprev] at ih
      rw [task_ok hz]
      change (_ ∧ ite _ _ _ = _) ∨ (∃ pre post, _ ∧ ite _ _ _ = _)
      rwa [if_neg hx, if_neg (hzn ▸ hy), hzn]

theorem relink (hc : Core s l) (hring : IsRing s'.nextOf s'.taskRing (removeTask l t)) (hbody : s'.body = s.body)
    (hrest : SameRest s s') (hlog : s'.log = s.log ++ [.unlinked t]) : Core s' (removeTask l t) where
  ring := hring
  queue := by rw [hlog, queueOf_concat, hc.queue]; rfl
  size := by rw [hrest.created]; exact length_removeTask_le hc.size
  init := by rw [pidOf_eq, hbody, ← pidOf_eq]; exact hc.init
  pids p hp := by rw [pidOf_eq, hbody, ← pidOf_eq]; exact hc.pids p hp
  nextPid := by rw [hrest.nextPid]; exact hc.nextPid
  passed p hp hp0 := by
    rw [hlog, passedOf_concat] at hp
    rw [pidOf_eq, hbody, ← pidOf_eq]
    exact hc.passed p hp hp0

theorem unlinkSingle_spec (hring : IsRing s.nextOf s.taskRing [s.taskRing]) (h0 : ∃ i, s.tasks 0 = some i) (t : Nat) :
    ∃ s', s.unlinkSingle t = .ok s' ∧ IsRing s'.nextOf s'.taskRing (removeTask [s.taskRing] t) ∧ s'.body = s.body ∧
      SameRest s s' ∧ s'.log = s.log ∧ s'.zombieList = s.zombieList ∧ s'.released = s.released := by
  unfold unlinkSingle
  by_cases ht : s.taskRing = t
  · have hrem : removeTask [t] t = [0] := by
      unfold removeTask
      rw [erase_cons_head]
      rfl
    rw [if_pos ht]
    by_cases ht0 : t = 0
    · rw [if_pos ht0]
      refine ⟨s, rfl, ?_, rfl, ⟨rfl, rfl, rfl, rfl, rfl, rfl⟩, rfl, rfl, rfl⟩
      rw [ht]
      rw [ht] at hring
      exact ht0 ▸ hring
    obtain ⟨i, hi⟩ := h0
    rw [if_neg ht0, task_ok hi]
    refine ⟨_, rfl, ?_, body_setTask_next hi 0, ⟨rfl, rfl, rfl, rfl, rfl, rfl⟩, rfl, rfl, rfl⟩
    rw [ht, hrem]
    refine IsRing.single ?_
    change (s.setTask 0 _).nextOf 0 = some 0
    rw [nextOf_setTask]
    exact update_self ..
  · rw [if_neg ht]
    refine ⟨s, rfl, ?_, rfl, ⟨rfl, rfl, rfl, rfl, rfl, rfl⟩, rfl, rfl, rfl⟩
    rwa [removeTask_of_notMem (cons_ne_nil _ _) (fun h => ht (mem_singleton.1 h).symm)]

theorem unlinkAfter_spec {pre post : List Nat} (hring : IsRing s.nextOf s.taskRing (pre ++ t :: post))
    (hne : pre ++ post ≠ []) :
    ∃ s', s.unlinkAfter t (IsRing.prev s.taskRing pre) = .ok s' ∧ IsRing s'.nextOf s'.taskRing (pre ++ post) ∧
      s'.body = s.body ∧ SameRest s s' ∧ s'.log = s.log ∧ s'.zombieList = s.zombieList ∧ s'.released = s.released := by
  have hprev : IsRing.prev s.taskRing pre ∈ pre ++ t :: post := by
    rcases eq_nil_or_concat pre with rfl | ⟨p, y, rfl⟩
    · exact hring.tail_mem
    · unfold IsRing.prev
      rw [concat_eq_append, List.getLast?_concat]
      exact mem_append_left _ (mem_append_right _ (mem_singleton_self y))
  obtain ⟨_, -, hx⟩ := hring.next_mem (mem_append_right _ (.head _))
  obtain ⟨x, hx, -⟩ := exists_of_next hx
  obtain ⟨_, -, hy⟩ := hring.next_mem hprev
  obtain ⟨y, hy, -⟩ := exists_of_next hy
  unfold unlinkAfter
  rw [task_ok hx, task_ok hy]
  refine ⟨_, rfl, ?_, body_setTask_next hy _, ⟨rfl, rfl, rfl, rfl, rfl, rfl⟩, rfl, rfl, rfl⟩
  have hun : IsRing (s.setTask (IsRing.prev s.taskRing pre) { y with next := x.next }).nextOf
      (if t = s.taskRing then IsRing.prev s.taskRing pre else s.taskRing) (pre ++ post) :=
    hring.unlink hne (by rw [nextOf_setTask, update_self, nextOf_of hx])
      (fun z _ hz => by rw [nextOf_setTask, update_of_ne hz])
  simp only [eq_comm (a := t)] at hun
  exact hun

theorem unlinkTask_spec (hring : IsRing s.nextOf s.taskRing l) (h0 : ∃ i, s.tasks 0 = some i)
    (hsize : l.length ≤ s.created + 1) (t : Nat) :
    ∃ s', s.unlinkTask t = .ok s' ∧ IsRing s'.nextOf s'.taskRing (removeTask l t) ∧ s'.body = s.body ∧
      SameRest s s' ∧ s'.log = s.log ∧ s'.zombieList = s.zombieList ∧ s'.released = s.released := by
  obtain ⟨y, hy, hynext⟩ := exists_of_next hring.next_tail
  unfold unlinkTask
  rw [task_ok hy]
  change ∃ s', ite _ _ _ = _ ∧ _
  by_cases hsingle : y.next = s.taskRing
  · rw [if_pos hsingle]
    obtain rfl := hring.eq_single (hynext.symm.trans hsingle)
    exact unlinkSingle_spec hring h0 t
  rw [if_neg hsingle, hynext]
  obtain ⟨x, b, hl⟩ : ∃ x b, l = x :: b := exists_cons_of_ne_nil hring.ne_nil
  have hloop := unlinkLoop_spec (t := t) hring s.turns [] x b hl not_mem_nil (by rw [hl] at hsize; exact hsize)
  have hhead : l.headD s.taskRing = x := by rw [hl]; rfl
  rw [hhead] at hloop ⊢
  rcases hloop with ⟨ht, hloop⟩ | ⟨pre, post, hl', hloop⟩
  · rw [show IsRing.prev s.taskRing [] = s.taskRing from rfl] at hloop
    rw [hloop]
    refine ⟨s, rfl, ?_, rfl, ⟨rfl, rfl, rfl, rfl, rfl, rfl⟩, rfl, rfl, rfl⟩
    rwa [removeTask_of_notMem hring.ne_nil ht]
  rw [show IsRing.prev s.taskRing [] = s.taskRing from rfl] at hloop
  rw [hloop]
  have hne : pre ++ post ≠ [] := fun h => by
    obtain ⟨rfl, rfl⟩ := append_eq_nil_iff.1 h
    have hlast := hring.last
    rw [hl', nil_append, List.getLast?_singleton, Option.some.injEq] at hlast
    refine hsingle (hynext.trans ?_)
    rw [hl', hlast]
    rfl
  rw [hl'] at hring ⊢
  rw [removeTask_split hring.nodup hne]
  exact unlinkAfter_spec hring hne

/-- **`unlink_from_ring` removes the task from the list**, and changes nothing of a task but its link. -/
theorem unlink_spec (hc : Core s l) (t : Nat) :
    ∃ s', s.unlinkFromRing t = .ok s' ∧ Core s' (removeTask l t) ∧ s'.body = s.body ∧ SameRest s s' ∧
      s'.zombieList = s.zombieList ∧ s'.released = s.released := by
  have hnote : SameRest s (s.note (.unlinked t)) := ⟨rfl, rfl, rfl, rfl, rfl, rfl⟩
  obtain ⟨s', hs', hring, hbody, hrest, hlog, hz, hrel⟩ :=
    unlinkTask_spec (s := s.note (.unlinked t)) hc.ring hc.initTask hc.size t
  have hrest' := hnote.trans hrest
  exact ⟨s', hs', hc.relink hring hbody hrest' hlog, hbody, hrest', hz, hrel⟩

/-! ### Freeing -/

def freed (ts : List Nat) (b : Nat → Option Task) (p : Nat) : Option Task := if p ∈ ts ∧ p ≠ 0 then none else b p

/-- Every released table was released before or belonged to one of the tasks `ts`. -/
def ReleasedBy (ts : List Nat) (s s' : Sched) : Prop :=
  ∀ m ∈ s'.released, m ∈ s.released ∨ ∃ p ∈ ts, p ≠ 0 ∧ ∃ x, s.body p = some x ∧ x.pageTable = some m

theorem free_spec (hc : Core s l) (ht : t = 0 ∨ t ∉ l) {x : Task} (hx : s.body t = some x) :
    ∃ s', s.freeTaskResources t = .ok s' ∧ Core s' l ∧ s'.body = freed [t] s.body ∧ SameRest s s' ∧
      s'.zombieList = s.zombieList ∧ ReleasedBy [t] s s' := by
  unfold freeTaskResources
  by_cases ht0 : t = 0
  · rw [if_pos ht0]
    refine ⟨_, rfl, ⟨hc.ring, ?_, hc.size, hc.init, hc.pids, hc.nextPid, ?_⟩, ?_, ⟨rfl, rfl, rfl, rfl, rfl, rfl⟩, rfl,
      fun m hm => .inl hm⟩
    · change queueOf (s.log ++ [.passed t]) = l
      rw [queueOf_concat]
      exact hc.queue
    · intro p hp hp0
      change p ∈ passedOf (s.log ++ [.passed t]) at hp
      rw [passedOf_concat] at hp
      rcases mem_cons.1 hp with rfl | hp
      · exact absurd ht0 hp0
      · exact hc.passed p hp hp0
    · funext p
      refine (if_neg ?_).symm
      rintro ⟨hp, hp0⟩
      exact hp0 ((mem_singleton.1 hp).trans ht0)
  · have htl : t ∉ l := ht.resolve_left ht0
    obtain ⟨y, hy, rfl⟩ := map_eq_some_iff.1 hx
    rw [if_neg ht0, task_ok hy]
    -- every view of the table loses the entry of the task
    have hview : ∀ {α : Type} (f : Task → α) (p : Nat),
        (update s.tasks t none p).map f = if p = t then none else (s.tasks p).map f := by
      intro α f p
      rw [update_apply]
      split <;> rfl
    refine ⟨_, rfl, ⟨hc.ring.congr ?_, ?_, hc.size, ?_, ?_, hc.nextPid, ?_⟩, ?_, ⟨rfl, rfl, rfl, rfl, rfl, rfl⟩,
      rfl, ?_⟩
    · intro p hp
      refine (hview Task.next p).trans (if_neg ?_)
      rintro rfl
      exact htl hp
    · change queueOf (s.log ++ [.passed t]) = l
      rw [queueOf_concat]
      exact hc.queue
    · exact ((hview Task.pid 0).trans (if_neg (Ne.symm ht0))).trans hc.init
    · intro p hp h
      have h' := (hview Task.pid p).symm.trans h
      split at h'
      · cases h'
      · exact hc.pids p hp h'
    · intro p hp hp0
      change p ∈ passedOf (s.log ++ [.passed t]) at hp
      rw [passedOf_concat] at hp
      refine (hview Task.pid p).trans ?_
      split
      · rfl
      · rename_i hpt
        exact hc.passed p ((mem_cons.1 hp).resolve_left hpt) hp0
    · funext p
      refine (hview Task.body p).trans (if_congr ?_ rfl rfl)
      rw [mem_singleton]
      exact ⟨fun h => ⟨h, h ▸ ht0⟩, And.left⟩
    · intro m hm
      rcases mem_append.1 hm with hm | hm
      · exact .inr ⟨t, mem_singleton_self t, ht0, y.body, hx, mem_toList.1 hm⟩
      · exact .inl hm

end Core

end Sched

end OS64
