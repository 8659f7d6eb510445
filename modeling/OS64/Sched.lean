import OS64.Loop
import OS64.Word
import Mathlib.Logic.Function.Basic
import Mathlib.Data.List.Basic
import Mathlib.Logic.Relation
/-!
# Sched — the scheduler (`kernel/sched.c`)

The tasks lie in a table: a pointer is a number, task 0 is `init_task`, and `malloc` gives any number that is not in
use. An access to a freed task is undefined and ends in `panic`.  `malloc` is taken to succeed, and `next_pid` not to
overflow. The zombies are a list, the last one added first.  The loops that go round the ring have one turn more than
tasks were created; running out of them is `hang`.

What a task owns besides its page table (its stacks, its memory and its name) is left out.
-/
namespace OS64

inductive TaskState where
  | running
  | ready
  | blocked
  | zombie
deriving DecidableEq

/-- `task_t`.  `halted` says that the task has come to the endless loop at the end of `task_exit` or `task_stop`. -/
structure Task where
  pid : Nat
  state : TaskState
  regs : Nat
  kstackTop : Nat
  exitCode : Int
  next : Nat
  pageTable : Option Nat
  halted : Bool

/-- What happened to the ring and its tasks: a task was put into the ring, passed to `unlink_from_ring` or passed to
`free_task_resources`, or `kill_all_tasks` or `emergency_terminate_all` came to its end. -/
inductive Event where
  | created (t : Nat)
  | unlinked (t : Nat)
  | passed (t : Nat)
  | reset
deriving DecidableEq

/-- The variables of the scheduler, the number of tasks that were created, the last page table that `paging_switch`
loaded (none for the kernel's), the page tables that were released, and the events so far. -/
structure Sched where
  tasks : Nat → Option Task
  created : Nat
  taskRing : Nat
  current : Option Nat
  nextPid : Nat
  zombieList : List Nat
  needReschedule : Bool
  preemptCounter : Nat
  syscallKstackTop : Nat
  initStackTop : Nat
  utaskLock : Bool
  loaded : Option Nat
  released : List Nat
  log : List Event

namespace Sched

def task (s : Sched) (p : Nat) : Res Task :=
  match s.tasks p with
  | none => .panic "freed task"
  | some t => .ok t

def setTask (s : Sched) (p : Nat) (t : Task) : Sched := { s with tasks := Function.update s.tasks p (some t) }

def note (s : Sched) (e : Event) : Sched := { s with log := s.log ++ [e] }

def turns (s : Sched) : Nat := s.created + 1

def schedulerInit (initStackTop : Nat) : Sched where
  tasks p := if p = 0 then
      some { pid := 0, state := .running, regs := 0, kstackTop := 0, exitCode := 0, next := 0, pageTable := none,
             halted := false }
    else none
  created := 0
  taskRing := 0
  current := none
  nextPid := 1
  zombieList := []
  needReschedule := false
  preemptCounter := 0
  syscallKstackTop := 0
  initStackTop := initStackTop
  utaskLock := false
  loaded := none
  released := []
  log := []

/-! ## New tasks -/

/-- The new task `p` is put into the ring behind the last one. -/
def insertTask (s : Sched) (p : Nat) (t : Task) : Res Sched :=
  (s.task s.taskRing).bind (fun tail =>
    .ok ({ (s.setTask p { t with next := tail.next }).setTask s.taskRing { tail with next := p } with
           created := s.created + 1, taskRing := p, nextPid := s.nextPid + 1 }.note (.created p)))

/-- `task_create`; `p` is what `malloc` returns and `regs` what `prepare_initial_stack` returns. -/
def taskCreate (s : Sched) (p regs kstackTop : Nat) : Res Sched :=
  s.insertTask p { pid := s.nextPid, state := .ready, regs := regs, kstackTop := kstackTop, exitCode := 0, next := 0,
                   pageTable := none, halted := false }

/-- `utask_create` with the page table that `paging_create_user_task` returned.  It returns before it gives up its lock,
so a second call waits for ever. -/
def utaskCreate (s : Sched) (p regs kstackTop pml4 : Nat) : Res Sched :=
  if s.utaskLock = true then .hang
  else
    { s with utaskLock := true, released := s.released.filter (· ≠ pml4) }.insertTask p
      { pid := s.nextPid, state := .ready, regs := regs, kstackTop := kstackTop, exitCode := 0, next := 0,
        pageTable := some pml4, halted := false }

/-! ## The next task -/

def findTask (s : Sched) (start : Nat) (found : Task → Bool) : Nat → Nat → Res (Option Nat)
  | 0, _ => .hang
  | turns + 1, it =>
    (s.task it).bind (fun t =>
      if found t = true then .ok (some it)
      else if t.next = start then .ok none
      else findTask s start found turns t.next)

def pickNext (s : Sched) : Res (Option Nat) :=
  (s.task (s.current.getD s.taskRing)).bind (fun t =>
    s.findTask t.next (fun t => decide (t.state = .ready ∨ t.state = .running)) s.turns t.next)

/-- `paging_switch`: without a table nothing is loaded. -/
def pagingSwitch (s : Sched) (pml4 : Option Nat) : Sched :=
  match pml4 with
  | none => s
  | some p => { s with loaded := some p }

/-- The end of `schedule_from_isr`: the current task runs. -/
def dispatch (s : Sched) (c : Nat) : Res (Sched × Nat) :=
  (s.task c).bind (fun t =>
    .ok ({ s.setTask c { t with state := .running } with syscallKstackTop := t.kstackTop }.pagingSwitch t.pageTable,
      t.regs))

/-- `schedule_from_isr`: `*out_regs_ptr` is returned. -/
def scheduleFromIsr (s : Sched) (regs : Nat) : Res (Sched × Nat) :=
  if regs = 0 then .panic "SCHEDULER_NULL_REGS"
  else
    match s.current with
    | none =>
      (s.task 0).bind (fun i =>
        .ok ({ s.setTask 0 { i with kstackTop := s.initStackTop, regs := regs, state := .running } with
               current := some 0, syscallKstackTop := s.initStackTop, needReschedule := false }, regs))
    | some c =>
      (s.task c).bind (fun t =>
        let s := s.setTask c { t with regs := regs, state := if t.state = .running then .ready else t.state }
        if s.needReschedule = true then
          s.pickNext.bind (fun next =>
            { s with current := some (next.getD c), needReschedule := false }.dispatch (next.getD c))
        else s.dispatch c)

/-- `timer_apic_handler`, as far as the scheduler is concerned. -/
def timerApicHandler (s : Sched) : Sched :=
  if 10 ≤ u32 (s.preemptCounter + 1) then { s with preemptCounter := 0, needReschedule := true }
  else { s with preemptCounter := u32 (s.preemptCounter + 1) }

/-! ## The end of tasks -/

/-- The loop of `unlink_from_ring`: the task before `t`. -/
def unlinkLoop (s : Sched) (t start : Nat) : Nat → Nat → Nat → Res (Option Nat)
  | 0, _, _ => .hang
  | turns + 1, prev, it =>
    (s.task it).bind (fun x =>
      if it = t then .ok (some prev)
      else if x.next = start then .ok none
      else unlinkLoop s t start turns it x.next)

/-- The work of `unlink_from_ring` on a ring of one task. -/
def unlinkSingle (s : Sched) (t : Nat) : Res Sched :=
  if s.taskRing = t then
    if t = 0 then .ok s
    else (s.task 0).bind (fun i => .ok { s.setTask 0 { i with next := 0 } with taskRing := 0 })
  else .ok s

def unlinkAfter (s : Sched) (t prev : Nat) : Res Sched :=
  (s.task t).bind (fun x => (s.task prev).bind (fun y =>
    .ok { s.setTask prev { y with next := x.next } with taskRing := if s.taskRing = t then prev else s.taskRing }))

def unlinkTask (s : Sched) (t : Nat) : Res Sched :=
  (s.task s.taskRing).bind (fun tail =>
    if tail.next = s.taskRing then s.unlinkSingle t
    else
      (s.unlinkLoop t tail.next s.turns s.taskRing tail.next).bind (fun r =>
        match r with
        | none => .ok s
        | some prev => s.unlinkAfter t prev))

/-- `unlink_from_ring`; whether it returns 0 is not looked at by any caller. -/
def unlinkFromRing (s : Sched) (t : Nat) : Res Sched := (s.note (.unlinked t)).unlinkTask t

/-- `free_task_resources`; of what is freed only the page table and the task itself are in the model. -/
def freeTaskResources (s : Sched) (t : Nat) : Res Sched :=
  if t = 0 then .ok (s.note (.passed t))
  else
    (s.task t).bind (fun x =>
      .ok ({ s with tasks := Function.update s.tasks t none, released := x.pageTable.toList ++ s.released }.note
        (.passed t)))

def reapList : List Nat → Sched → Res Sched
  | [], s => .ok s
  | z :: zs, s => (s.unlinkFromRing z).bind (fun s => (s.freeTaskResources z).bind (reapList zs))

def reapZombies (s : Sched) : Res Sched := reapList s.zombieList { s with zombieList := [] }

/-- The current task becomes a zombie, leaves the ring and halts. -/
def die (s : Sched) (c : Nat) (exitCode : Option Int) : Res Sched :=
  (s.task c).bind (fun t =>
    { s.setTask c { t with state := .zombie, exitCode := exitCode.getD t.exitCode, halted := true } with
      zombieList := c :: s.zombieList }.unlinkFromRing c)

def taskStop (s : Sched) (pid : Int) : Res (Sched × Int) :=
  s.reapZombies.bind (fun s =>
    (s.task s.taskRing).bind (fun tail =>
      (s.findTask tail.next (fun t => decide ((t.pid : Int) = pid)) s.turns tail.next).bind (fun r =>
        match r with
        | none => .ok (s, -1)
        | some found =>
          if s.current = some found then (s.die found none).bind (fun s => .ok (s, 0))
          else (s.unlinkFromRing found).bind (fun s => (s.freeTaskResources found).bind (fun s => .ok (s, 0))))))

def taskExit (s : Sched) (exitCode : Int) : Res Sched :=
  s.reapZombies.bind (fun s =>
    match s.current with
    | none => .ok s
    | some c => if c = 0 then .ok s else s.die c (some exitCode))

def killLoop (start : Nat) : Nat → Nat → Sched → Res Sched
  | 0, _, _ => .hang
  | turns + 1, it, s =>
    (s.task it).bind (fun t =>
      let s := if t.pid ≠ 0 ∧ it ≠ 0 then
          { s.setTask it { t with state := .zombie, exitCode := -1 } with zombieList := it :: s.zombieList }
        else s
      if t.next = start then .ok s else killLoop start turns t.next s)

/-- The init task becomes the current task and runs; the caller goes on as the init task. -/
def becomeInit (s : Sched) : Res Sched :=
  (s.task 0).bind (fun i => .ok { s.setTask 0 { i with state := .running, halted := false } with current := some 0 })

def resetRing (s : Sched) : Res Sched :=
  (s.task 0).bind (fun i => .ok ({ s.setTask 0 { i with next := 0 } with taskRing := 0 }.note .reset))

def killAllTasks (s : Sched) : Res Sched :=
  (s.task s.taskRing).bind (fun tail =>
    (killLoop tail.next s.turns tail.next s).bind (fun s => s.reapZombies.bind (fun s => s.becomeInit.bind (fun s =>
      (s.task s.taskRing).bind (fun r => if r.pid ≠ 0 then s.resetRing else .ok (s.note .reset))))))

def collectLoop (s : Sched) (start : Nat) : Nat → Nat → List Nat → Res (List Nat)
  | 0, _, _ => .hang
  | turns + 1, it, acc =>
    (s.task it).bind (fun t =>
      let acc := if t.pid ≠ 0 ∧ it ≠ 0 ∧ acc.length < 256 then acc ++ [it] else acc
      if t.next = start ∨ 256 ≤ acc.length then .ok acc else collectLoop s start turns t.next acc)

def unlinkAll : List Nat → Sched → Res Sched
  | [], s => .ok s
  | t :: ts, s => (s.unlinkFromRing t).bind (unlinkAll ts)

def freeAll : List Nat → Sched → Res Sched
  | [], s => .ok s
  | t :: ts, s => (s.freeTaskResources t).bind (freeAll ts)

def emergencyTerminateAll (s : Sched) : Res Sched :=
  (s.task s.taskRing).bind (fun tail =>
    (s.collectLoop tail.next s.turns tail.next []).bind (fun ts =>
      (unlinkAll ts s).bind
          (fun s => (freeAll ts s).bind (fun s => s.resetRing.bind (fun s => s.becomeInit.bind (fun s =>
        .ok { s with zombieList := [] }))))))

/-! ## Runs -/

/-- What may happen next: a call by the current task, or one of the two parts of a timer interrupt. -/
inductive Op where
  | taskCreate (p regs kstackTop : Nat)
  | utaskCreate (p regs kstackTop pml4 : Nat)
  | taskStop (pid : Int)
  | taskExit (exitCode : Int)
  | reapZombies
  | killAllTasks
  | emergencyTerminateAll
  | scheduleFromIsr (regs : Nat)
  | timerApicHandler

def step (s : Sched) : Op → Res Sched
  | .taskCreate p regs kstackTop => s.taskCreate p regs kstackTop
  | .utaskCreate p regs kstackTop pml4 => s.utaskCreate p regs kstackTop pml4
  | .taskStop pid => (s.taskStop pid).bind (fun r => .ok r.1)
  | .taskExit exitCode => s.taskExit exitCode
  | .reapZombies => s.reapZombies
  | .killAllTasks => s.killAllTasks
  | .emergencyTerminateAll => s.emergencyTerminateAll
  | .scheduleFromIsr regs => (s.scheduleFromIsr regs).bind (fun r => .ok r.1)
  | .timerApicHandler => .ok s.timerApicHandler

/-- The current task has come to an endless loop, so it calls nothing. -/
def CurrentHalted (s : Sched) : Prop := ∃ c t, s.current = some c ∧ s.tasks c = some t ∧ t.halted = true

/-- Interrupts come at any time, calls from a current task that has not halted; the memory for a new task is not in
use. -/
def Allowed (s : Sched) : Op → Prop
  | .scheduleFromIsr _ => True
  | .timerApicHandler => True
  | .taskCreate p _ _ => ¬ s.CurrentHalted ∧ s.tasks p = none
  | .utaskCreate p _ _ _ => ¬ s.CurrentHalted ∧ s.tasks p = none
  | _ => ¬ s.CurrentHalted

def Step (s s' : Sched) : Prop := ∃ op, s.Allowed op ∧ s.step op = .ok s'

/-- The states that a run from `scheduler_init` comes to. -/
def Reach (s : Sched) : Prop := ∃ initStackTop, Relation.ReflTransGen Step (schedulerInit initStackTop) s

/-! ## The ring -/

def nextOf (s : Sched) (p : Nat) : Option Nat := (s.tasks p).map Task.next

def Follows (s : Sched) : Nat → Nat → Prop := Relation.TransGen (fun a b => s.nextOf a = some b)

/-- The walk from `task_ring->next` on comes to `p`. -/
def InRing (s : Sched) (p : Nat) : Prop := s.Follows s.taskRing p

end Sched

end OS64
