import OS64.Sched
/-!
# SchedLock — `utask_create` and its lock

`utask_create` has a lock of its own.  The call that gives it up stands behind the last `return`, and no other exit has
one: whatever the allocations return, the lock stays taken and every later call waits for ever (`not_restores`).  When
no page table can be made, the copy of the name is lost as well.
-/
namespace OS64

/-- What `utask_create` asks of the heap. -/
inductive HeapCall where
  | malloc (p : Nat)
  | free (p : Nat)
deriving DecidableEq

/-- The arguments of `utask_create` that it looks at, and what `prepare_initial_stack` returns. -/
structure UtaskArgs where
  entry : Nat
  stackSize : Nat
  userMem : Nat
  userMemSize : Nat
  regs : Nat

/-- What the two calls of `malloc`, `strdup` and `paging_create_user_task` return, `none` for `NULL`. -/
structure Supply where
  task : Option Nat
  kstack : Option Nat
  name : Option Nat
  pageTable : Option Nat

namespace Sched

def kstackSize : Nat := 8 * 1024

def stackSizeOf (stackSize : Nat) : Nat := if stackSize = 0 then kstackSize else stackSize

/-- `utask_create` with every outcome of the calls inside: what it asks of the heap, and the pid that is returned. -/
def utaskCreateWith (s : Sched) (args : UtaskArgs) (got : Supply) : Res (Sched × List HeapCall × Nat) :=
  if s.utaskLock = true then .hang
  else if args.entry = 0 then .panic "UTASK_CREATE_NULL_ENTRY"
  else if args.userMem = 0 ∨ args.userMemSize = 0 then .panic "UTASK_CREATE_INVALID_MEMORY"
  else
    match got.task, got.kstack with
    | none, _ => .ok ({ s with utaskLock := true }, [], 0)
    | some t, none => .ok ({ s with utaskLock := true }, [.malloc t, .free t], 0)
    | some t, some kstack =>
      let calls := [.malloc t, .malloc kstack] ++ got.name.toList.map .malloc
      match got.pageTable with
      | none => .ok ({ s with utaskLock := true, nextPid := s.nextPid + 1 }, calls ++ [.free kstack, .free t], 0)
      | some pml4 =>
        (s.utaskCreate t args.regs (kstack + stackSizeOf args.stackSize) pml4).bind
          (fun s' => .ok (s', calls, s.nextPid))

/-- The call returns with the lock given up, a failed one has given back each block once, and no later call waits for
ever. -/
def Restores (s : Sched) (args : UtaskArgs) (got : Supply) : Prop :=
  ∃ s' calls pid, s.utaskCreateWith args got = .ok (s', calls, pid) ∧ s'.utaskLock = false ∧
    (pid = 0 → ∀ p, calls.count (.free p) = calls.count (.malloc p)) ∧
    ∀ args' got', s'.utaskCreateWith args' got' ≠ .hang

section
variable {s s' : Sched} {args : UtaskArgs} {got : Supply} {calls : List HeapCall} {pid : Nat}

theorem utaskCreate_lock {p regs kstackTop pml4 : Nat} (h : s.utaskCreate p regs kstackTop pml4 = .ok s') :
    s'.utaskLock = true := by
  unfold utaskCreate at h
  split at h
  · cases h
  · obtain ⟨tail, -, h⟩ := Res.bind_ok h
    cases h
    rfl

theorem utaskCreateWith_lock (h : s.utaskCreateWith args got = .ok (s', calls, pid)) : s'.utaskLock = true := by
  unfold utaskCreateWith at h
  split at h
  · cases h
  split at h
  · cases h
  split at h
  · cases h
  split at h
  · cases h
    rfl
  · cases h
    rfl
  · split at h
    · cases h
      rfl
    · obtain ⟨t, ht, h⟩ := Res.bind_ok h
      cases h
      exact utaskCreate_lock ht

/-- **The lock is never given up**, so no call leaves the scheduler as it should. -/
theorem not_restores (s : Sched) (args : UtaskArgs) (got : Supply) : ¬ Restores s args got := by
  rintro ⟨s', calls, pid, h, hlock, -⟩
  rw [utaskCreateWith_lock h] at hlock
  cases hlock

/-- Without a page table the name stays allocated, and the next call waits for ever. -/
theorem name_lost : ∃ s', (schedulerInit 0).utaskCreateWith ⟨1, 0, 1, 1, 1⟩ ⟨some 1, some 2, some 3, none⟩ =
      .ok (s', [.malloc 1, .malloc 2, .malloc 3, .free 2, .free 1], 0) ∧
    s'.utaskCreateWith ⟨1, 0, 1, 1, 1⟩ ⟨some 1, some 2, some 3, some 4⟩ = .hang :=
  ⟨_, rfl, rfl⟩

end

end Sched

end OS64
