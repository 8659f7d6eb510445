import OS64.SchedRing
/-!
# SchedCalls — the loops of the scheduler

The loops of `kernel/sched.c` come to an end on a ring: over the zombies (`reapList_spec`), over the tasks that are
taken out and freed together (`unlinkAll_spec`, `freeAll_spec`), and round the ring (`findTask_spec`, `killLoop_spec`,
`collectLoop_spec`).
-/
namespace OS64

namespace Sched

open Sched.Core List Nat

variable {s s' s'' : Sched} {l l' : List Nat} {p t : Nat}

/-! ## Several tasks at once -/

theorem mem_foldl_removeTask {x : Nat} : ∀ (ts l : List Nat), x ∈ ts.foldl removeTask l → x = 0 ∨ x ∈ l
  | [], _, h => .inr h
  | z :: zs, l, h => (mem_foldl_removeTask zs (removeTask l z) h).elim .inl mem_removeTask

theorem nodup_removeTask (hl : l.Nodup) : (removeTask l t).Nodup := by
  unfold removeTask
  split
  · exact nodup_singleton 0
  · exact hl.erase t

theorem notMem_foldl_removeTask (ht : t ≠ 0) : ∀ (ts l : List Nat), l.Nodup → t ∈ ts → t ∉ ts.foldl removeTask l
  | z :: zs, l, hl, hts => by
    rcases mem_cons.1 hts with rfl | hts
    · intro h
      exact (mem_foldl_removeTask zs (removeTask l t) h).elim ht (notMem_removeTask hl ht)
    · exact notMem_foldl_removeTask ht zs (removeTask l z) (nodup_removeTask hl) hts

theorem freed_cons (z : Nat) (zs : List Nat) (b : Nat → Option Task) : freed (z :: zs) b = freed zs (freed [z] b) := by
  funext p
  unfold freed
  by_cases hp : p ∈ zs ∧ p ≠ 0
  · rw [if_pos hp, if_pos ⟨mem_cons_of_mem z hp.1, hp.2⟩]
  · rw [if_neg hp]
    refine if_congr ?_ rfl rfl
    rw [mem_cons, mem_singleton]
    exact ⟨fun h => ⟨h.1.resolve_right (fun h' => hp ⟨h', h.2⟩), h.2⟩, fun h => ⟨.inl h.1, h.2⟩⟩

theorem freed_of_notMem {ts : List Nat} {b : Nat → Option Task} (h : p ∉ ts) : freed ts b p = b p :=
  if_neg (fun hp => h hp.1)

theorem freed_zero (ts : List Nat) (b : Nat → Option Task) : freed ts b 0 = b 0 := if_neg (fun h => h.2 rfl)

theorem freed_eq_some {ts : List Nat} {b : Nat → Option Task} {x : Task} (h : freed ts b p = some x) :
    b p = some x := by
  unfold freed at h
  split at h
  · cases h
  · exact h

theorem releasedBy_cons {z : Nat} {zs : List Nat} (h : ReleasedBy [z] s s') (h' : ReleasedBy zs s' s'')
    (hbody : s'.body = freed [z] s.body) : ReleasedBy (z :: zs) s s'' := fun m hm => by
  rcases h' m hm with hm | ⟨p, hp, hp0, x, hx, hxm⟩
  · rcases h m hm with hm | ⟨p, hp, hp0, hx⟩
    · exact .inl hm
    · exact .inr ⟨p, by rw [mem_singleton.1 hp]; exact .head _, hp0, hx⟩
  · rw [hbody] at hx
    exact .inr ⟨p, mem_cons_of_mem z hp, hp0, x, freed_eq_some hx, hxm⟩

theorem alive_of_cons {z : Nat} {zs : List Nat} (hnd : (z :: zs).Nodup) {b : Nat → Option Task}
    (halive : ∀ y ∈ z :: zs, ∃ x, b y = some x) : ∀ y ∈ zs, ∃ x, freed [z] b y = some x := fun y hy => by
  rw [freed_of_notMem]
  · exact halive y (mem_cons_of_mem z hy)
  · rw [mem_singleton]
    rintro rfl
    exact (nodup_cons.1 hnd).1 hy

/-- **The loop of `reap_zombies`** takes the zombies out of the ring and frees them. -/
theorem reapList_spec : ∀ (zs : List Nat) {s : Sched} {l : List Nat}, Core s l → zs.Nodup →
    (∀ z ∈ zs, ∃ x, s.body z = some x) →
    ∃ s', reapList zs s = .ok s' ∧ Core s' (zs.foldl removeTask l) ∧ s'.body = freed zs s.body ∧ SameRest s s' ∧
      s'.zombieList = s.zombieList ∧ ReleasedBy zs s s'
  | [], s, _, hc, _, _ =>
    ⟨s, rfl, hc, by funext p; exact (freed_of_notMem not_mem_nil).symm, ⟨rfl, rfl, rfl, rfl, rfl, rfl⟩, rfl,
      fun m hm => .inl hm⟩
  | z :: zs, s, l, hc, hnd, halive => by
    obtain ⟨s₁, h₁, hc₁, hb₁, hr₁, hz₁, hrel₁⟩ := hc.unlink_spec z
    obtain ⟨x, hx⟩ := halive z (.head _)
    have hout : z = 0 ∨ z ∉ removeTask l z := by
      by_cases hz : z = 0
      · exact .inl hz
      · exact .inr (notMem_removeTask hc.ring.nodup hz)
    obtain ⟨s₂, h₂, hc₂, hb₂, hr₂, hz₂, hrel₂⟩ := hc₁.free_spec hout (by rwa [hb₁])
    rw [hb₁] at hb₂
    have hrel : ReleasedBy [z] s s₂ := fun m hm => by
      rcases hrel₂ m hm with hm | hm
      · exact .inl (hrel₁ ▸ hm)
      · exact .inr (hb₁ ▸ hm)
    obtain ⟨s', h', hc', hb', hr', hz', hrel'⟩ := reapList_spec zs hc₂ (nodup_cons.1 hnd).2
      (by rw [hb₂]; exact alive_of_cons hnd halive)
    refine ⟨s', ?_, hc', ?_, (hr₁.trans hr₂).trans hr', hz'.trans (hz₂.trans hz₁), releasedBy_cons hrel hrel' hb₂⟩
    · rw [reapList, h₁]
      change (s₁.freeTaskResources z).bind (reapList zs) = _
      rwa [h₂]
    · rw [hb', hb₂]
      exact (freed_cons z zs s.body).symm

theorem unlinkAll_spec : ∀ (ts : List Nat) {s : Sched} {l : List Nat}, Core s l →
    ∃ s', unlinkAll ts s = .ok s' ∧ Core s' (ts.foldl removeTask l) ∧ s'.body = s.body ∧ SameRest s s' ∧
      s'.zombieList = s.zombieList ∧ s'.released = s.released
  | [], s, _, hc => ⟨s, rfl, hc, rfl, ⟨rfl, rfl, rfl, rfl, rfl, rfl⟩, rfl, rfl⟩
  | t :: ts, s, l, hc => by
    obtain ⟨s₁, h₁, hc₁, hb₁, hr₁, hz₁, hrel₁⟩ := hc.unlink_spec t
    obtain ⟨s', h', hc', hb', hr', hz', hrel'⟩ := unlinkAll_spec ts hc₁
    refine ⟨s', ?_, hc', hb'.trans hb₁, hr₁.trans hr', hz'.trans hz₁, hrel'.trans hrel₁⟩
    rwa [unlinkAll, h₁]

theorem freeAll_spec : ∀ (ts : List Nat) {s : Sched}, Core s l → ts.Nodup → (∀ t ∈ ts, t = 0 ∨ t ∉ l) →
    (∀ t ∈ ts, ∃ x, s.body t = some x) →
    ∃ s', freeAll ts s = .ok s' ∧ Core s' l ∧ s'.body = freed ts s.body ∧ SameRest s s' ∧
      s'.zombieList = s.zombieList ∧ ReleasedBy ts s s'
  | [], s, hc, _, _, _ =>
    ⟨s, rfl, hc, by funext p; exact (freed_of_notMem not_mem_nil).symm, ⟨rfl, rfl, rfl, rfl, rfl, rfl⟩, rfl,
      fun m hm => .inl hm⟩
  | t :: ts, s, hc, hnd, hout, halive => by
    obtain ⟨x, hx⟩ := halive t (.head _)
    obtain ⟨s₁, h₁, hc₁, hb₁, hr₁, hz₁, hrel₁⟩ := hc.free_spec (hout t (.head _)) hx
    obtain ⟨s', h', hc', hb', hr', hz', hrel'⟩ := freeAll_spec ts hc₁ (nodup_cons.1 hnd).2
      (fun y hy => hout y (mem_cons_of_mem t hy)) (by rw [hb₁]; exact alive_of_cons hnd halive)
    refine ⟨s', ?_, hc', ?_, hr₁.trans hr', hz'.trans hz₁, releasedBy_cons hrel₁ hrel' hb₁⟩
    · rwa [freeAll, h₁]
    · rw [hb', hb₁]
      exact (freed_cons t ts s.body).symm

/-! ## Round the ring -/

theorem findTask_spec (hring : IsRing s.nextOf s.taskRing l) (found : Task → Bool) :
    ∀ (n : Nat) (a : List Nat) (x : Nat) (b : List Nat), l = a ++ x :: b → b.length < n →
      ∃ r, s.findTask (l.headD s.taskRing) found n x = .ok r ∧ ∀ m, r = some m → m ∈ l
  | 0, _, _, _, _, hn => absurd hn (not_lt_zero _)
  | n + 1, a, x, b, hl, hn => by
    have hx : x ∈ l := by rw [hl]; exact mem_append_right _ (.head _)
    have hwalk := (hl ▸ hring).walk
    rw [← hl] at hwalk
    have hnext : ∃ y, s.tasks x = some y := by
      obtain ⟨_, -, h⟩ := hring.next_mem hx
      obtain ⟨y, hy, -⟩ := exists_of_next h
      exact ⟨y, hy⟩
    obtain ⟨y, hy⟩ := hnext
    rw [findTask, task_ok hy]
    change ∃ r, ite _ _ _ = _ ∧ _
    by_cases hf : found y = true
    · rw [if_pos hf]
      exact ⟨some x, rfl, fun m hm => Option.some.inj hm ▸ hx⟩
    rw [if_neg hf]
    rcases hwalk with ⟨rfl, hw⟩ | ⟨z, b', rfl, hw, hz⟩
    · rw [nextOf_of hy, Option.some.injEq] at hw
      rw [if_pos hw]
      exact ⟨none, rfl, nofun⟩
    · rw [nextOf_of hy, Option.some.injEq] at hw
      rw [hw, if_neg hz]
      exact findTask_spec hring found n (a ++ [x]) z b' (by rw [hl, append_assoc]; rfl) (lt_of_succ_lt_succ hn)

theorem Core.setTask (hc : Core s l) {x y : Task} (hx : s.tasks p = some x) (hnext : y.next = x.next)
    (hpid : y.pid = x.pid) : Core (s.setTask p y) l := by
  refine hc.congr rfl ?_ ?_ rfl rfl rfl
  · rw [nextOf_setTask, hnext, ← nextOf_of hx, Function.update_eq_self]
  funext q
  rw [pidOf_eq, body_setTask, Function.update_apply, pidOf_eq]
  split
  · rename_i h
    rw [h, body_of hx]
    exact congrArg some hpid
  · rfl

theorem Core.pid_eq_zero_iff (hc : Core s l) {x : Task} (hx : s.tasks p = some x) : x.pid = 0 ↔ p = 0 := by
  have hpid : s.pidOf p = some x.pid := by
    unfold pidOf
    rw [hx]
    rfl
  constructor
  · intro h
    by_contra hp
    exact hc.pids p hp (hpid.trans (congrArg some h))
  · rintro rfl
    exact Option.some.inj (hpid.symm.trans hc.init)

def killed (ts : List Nat) (b : Nat → Option Task) (p : Nat) : Option Task :=
  if p ∈ ts ∧ p ≠ 0 then (b p).map (fun x => { x with state := .zombie, exitCode := -1 }) else b p

theorem kill_one (hc : Core s l) {x : Nat} {y : Task} (hy : s.tasks x = some y) :
    ∃ s', (if y.pid ≠ 0 ∧ x ≠ 0 then
        { s.setTask x { y with state := .zombie, exitCode := -1 } with zombieList := x :: s.zombieList }
      else s) = s' ∧ Core s' l ∧ s'.body = killed [x] s.body ∧
      s' = { s with tasks := s'.tasks, zombieList := [x].filter (· ≠ 0) ++ s.zombieList } ∧ s'.nextOf = s.nextOf := by
  by_cases hx : x = 0
  · refine ⟨s, if_neg (fun h => h.2 hx), hc, ?_, by subst hx; rfl, rfl⟩
    funext p
    refine (if_neg ?_).symm
    rintro ⟨hp, hp0⟩
    exact hp0 ((mem_singleton.1 hp).trans hx)
  refine ⟨_, if_pos ⟨mt (hc.pid_eq_zero_iff hy).1 hx, hx⟩, ?_, ?_, ?_, ?_⟩
  · exact (hc.setTask (y := { y with state := .zombie, exitCode := -1 }) hy rfl rfl).congr rfl rfl rfl rfl rfl rfl
  · funext p
    change (s.setTask x _).body p = _
    rw [body_setTask, Function.update_apply]
    unfold killed
    by_cases hp : p = x
    · subst hp
      rw [if_pos rfl, if_pos ⟨mem_singleton_self p, hx⟩, body_of hy]
      rfl
    · rw [if_neg hp, if_neg (fun h => hp (mem_singleton.1 h.1))]
  · have hfilter : [x].filter (· ≠ 0) = [x] := by rw [filter_cons, if_pos (decide_eq_true hx), filter_nil]
    rw [hfilter]
    rfl
  · change (s.setTask x _).nextOf = _
    rw [nextOf_setTask, ← nextOf_of hy, Function.update_eq_self]

theorem killed_cons {x : Nat} {b : List Nat} (hx : x ∉ b) (f : Nat → Option Task) :
    killed (x :: b) f = killed b (killed [x] f) := by
  funext p
  unfold killed
  by_cases hp : p = x
  · subst hp
    rw [if_neg (fun h : p ∈ b ∧ p ≠ 0 => hx h.1)]
    refine if_congr ?_ rfl rfl
    rw [mem_cons, mem_singleton]
    exact and_congr_left (fun _ => or_iff_left hx)
  have h1 : ¬ (p ∈ [x] ∧ p ≠ 0) := fun h => hp (mem_singleton.1 h.1)
  rw [if_neg h1]
  refine if_congr ?_ rfl rfl
  rw [mem_cons]
  exact and_congr_left (fun _ => or_iff_right hp)

theorem killLoop_spec {start : Nat} : ∀ (n : Nat) (a : List Nat) (x : Nat) (b : List Nat) {s : Sched}, Core s l →
    start = l.headD s.taskRing → l = a ++ x :: b → b.length < n →
    ∃ s', killLoop start n x s = .ok s' ∧ Core s' l ∧ s'.body = killed (x :: b) s.body ∧
      s' = { s with tasks := s'.tasks, zombieList := ((x :: b).filter (· ≠ 0)).reverse ++ s.zombieList }
  | 0, _, _, _, _, _, _, _, hn => absurd hn (not_lt_zero _)
  | n + 1, a, x, b, s, hc, hstart, hl, hn => by
    obtain ⟨y, hy⟩ := hc.task_of_mem (by rw [hl]; exact mem_append_right _ (.head _))
    obtain ⟨s₁, h₁, hc₁, hb₁, heq₁, -⟩ := kill_one hc hy
    have hwalk := (hl ▸ hc.ring).walk
    rw [← hl, ← hstart, nextOf_of hy] at hwalk
    have hrev : ([x].filter (· ≠ 0)).reverse = [x].filter (· ≠ 0) := by
      rw [filter_cons]
      split <;> rfl
    rw [killLoop, task_ok hy]
    change ∃ s', ite _ _ _ = _ ∧ _
    rw [h₁]
    rcases hwalk with ⟨rfl, hw⟩ | ⟨z, b', rfl, hw, hz⟩
    · rw [if_pos (Option.some.inj hw)]
      refine ⟨s₁, rfl, hc₁, hb₁, ?_⟩
      rwa [hrev]
    have hxb : x ∉ z :: b' := (nodup_cons.1 (nodup_append.1 (hl ▸ hc.ring.nodup)).2.1).1
    have hstart₁ : start = l.headD s₁.taskRing := by
      rwa [heq₁]
    obtain ⟨s', h', hc', hb', heq'⟩ := killLoop_spec n (a ++ [x]) z b' hc₁ hstart₁
      (by rw [hl, append_assoc]; rfl) (lt_of_succ_lt_succ hn)
    rw [Option.some.inj hw, if_neg hz]
    refine ⟨s', h', hc', ?_, ?_⟩
    · rw [hb', hb₁, killed_cons hxb]
    have hz' : s'.zombieList = ((x :: z :: b').filter (· ≠ 0)).reverse ++ s.zombieList := by
      have hz₁ : s₁.zombieList = [x].filter (· ≠ 0) ++ s.zombieList := by rw [heq₁]
      rw [heq', hz₁, ← append_assoc, ← hrev, ← reverse_append, ← filter_append]
      rfl
    rw [← hz']
    rw [heq', heq₁]

theorem collectLoop_spec (hring : IsRing s.nextOf s.taskRing l) :
    ∀ (n : Nat) (a : List Nat) (x : Nat) (b acc : List Nat), l = a ++ x :: b → b.length < n →
      ∃ ts, s.collectLoop (l.headD s.taskRing) n x acc = .ok (acc ++ ts) ∧ ts.Sublist (x :: b) ∧ ∀ t ∈ ts, t ≠ 0
  | 0, _, _, _, _, _, hn => absurd hn (not_lt_zero _)
  | n + 1, a, x, b, acc, hl, hn => by
    have hwalk := (hl ▸ hring).walk
    rw [← hl] at hwalk
    have hone : ∀ y : Task, ∃ c, (if y.pid ≠ 0 ∧ x ≠ 0 ∧ acc.length < 256 then acc ++ [x] else acc) = acc ++ c ∧
        c.Sublist [x] ∧ ∀ t ∈ c, t ≠ 0 := fun y => by
      split
      · rename_i h
        exact ⟨[x], rfl, List.Sublist.refl _, fun t ht => by rw [mem_singleton.1 ht]; exact h.2.1⟩
      · exact ⟨[], (append_nil acc).symm, nil_sublist _, fun t ht => absurd ht not_mem_nil⟩
    obtain ⟨_, -, hx⟩ := hring.next_mem (by rw [hl]; exact mem_append_right _ (.head _))
    obtain ⟨y, hy, -⟩ := exists_of_next hx
    obtain ⟨c, hc, hsub, hne⟩ := hone y
    rw [collectLoop, task_ok hy]
    change ∃ ts, ite _ _ _ = _ ∧ _
    rw [hc]
    by_cases hend : y.next = l.headD s.taskRing ∨ 256 ≤ (acc ++ c).length
    · rw [if_pos hend]
      exact ⟨c, rfl, hsub.trans (List.Sublist.cons_cons x (nil_sublist b)), hne⟩
    rw [if_neg hend]
    rcases hwalk with ⟨rfl, hw⟩ | ⟨z, b', rfl, hw, hz⟩
    · rw [nextOf_of hy] at hw
      exact absurd (.inl (Option.some.inj hw)) hend
    obtain ⟨ts, hts, hsub', hne'⟩ := collectLoop_spec hring n (a ++ [x]) z b' (acc ++ c)
      (by rw [hl, append_assoc]; rfl) (lt_of_succ_lt_succ hn)
    rw [nextOf_of hy] at hw
    rw [Option.some.inj hw, hts, append_assoc]
    refine ⟨c ++ ts, rfl, hsub.append hsub', fun t ht => ?_⟩
    exact (mem_append.1 ht).elim (hne t) (hne' t)

end Sched

end OS64
