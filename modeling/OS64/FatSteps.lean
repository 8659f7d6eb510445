import OS64.FatMount
import Mathlib.Logic.Relation
/-!
# FatSteps — every operation as a sequence of small steps

A mounted volume changes in five ways: a cluster is taken, released or linked, its data is written, or the volume is
synced.  Each operation of the driver is a sequence of such steps, whatever the state of the volume (`Op.steps`), so
what every step keeps holds in every state a mounted volume gets into.
-/
namespace OS64

open Res

namespace Fat32

inductive Step : Fat32 → Fat32 → Prop
  | take (v : Fat32) (c : Nat) : Step v (v.take c)
  | release (v : Fat32) (c : Nat) : Step v (v.release c)
  | link (v : Fat32) (c x : Nat) (hx : x < 4294967296) : Step v (v.setNext c x)
  | data (v : Fat32) (c : Nat) (buf : Mem) : Step v (v.writeCluster c buf)
  | sync (v : Fat32) : Step v v.sync

def Steps (v w : Fat32) : Prop := Relation.ReflTransGen Step v w

section
variable {v w u : Fat32} {c : Nat} {inode inode' dir dir' : Inode} {t : Rtc} {name : Name} {mode : Nat}

theorem steps_refl (v : Fat32) : Steps v v := Relation.ReflTransGen.refl

theorem Steps.step (h : Steps v w) (hs : Step w u) : Steps v u := Relation.ReflTransGen.tail h hs

theorem Steps.trans (h : Steps v w) (h' : Steps w u) : Steps v u := Relation.ReflTransGen.trans h h'

theorem Steps.write (h : Steps v w) (c : Nat) (buf : Mem) : Steps v (w.writeCluster c buf) := h.step (.data w c buf)

theorem searchAt_lt (v : Fat32) (i : Nat) : v.searchAt i < 2 ^ 32 := by
  unfold searchAt
  simp only
  split
  · exact u32_lt _
  · exact u32_lt _

theorem allocCluster_steps (v : Fat32) : Steps v v.allocCluster.1 ∧ v.allocCluster.2 < 2 ^ 32 := by
  have hloop := forLoop_rule (f := fun i (w : Fat32) => if v.fatCache (v.searchAt i) = free
      then (v.take (v.searchAt i), Flow.ret (v.searchAt i)) else (w, Flow.next)) (fun _ w => w = v)
    (E := fun w => w = v) (Q := fun w z => Steps v w ∧ z < 2 ^ 32) (sub32 v.fatEntries 2) 0 v rfl (fun _ h => h)
    (fun j w _ _ hw => by
      by_cases hf : v.fatCache (v.searchAt j) = free
      · rw [if_pos hf]
        exact ⟨(steps_refl v).step (.take v _), searchAt_lt v j⟩
      · rw [if_neg hf]
        exact hw)
  unfold allocCluster
  revert hloop
  rcases forLoop _ (sub32 v.fatEntries 2) 0 v with ⟨w, _ | z⟩
  · intro hloop
    obtain rfl := hloop.1 rfl
    exact ⟨steps_refl _, Nat.zero_lt_succ _⟩
  · exact fun hloop => hloop.2 z rfl

theorem freeClusterChainFrom_steps : ∀ (turns : Nat) (v : Fat32) (c : Nat) {w : Fat32},
    freeClusterChainFrom turns v c = .ok w → Steps v w
  | 0, v, c, w, h => by
    unfold freeClusterChainFrom at h
    split at h
    · cases h
    · cases h
      exact steps_refl v
  | turns + 1, v, c, w, h => by
    unfold freeClusterChainFrom at h
    split at h
    · exact Relation.ReflTransGen.head (.release v c) (freeClusterChainFrom_steps turns _ _ h)
    · cases h
      exact steps_refl v

theorem allocTurn_steps (s : AllocState) (hp : s.prev < 2 ^ 32) :
    Steps s.vol (allocTurn s).1.vol ∧ (allocTurn s).1.prev < 2 ^ 32 := by
  obtain ⟨hsteps, hlt⟩ := allocCluster_steps s.vol
  unfold allocTurn
  revert hsteps hlt
  rcases s.vol.allocCluster with ⟨w, _ | z⟩
  · exact fun hsteps _ => ⟨hsteps, hp⟩
  intro hsteps hlt
  refine ⟨?_, hlt⟩
  dsimp only
  split
  · exact hsteps
  · exact hsteps.step (.link w _ _ hlt)

theorem allocClusters_steps {count first n : Nat} (h : v.allocClusters count = .ok (w, first, n)) : Steps v w := by
  unfold allocClusters at h
  revert h
  generalize hr : forLoop _ count 0 _ = r
  have hloop : Steps v r.1.vol ∧ r.1.prev < 2 ^ 32 := by
    rw [← hr]
    refine forLoop_keeps (P := fun s : AllocState => Steps v s.vol ∧ s.prev < 2 ^ 32) (fun j s hs => ?_) count 0 _
      ⟨steps_refl v, Nat.zero_lt_succ _⟩
    obtain ⟨hsteps, hp⟩ := allocTurn_steps s hs.2
    revert hsteps hp
    rcases allocTurn s with ⟨s', _ | _⟩
    · exact fun hsteps hp => ⟨hs.1.trans hsteps, hp⟩
    · exact fun hsteps hp => ⟨hs.1.trans hsteps, hp⟩
  rcases r with ⟨s, _ | _⟩
  · intro h
    cases h
    exact hloop.1
  intro h
  dsimp only at h
  split at h
  · cases h
    exact hloop.1
  · obtain ⟨u, hu, hw⟩ := bind_ok h
    cases hw
    exact hloop.1.trans (freeClusterChainFrom_steps _ _ _ hu)

/-! ## `fat32_write` -/

theorem writeSkip_steps :
    ∀ (n : Nat) (v : Fat32) (inode : Inode) (c : Nat) {w : Fat32} {inode' : Inode} {r : Option Nat},
    writeSkip n v inode c = .ok (w, inode', r) → Steps v w
  | 0, v, inode, c, w, inode', r, h => by
    cases h
    exact steps_refl v
  | n + 1, v, inode, c, w, inode', r, h => by
    unfold writeSkip at h
    split at h
    · split at h
      · obtain ⟨⟨u, first, k⟩, hu, hrest⟩ := bind_ok h
        cases k with
        | zero =>
          cases hrest
          exact allocClusters_steps hu
        | succ k => exact (allocClusters_steps hu).trans (writeSkip_steps n _ _ _ hrest)
      · cases h
        exact steps_refl v
    · exact writeSkip_steps n _ _ _ h

theorem collectTurn_steps (s : Collect) : Steps s.vol (collectTurn s).1.vol := by
  obtain ⟨hsteps, hlt⟩ := allocCluster_steps s.vol
  unfold collectTurn
  split
  · revert hsteps hlt
    rcases s.vol.allocCluster with ⟨w, _ | z⟩
    · exact fun hsteps _ => hsteps
    intro hsteps hlt
    show Steps s.vol (s.link w (z + 1)).vol
    unfold Collect.link
    split
    · exact hsteps
    · exact hsteps.step (.link w _ _ hlt)
  · exact steps_refl s.vol

theorem putData_steps (v : Fat32) (c o n : Nat) (data : Mem) : Steps v (v.putData c o n data) := by
  unfold putData
  split
  · exact (steps_refl v).write _ _
  · exact (steps_refl v).write _ _

theorem writeData_steps (buf : Mem) (size : Nat) : ∀ (ls : List Nat) (v : Fat32) (off done : Nat),
    Steps v (writeData buf size ls v off done).1
  | [], v, _, _ => steps_refl v
  | c :: ls, v, off, done => by exact (putData_steps v _ _ _ _).trans (writeData_steps buf size ls _ _ _)

theorem writeFrom_steps (t : Rtc) (v : Fat32) (inode : Inode) (offset : Nat) (buf : Mem) (size needed c : Nat) :
    Steps v (writeFrom t v inode offset buf size needed c).1 := by
  have hloop := forLoop_keeps (P := fun s => Steps v s.vol)
    (fun j s hs => hs.trans (collectTurn_steps s)) needed 0 ⟨v, inode, [], c⟩ (steps_refl v)
  unfold writeFrom
  revert hloop
  rcases forLoop _ needed 0 _ with ⟨s, _ | _⟩
  · intro hloop
    have hdata := hloop.trans (writeData_steps buf size s.clusters s.vol (offset % v.bytesPerCluster) 0)
    dsimp only
    split
    · exact hdata.write _ _
    · exact hdata
  · exact id

theorem write_steps {offset size : Nat} {buf : Mem} {r : Option Nat}
    (h : v.write t inode offset buf size = .ok (w, inode', r)) : Steps v w := by
  unfold write at h
  split at h
  · cases h
    exact steps_refl v
  obtain ⟨⟨u, i, r'⟩, hskip, hrest⟩ := bind_ok h
  cases r' with
  | none =>
    cases hrest
    exact writeSkip_steps _ _ _ _ hskip
  | some c =>
    have hfrom := writeFrom_steps t u i offset buf size
      (u32 (sub32 (u32 (sub64 (offset + size) 1 / v.bytesPerCluster)) (u32 (offset / v.bytesPerCluster)) + 1)) c
    have heq := Res.ok.inj hrest
    rw [heq] at hfrom
    exact (writeSkip_steps _ _ _ _ hskip).trans hfrom

/-! ## The directory operations -/

theorem linkLast_steps {new : Nat} (hnew : new < 2 ^ 32) (h : v.linkLast dir new = .ok (w, dir')) : Steps v w := by
  unfold linkLast at h
  split at h
  · cases h
    exact steps_refl v
  · obtain ⟨last, -, hrest⟩ := bind_ok h
    cases hrest
    exact (steps_refl v).step (.link v _ _ hnew)

theorem createAt_steps (t : Rtc) (v : Fat32) (dir : Inode) (name : Name) (mode : Nat) (buf : Mem) (c s index : Nat) :
    Steps v (createAt t v dir name mode buf c s index).1 := by
  obtain ⟨hsteps, -⟩ := allocCluster_steps v
  unfold createAt
  split
  · exact steps_refl v
  split
  · revert hsteps
    rcases v.allocCluster with ⟨w, _ | z⟩
    · exact id
    · exact fun hsteps => (hsteps.write _ _).write _ _
  · exact (steps_refl v).write _ _

theorem create_steps {r : Option Inode} (h : create t v dir name mode = .ok (w, dir', r)) : Steps v w := by
  obtain ⟨existing, -, h⟩ := bind_ok h
  cases existing with
  | some i =>
    cases h
    exact steps_refl v
  | none =>
    obtain ⟨⟨⟨buf, index, slot⟩, cluster, out⟩, -, h⟩ := bind_ok h
    cases out with
    | some _ =>
      cases h
      exact steps_refl v
    | none =>
      cases slot with
      | some i =>
        cases h
        exact createAt_steps ..
      | none =>
        obtain ⟨hsteps, hlt⟩ := allocCluster_steps v
        revert hsteps hlt h
        rcases v.allocCluster with ⟨u, _ | z⟩
        · intro h hsteps _
          cases h
          exact hsteps
        · intro h hsteps hlt
          obtain ⟨⟨u', d⟩, hlink, h⟩ := bind_ok h
          cases h
          exact ((hsteps.trans (linkLast_steps hlt hlink)).write _ _).trans (createAt_steps ..)

theorem unlink_steps {ok : Bool} (h : v.unlink dir name = .ok (w, ok)) : Steps v w := by
  obtain ⟨r, -, h⟩ := bind_ok h
  cases r with
  | none =>
    cases h
    exact steps_refl v
  | some i =>
    obtain ⟨u, hu, h⟩ := bind_ok h
    cases h
    split at hu
    · cases hu
      exact (steps_refl v).write _ _
    · exact (freeClusterChainFrom_steps _ _ _ hu).write _ _

theorem rename_steps {oldDir newDir : Inode} {oldName newName : Name} {ok : Bool}
    (h : v.rename oldDir oldName newDir newName = .ok (w, dir', ok)) : Steps v w := by
  obtain ⟨r, -, h⟩ := bind_ok h
  cases r with
  | none =>
    cases h
    exact steps_refl v
  | some file =>
    obtain ⟨⟨⟨buf, index, slot⟩, cluster, out⟩, -, h⟩ := bind_ok h
    have hmark := (steps_refl v).write file.dirCluster (markDeleted ((v.readCluster file.dirCluster).getD blank)
      (file.entryOffset / 32 - lfnBefore ((v.readCluster file.dirCluster).getD blank) (file.entryOffset / 32))
      (lfnBefore ((v.readCluster file.dirCluster).getD blank) (file.entryOffset / 32) + 1))
    revert hmark h
    generalize v.writeCluster file.dirCluster _ = u
    intro h hmark
    cases slot with
    | some i =>
      dsimp only at h
      split at h
      · cases h
      · cases h
        exact hmark.write _ _
    | none =>
      obtain ⟨hsteps, hlt⟩ := allocCluster_steps u
      revert hsteps hlt h
      rcases u.allocCluster with ⟨u', _ | z⟩
      · intro h hsteps _
        cases h
        exact (hmark.trans hsteps).write _ _
      · intro h hsteps hlt
        obtain ⟨⟨u'', d⟩, hlink, h⟩ := bind_ok h
        cases h
        exact ((hmark.trans hsteps).trans (linkLast_steps hlt hlink)).write _ _

/-- **The operations of a mounted volume**, whatever they return. -/
inductive Op : Fat32 → Fat32 → Prop
  | create (t : Rtc) (v : Fat32) (dir : Inode) (name : Name) (mode : Nat) {w : Fat32} {dir' : Inode}
      {r : Option Inode} :
      Fat32.create t v dir name mode = .ok (w, dir', r) → Op v w
  | write (t : Rtc) (v : Fat32) (inode : Inode) (offset : Nat) (buf : Mem) (size : Nat) {w : Fat32} {inode' : Inode}
      {r : Option Nat} : v.write t inode offset buf size = .ok (w, inode', r) → Op v w
  | unlink (v : Fat32) (dir : Inode) (name : Name) {w : Fat32} {ok : Bool} : v.unlink dir name = .ok (w, ok) → Op v w
  | rename (v : Fat32) (oldDir : Inode) (oldName : Name) (newDir : Inode) (newName : Name) {w : Fat32} {dir' : Inode}
      {ok : Bool} : v.rename oldDir oldName newDir newName = .ok (w, dir', ok) → Op v w
  | sync (v : Fat32) : Op v v.sync

theorem Op.steps (h : Op v w) : Steps v w := by
  cases h with
  | create _ _ _ _ _ h => exact create_steps h
  | write _ _ _ _ _ _ h => exact write_steps h
  | unlink _ _ _ h => exact unlink_steps h
  | rename _ _ _ _ _ h => exact rename_steps h
  | sync => exact (steps_refl v).step (.sync v)

theorem run_keeps {P : Fat32 → Prop} (hstep : ∀ v w, Step v w → P v → P w) (h : Relation.ReflTransGen Op v w)
    (hv : P v) : P w := by
  have hsteps : ∀ {v w}, Steps v w → P v → P w := by
    intro v w h hv
    induction h with
    | refl => exact hv
    | tail _ hs ih => exact hstep _ _ hs ih
  induction h with
  | refl => exact hv
  | tail _ hop ih => exact hsteps hop.steps ih

end

end Fat32

end OS64
