import OS64.Clusters
import OS64.FatChain
/-!
# FatRead — what `fat32_read` gives

A byte of a file is the byte of the cluster of its chain it falls into (`fileByte`).  A read that returns 0 has the
bytes of the file from its offset on, as many as were asked for, the file has, and its chain holds; it fails when it
meets a cluster that is not on the device.
-/
namespace OS64

open List Nat

namespace Fat32

def fileByte (v : Fat32) (l : List Nat) (p : Nat) : BitVec 8 :=
  v.content (l.getD (p / v.bytesPerCluster) 0) (p % v.bytesPerCluster)

/-- The cluster reads as `f` says when it is on the device, and not at all otherwise. -/
def Reads (v : Fat32) (on : Nat → Prop) (f : Nat → Mem) (c : Nat) : Prop :=
  on c ∧ v.readCluster c = some (f c) ∨ ¬ on c ∧ v.readCluster c = none

structure ReadPart (B : Nat) (on : Nat → Prop) (f : Nat → Mem) (ls : List Nat) (toRead : Nat) (s s' : ReadState) :
    Prop where
  copied : Clusters.Copied B toRead ls.length (fun j => f (ls.getD j 0)) s.clusterOffset s.done s'.done s.buffer
    s'.buffer
  onDevice : ∀ j, j < ls.length → s.done + (j * B - s.clusterOffset) < toRead → on (ls.getD j 0)

section
variable {v : Fat32} {toRead x : Nat} {ls l : List Nat} {s s' : ReadState} {on : Nat → Prop} {f : Nat → Mem}

theorem reads_content (hs : v.geom.Sound) (hx : v.geom.Index x) : v.Reads v.geom.OnDevice v.content x := by
  by_cases hon : v.geom.OnDevice x
  · exact .inl ⟨hon, readCluster_on hs hx hon⟩
  · exact .inr ⟨hon, readCluster_off hs hx hon⟩

theorem ReadPart.full {B : Nat} (hd : s.done = toRead) : ReadPart B on f ls toRead s s :=
  ⟨Clusters.Copied.full hd, fun j _ hlt => absurd hlt (by omega)⟩

def ReadState.put (v : Fat32) (toRead : Nat) (s : ReadState) (temp : Mem) : ReadState :=
  { buffer := blit s.buffer s.done (min (v.bytesPerCluster - s.clusterOffset) (toRead - s.done))
      (fun o => temp (s.clusterOffset + o))
    done := s.done + min (v.bytesPerCluster - s.clusterOffset) (toRead - s.done)
    clusterOffset := 0 }

theorem ReadPart.cons (hoff : s.clusterOffset < v.bytesPerCluster) (hd : s.done < toRead) (hx : on x)
    (h : ReadPart v.bytesPerCluster on f ls toRead (s.put v toRead (f x)) s') :
    ReadPart v.bytesPerCluster on f (x :: ls) toRead s s' := by
  refine ⟨Clusters.Copied.cons hoff hd rfl rfl (fun _ => rfl) h.copied, ?_⟩
  rintro (_ | j) hj hlt
  · exact hx
  · have hon := h.onDevice j (lt_of_succ_lt_succ hj)
    simp only [ReadState.put] at hon
    rw [succ_mul] at hlt
    exact hon (by omega)

/-- **The read loop**: it runs to its end, or meets a cluster it needs that is not on the device. -/
theorem readLoop_cases (hb : 0 < v.bytesPerCluster) (toRead e : Nat) : ∀ (ls : List Nat) (s : ReadState),
    (∀ x ∈ ls, v.Reads on f x) → s.clusterOffset < v.bytesPerCluster → s.done ≤ toRead →
    (∃ s' c, listLoop (v.readTurn toRead) ls e s = (s', c, none) ∧ ReadPart v.bytesPerCluster on f ls toRead s s') ∨
    ∃ s' c, listLoop (v.readTurn toRead) ls e s = (s', c, some ()) ∧
      ∃ j, j < ls.length ∧ s.done + (j * v.bytesPerCluster - s.clusterOffset) < toRead ∧ ¬ on (ls.getD j 0)
  | [], s, _, _, hd => .inl ⟨s, e, rfl, Clusters.Copied.nil hd, fun j hj => absurd hj (not_lt_zero j)⟩
  | x :: ls, s, hi, hoff, hd => by
    by_cases hfull : toRead ≤ s.done
    · refine .inl ⟨s, x, ?_, ReadPart.full (le_antisymm hd hfull)⟩
      unfold listLoop readTurn
      rw [if_pos hfull]
    rcases hi x mem_cons_self with ⟨hon, hx⟩ | ⟨hon, hx⟩
    · have hstep : listLoop (v.readTurn toRead) (x :: ls) e s =
          listLoop (v.readTurn toRead) ls e (s.put v toRead (f x)) := by
        rw [listLoop]
        unfold readTurn
        rw [if_neg hfull, hx]
        rfl
      rw [hstep]
      rcases readLoop_cases hb toRead e ls (s.put v toRead (f x)) (forall_mem_cons.1 hi).2
        hb (by simp only [ReadState.put]; omega) with ⟨s', c, heq, hp⟩ | ⟨s', c, heq, j, hj, hlt, hoffd⟩
      · exact .inl ⟨s', c, heq, ReadPart.cons hoff (by omega) hon hp⟩
      · refine .inr ⟨s', c, heq, j + 1, succ_lt_succ hj, ?_, hoffd⟩
        simp only [ReadState.put] at hlt
        rw [succ_mul]
        omega
    · refine .inr ⟨s, x, ?_, 0, succ_pos _, by omega, hon⟩
      unfold listLoop readTurn
      rw [if_neg hfull, hx]

theorem skipClusters_trail : ∀ {n : Nat} {l : List Nat} {c e : Nat}, Trail v.nextCluster offChain c l e →
    Trail v.nextCluster offChain (v.skipClusters n c) (l.drop n) e
  | 0, _, _, _, h => h
  | n + 1, [], c, e, h => by
    obtain ⟨rfl, hs⟩ := h
    unfold skipClusters
    rw [if_pos hs]
    exact ⟨rfl, hs⟩
  | n + 1, x :: l, c, e, h => by
    unfold skipClusters
    rw [h.2.1]
    exact skipClusters_trail h.2.2

variable {inode : Inode} {offset size : Nat} {buf : Mem}

theorem toRead_eq (hlt : offset < inode.size) (hsize : size < 2 ^ 32) (hsum : offset + size < 2 ^ 64) :
    (if inode.size < u64 (offset + size) then u32 (inode.size - offset) else size) =
      min size (inode.size - offset) := by
  have hu : u64 (offset + size) = offset + size := u64_of_lt hsum
  split
  · rw [u32_of_lt (by omega)]
    omega
  · omega

theorem read_behind (hch : v.Chain inode.firstCluster l) (hlt : offset < inode.size)
    (hk : l.length ≤ offset / v.bytesPerCluster) (h32 : offset / v.bytesPerCluster < 2 ^ 32) :
    v.read inode offset buf size = .ok (buf, none) := by
  obtain ⟨e, he⟩ := hch.trail
  have hskip := skipClusters_trail (n := offset / v.bytesPerCluster) he
  rw [drop_of_length_le hk] at hskip
  have hend : offChain (v.skipClusters (offset / v.bytesPerCluster) inode.firstCluster) = true := by
    rw [hskip.1]
    exact hskip.2
  unfold read
  simp only [u32_of_lt h32, if_neg (not_le.2 hlt), hend, if_true]

/-- A read of `n` bytes gives those of the file, or fails at a cluster that is not on the device. -/
def ReadEnds (v : Fat32) (inode : Inode) (l : List Nat) (on : Nat → Prop) (file : Mem) (offset : Nat) (buf : Mem)
    (size n : Nat) : Prop :=
  (∃ m, v.read inode offset buf size = .ok (m, some (min n (l.length * v.bytesPerCluster - offset))) ∧
    (∀ i, i < min n (l.length * v.bytesPerCluster - offset) → m i = file (offset + i)) ∧
    (∀ i, min n (l.length * v.bytesPerCluster - offset) ≤ i → m i = buf i) ∧
    ∀ k, 0 < n → k < l.length → offset / v.bytesPerCluster ≤ k → k * v.bytesPerCluster < offset + n → on (l.getD k 0)) ∨
  ∃ m k, v.read inode offset buf size = .ok (m, none) ∧ k < l.length ∧ k * v.bytesPerCluster < offset + n ∧
    ¬ on (l.getD k 0)

/-- **A read inside the chain.** -/
theorem read_from (hb : 0 < v.bytesPerCluster) (hch : v.Chain inode.firstCluster l) (hreads : ∀ x ∈ l, v.Reads on f x)
    (buf : Mem) (hlt : offset < inode.size) (hk : offset / v.bytesPerCluster < l.length)
    (h32 : u32 (offset / v.bytesPerCluster) = offset / v.bytesPerCluster) (hsize : size < 2 ^ 32)
    (hsum : offset + size < 2 ^ 64) {n : Nat} (hn : n = min size (inode.size - offset)) :
    v.ReadEnds inode l on (fun p => f (l.getD (p / v.bytesPerCluster) 0) (p % v.bytesPerCluster)) offset buf size
    n := by
  have hlen := hch.length_le
  obtain ⟨e, he⟩ := hch.trail
  have hskip := skipClusters_trail (n := offset / v.bytesPerCluster) he
  generalize hc : v.skipClusters (offset / v.bytesPerCluster) inode.firstCluster = c at hskip
  have hdrop : (l.drop (offset / v.bytesPerCluster)).length = l.length - offset / v.bytesPerCluster := length_drop ..
  have hgetD : ∀ j, (l.drop (offset / v.bytesPerCluster)).getD j 0 = l.getD (offset / v.bytesPerCluster + j) 0 := by
    intro j
    rw [getD_eq_getElem?_getD, List.getElem?_drop, ← getD_eq_getElem?_getD]
  have hoc : offChain c = false := by
    rcases hl : l.drop (offset / v.bytesPerCluster) with _ | ⟨x, l'⟩
    · rw [hl, length_nil] at hdrop
      omega
    · rw [hl] at hskip
      exact hskip.2.1
  have hread : ∀ s' c' r, trailLoop v.nextCluster offChain (v.readTurn n) (v.turns + n) c
      { buffer := buf, done := 0, clusterOffset := offset % v.bytesPerCluster } = .ok (s', c', r) →
      v.read inode offset buf size = .ok (s'.buffer, if r = none then some s'.done else none) := fun s' c' r hloop => by
    subst hn
    unfold read
    simp only [if_neg (not_le.2 hlt), toRead_eq hlt hsize hsum, h32, hc, hoc]
    rw [hloop]
    cases r with
    | none => rfl
    | some u => rfl
  have hoffset := div_add_mod' offset v.bytesPerCluster
  have hloop := @trailLoop_eq _ _ (v.readTurn n) _ _ _ (v.turns + n) _ _
    { buffer := buf, done := 0, clusterOffset := offset % v.bytesPerCluster } hskip (by unfold turns; omega)
  rcases readLoop_cases hb n e (l.drop (offset / v.bytesPerCluster))
    { buffer := buf, done := 0, clusterOffset := offset % v.bytesPerCluster }
    (fun x hx => hreads x (mem_of_mem_drop hx)) (mod_lt _ hb) (zero_le _) with
    ⟨s', c', heq, hp⟩ | ⟨s', c', heq, j, hj, hjn, hoff⟩
  · obtain ⟨hcopied, hon⟩ := hp
    simp only [hdrop, hgetD] at hcopied hon
    obtain ⟨hdone, hbytes⟩ := hcopied.slice hb hk
    refine .inl ⟨s'.buffer, by rw [hread s' c' none (hloop.trans (congrArg Res.ok heq)), if_pos rfl, hdone], ?_,
      fun i hi => hcopied.rest i (.inr (by omega)), ?_⟩
    · intro i hi
      obtain ⟨-, hle, hbyte⟩ := hbytes i (by omega)
      rwa [Nat.add_sub_cancel' hle] at hbyte
    intro k hpos hkl hle hkn
    have hmul : (k - offset / v.bytesPerCluster) * v.bytesPerCluster =
        k * v.bytesPerCluster - offset / v.bytesPerCluster * v.bytesPerCluster := Nat.sub_mul ..
    have hdev := hon (k - offset / v.bytesPerCluster) (by omega) (by omega)
    rwa [Nat.add_sub_cancel' hle] at hdev
  · simp only [hgetD] at hj hjn hoff
    refine .inr ⟨s'.buffer, offset / v.bytesPerCluster + j, hread s' c' (some ()) (hloop.trans (congrArg Res.ok heq)),
      by omega, ?_, hoff⟩
    rw [add_mul]
    omega

theorem read_cases (hs : v.geom.Sound) (hch : v.Chain inode.firstCluster l) (buf : Mem) (hlt : offset < inode.size)
    (hk : offset / v.bytesPerCluster < l.length) (hsize : size < 2 ^ 32)
    (hsum : offset + size < 2 ^ 64) {n : Nat} (hn : n = min size (inode.size - offset)) :
    v.ReadEnds inode l v.geom.OnDevice (v.fileByte l) offset buf size n := by
  have hlen := hch.length_le
  have hmost : v.fatEntries ≤ 268435447 := hs.sized.entries_le
  exact read_from hs.bytes_pos hch (fun x hx => reads_content hs (hch.index x hx)) buf hlt hk
    (u32_of_lt (by omega)) hsize
    hsum hn

/-! ## The bytes of a chain -/

/-- Byte `p` of the clusters of the chain, one after the other. -/
def chainByte (v : Fat32) (l : List Nat) (p : Nat) : BitVec 8 :=
  (v.readCluster (l.getD (p / v.bytesPerCluster) 0)).getD blank (p % v.bytesPerCluster)

/-- **What `fat32_read` gives when it returns 0**: the bytes of the chain from the offset on, as many as were asked for,
the file has and the chain holds; the rest of the buffer is as it was. -/
theorem read_right (hb : 0 < v.bytesPerCluster) (hch : v.Chain inode.firstCluster l)
    (hreads : ∀ x ∈ l, v.readCluster x ≠ none) (hisize : inode.size < 4294967296) (hsize : size < 4294967296)
    (hoffset : offset < 18446744073709551616) (buf : Mem) :
    ∃ m r, v.read inode offset buf size = .ok (m, r) ∧ ∀ n, r = some n →
      n = min size (min (inode.size - offset) (l.length * v.bytesPerCluster - offset)) ∧
      (∀ i, i < n → m i = v.chainByte l (offset + i)) ∧ ∀ i, n ≤ i → m i = buf i := by
  by_cases hlt : offset < inode.size
  · have h32 : offset / v.bytesPerCluster < 4294967296 := (div_le_self ..).trans_lt (by omega)
    by_cases hk : offset / v.bytesPerCluster < l.length
    · have hr : ∀ x ∈ l, v.Reads (fun _ => True) (fun x => (v.readCluster x).getD blank) x := fun x hx => by
        obtain ⟨temp, htemp⟩ := Option.ne_none_iff_exists'.1 (hreads x hx)
        exact .inl ⟨trivial, by simp only [htemp, Option.getD_some]⟩
      rcases read_from hb hch hr buf hlt hk (u32_of_lt h32) hsize (by omega) rfl with ⟨m, h, hm, hrest, -⟩ |
        ⟨m, k, -, -, -, hno⟩
      · refine ⟨m, _, h, fun n hn => ?_⟩
        cases hn
        exact ⟨min_assoc .., hm, hrest⟩
      · exact absurd trivial hno
    · exact ⟨buf, none, read_behind hch hlt (not_lt.1 hk) h32, fun n hn => (by cases hn)⟩
  · refine ⟨buf, some 0, if_pos (not_lt.1 hlt), fun n hn => ?_⟩
    cases hn
    exact ⟨by omega, fun i hi => absurd hi (not_lt_zero i), fun _ _ => rfl⟩

/-- Of five bytes, those from the third on. -/
theorem smallFile_read : ∃ m, smallVol.read (smallFile 5) 2 blank 9 = .ok (m, some 3) ∧
    (∀ i, i < 3 → m i = smallVol.chainByte [3] (2 + i)) ∧ ∀ i, 3 ≤ i → m i = blank i := by
  obtain ⟨m, r, hread, hright⟩ := @read_right smallVol [3] (smallFile 5) 2 9 (by decide) smallVol_chain (by decide)
    (by decide) (by decide) (by decide) blank
  have hr : r = some 3 := congrArg Prod.snd (Res.ok.inj (hread.symm.trans rfl))
  exact ⟨m, hr ▸ hread, (hright 3 hr).2⟩

end

end Fat32

end OS64
