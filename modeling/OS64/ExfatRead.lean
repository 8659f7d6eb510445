import OS64.ExfatVolume
import OS64.FatRead
/-!
# ExfatRead — what `exfat_read` gives

Place `offset + i` of the file is read from the buffer that holds the clusters from the first one of the range to its
own (`read_eq`).
-/
namespace OS64

open Nat

namespace Exfat

open Fat32 (Geom)

/-- Of the clusters up to number `j`, number `i` is the last one on the device. -/
def LastOn (v : Exfat) (ls : List Nat) (j i : Nat) : Prop :=
  i ≤ j ∧ v.geom.OnDevice (ls.getD i 0) ∧ ∀ m, i < m → m ≤ j → ¬ v.geom.OnDevice (ls.getD m 0)

section
variable {v w : Exfat} {inode : ExInode} {l ls : List Nat} {c e i j n o x offset size toRead : Nat} {buf stack : Mem}
  {s s' : ReadState}

theorem LastOn.self (h : v.geom.OnDevice (ls.getD j 0)) : v.LastOn ls j j :=
  ⟨le_refl j, h, fun _ h1 h2 => absurd h1 (not_lt.2 h2)⟩

theorem LastOn.succ (h : v.LastOn ls j i) (hoff : ¬ v.geom.OnDevice (ls.getD (j + 1) 0)) : v.LastOn ls (j + 1) i := by
  obtain ⟨hle, hon, hlast⟩ := h
  refine ⟨le_succ_of_le hle, hon, fun m h1 h2 => ?_⟩
  rcases lt_or_ge j m with hm | hm
  · obtain rfl : m = j + 1 := by omega
    exact hoff
  · exact hlast m h1 hm

theorem LastOn.unique {i' : Nat} (h : v.LastOn ls j i) (h' : v.LastOn ls j i') : i = i' := by
  rcases lt_trichotomy i i' with hlt | heq | hlt
  · exact absurd h'.2.1 (h.2.2 i' hlt h'.1)
  · exact heq
  · exact absurd h.2.1 (h'.2.2 i hlt h.1)

/-- **The buffer holds the last cluster that lies on the device**, or still what it held at first. -/
theorem held_cases (hs : Sound v.geom) (hidx : ∀ y ∈ ls, v.geom.Index y) (stack : Mem) (hx : x < v.bytesPerCluster) :
    ∀ {j : Nat}, j < ls.length → (∃ i, v.LastOn ls j i ∧ v.held stack (ls.take (j + 1)) x = v.content (ls.getD i 0) x) ∨
    ((∀ m, m ≤ j → ¬ v.geom.OnDevice (ls.getD m 0)) ∧ v.held stack (ls.take (j + 1)) x = stack x) := by
  intro j
  induction j with
  | zero =>
    intro hj
    have hi := hidx _ (getD_mem hj)
    rw [take_succ_getD hj]
    by_cases hon : v.geom.OnDevice (ls.getD 0 0)
    · exact .inl ⟨0, LastOn.self hon, readCluster_on hs hi hon hx⟩
    · refine .inr ⟨fun m hm => ?_, congrFun (readCluster_off hs hi hon) x⟩
      obtain rfl : m = 0 := by omega
      exact hon
  | succ j ih =>
    intro hj
    have hi := hidx _ (getD_mem hj)
    rw [take_succ_getD hj, held_append_one]
    by_cases hon : v.geom.OnDevice (ls.getD (j + 1) 0)
    · exact .inl ⟨j + 1, LastOn.self hon, readCluster_on hs hi hon hx⟩
    rw [readCluster_off hs hi hon]
    rcases ih (by omega) with ⟨i, hlast, heq⟩ | ⟨hnone, heq⟩
    · exact .inl ⟨i, hlast.succ hon, heq⟩
    refine .inr ⟨fun m hm => ?_, heq⟩
    rcases lt_or_ge j m with hlt | hle
    · obtain rfl : m = j + 1 := by omega
      exact hon
    · exact hnone m hle

def ReadPart (v : Exfat) (ls : List Nat) (toRead : Nat) (s s' : ReadState) : Prop :=
  Clusters.Copied v.bytesPerCluster toRead ls.length (fun j => v.held s.temp (ls.take (j + 1))) s.clusterOffset s.done
    s'.done s.buffer s'.buffer

def ReadState.put (v : Exfat) (toRead c : Nat) (s : ReadState) : ReadState :=
  { buffer := blit s.buffer s.done (min (v.bytesPerCluster - s.clusterOffset) (toRead - s.done))
      (fun o => v.readCluster c s.temp (s.clusterOffset + o))
    temp := v.readCluster c s.temp
    done := s.done + min (v.bytesPerCluster - s.clusterOffset) (toRead - s.done)
    clusterOffset := 0 }

theorem ReadPart.cons (hoff : s.clusterOffset < v.bytesPerCluster) (hd : s.done < toRead)
    (h : ReadPart v ls toRead (s.put v toRead c) s') : ReadPart v (c :: ls) toRead s s' :=
  Clusters.Copied.cons hoff hd rfl rfl (fun _ => rfl) h

/-- **The read loop** runs to its end. -/
theorem readLoop_part (toRead e : Nat) : ∀ (ls : List Nat) (s : ReadState), s.clusterOffset < v.bytesPerCluster →
    s.done ≤ toRead → ReadPart v ls toRead s (listLoop (v.readTurn toRead) ls e s).1
  | [], _, _, hd => Clusters.Copied.nil hd
  | c :: ls, s, hoff, hd => by
    by_cases hfull : toRead ≤ s.done
    · have hstop : listLoop (v.readTurn toRead) (c :: ls) e s = (s, c, none) := by
        unfold listLoop readTurn
        rw [if_pos hfull]
      rw [hstop]
      exact Clusters.Copied.full (le_antisymm hd hfull)
    have hstep : listLoop (v.readTurn toRead) (c :: ls) e s = listLoop (v.readTurn toRead) ls e (s.put v toRead c) := by
      rw [listLoop]
      unfold readTurn
      rw [if_neg hfull]
      rfl
    rw [hstep]
    exact ReadPart.cons hoff (not_le.1 hfull)
      (readLoop_part toRead e ls (s.put v toRead c) (by show 0 < _; omega) (by simp only [ReadState.put]; omega))

theorem not_lt_two (h : offChain c = false) : ¬ c < 2 := by
  intro hlt
  unfold offChain at h
  rw [decide_eq_true hlt] at h
  cases h

theorem skipClusters_trail : ∀ {n : Nat} {l : List Nat} {c : Nat}, Trail v.nextCluster offChain c l e → n ≤ l.length →
    Trail v.nextCluster offChain (v.skipClusters n c) (l.drop n) e
  | 0, _, _, h, _ => h
  | n + 1, [], _, _, hn => absurd hn (not_succ_le_zero n)
  | n + 1, x :: l, c, h, hn => by
    obtain ⟨rfl, hs, hl⟩ := h
    unfold skipClusters
    rw [if_neg (not_lt_two hs)]
    exact skipClusters_trail hl (le_of_succ_le_succ hn)

theorem skipClusters_small (h : c < 2) : ∀ n, v.skipClusters n c = c
  | 0 => rfl
  | _ + 1 => if_pos h

theorem skipClusters_behind (hs : Sound v.geom) : ∀ {n : Nat} {l : List Nat} {c : Nat},
    Trail v.nextCluster offChain c l e → l.length ≤ n → offChain (v.skipClusters n c) = true
  | 0, [], _, h, _ => by
    obtain ⟨rfl, he⟩ := h
    exact he
  | 0, _ :: _, _, _, hn => absurd hn (not_succ_le_zero _)
  | n + 1, [], c, h, _ => by
    obtain ⟨rfl, he⟩ := h
    unfold skipClusters
    by_cases hlt : c < 2
    · rwa [if_pos hlt]
    have hend : c = fatEnd := by
      unfold offChain at he
      rw [decide_eq_false hlt] at he
      exact eq_of_beq he
    have hmost : v.fatEntries ≤ c := hend ▸ le_of_lt hs.entries_lt
    rw [if_neg hlt, show v.nextCluster c = 0 from if_pos hmost, skipClusters_small (by decide)]
    rfl
  | n + 1, x :: l, c, h, hn => by
    obtain ⟨rfl, hstop, hl⟩ := h
    unfold skipClusters
    rw [if_neg (not_lt_two hstop)]
    exact skipClusters_behind hs hl (le_of_succ_le_succ hn)

theorem read_behind (hs : Sound v.geom) (hch : v.Chain inode.firstCluster l) (hlt : offset < inode.size)
    (hk : l.length ≤ offset / v.bytesPerCluster) (h32 : offset / v.bytesPerCluster < 2 ^ 32) :
    v.read stack inode offset buf size = .ok (buf, none) ∨ v.read stack inode offset buf size = .ok (buf, some 0) := by
  obtain ⟨e, he⟩ := hch.trail
  have hoff := skipClusters_behind hs he hk
  unfold read
  rw [if_neg (not_le.2 hlt), u32_of_lt h32]
  generalize v.skipClusters (offset / v.bytesPerCluster) inode.firstCluster = c at hoff
  by_cases hc : c < 2
  · exact .inl (if_pos hc)
  refine .inr ?_
  have hnil : Trail v.nextCluster offChain c [] c := ⟨rfl, hoff⟩
  simp only [if_neg hc]
  rw [trailLoop_eq hnil (zero_le _)]
  rfl

/-- **A read inside the chain**: how many bytes it gives, and which. -/
theorem read_eq (hs : Sound v.geom) (hch : v.Chain inode.firstCluster l) (stack buf : Mem) (hlt : offset < inode.size)
    (hk : offset / v.bytesPerCluster < l.length) (hsize : size < 2 ^ 32) (hsum : offset + size < 2 ^ 64) :
    ∃ m, v.read stack inode offset buf size =
        .ok (m, some (min (min size (inode.size - offset)) (l.length * v.bytesPerCluster - offset))) ∧
      ∀ i, i < min (min size (inode.size - offset)) (l.length * v.bytesPerCluster - offset) →
        m i = v.held stack ((l.drop (offset / v.bytesPerCluster)).take
          ((offset + i) / v.bytesPerCluster - offset / v.bytesPerCluster + 1)) ((offset + i) % v.bytesPerCluster) := by
  have hb : 0 < v.bytesPerCluster := hs.bytes_pos
  have hlen := hch.length_le
  have h32 : u32 (offset / v.bytesPerCluster) = offset / v.bytesPerCluster := by
    have hmost : v.fatEntries ≤ 2 ^ 30 := hs.most
    exact u32_of_lt (by omega)
  have hto : (if inode.size < u64 (offset + size) then u32 (inode.size - offset) else size) =
      min size (inode.size - offset) := by
    rw [u64_of_lt hsum]
    split
    · rw [u32_of_lt (by omega)]
      omega
    · omega
  obtain ⟨e, he⟩ := hch.trail
  have hskip := skipClusters_trail he hk.le
  generalize hc : v.skipClusters (offset / v.bytesPerCluster) inode.firstCluster = c at hskip
  have hdrop : (l.drop (offset / v.bytesPerCluster)).length = l.length - offset / v.bytesPerCluster :=
    List.length_drop ..
  have hoc : offChain c = false := by
    rcases hl : l.drop (offset / v.bytesPerCluster) with _ | ⟨x, l'⟩
    · rw [hl, List.length_nil] at hdrop
      omega
    · rw [hl] at hskip
      exact hskip.2.1
  unfold read
  simp only [if_neg (not_le.2 hlt), hto, h32, hc, if_neg (not_lt_two hoc)]
  generalize hn : min size (inode.size - offset) = n
  rw [trailLoop_eq hskip (by unfold turns; omega)]
  have hpart := @readLoop_part v n e (l.drop (offset / v.bytesPerCluster))
    { buffer := buf, temp := stack, done := 0, clusterOffset := offset % v.bytesPerCluster } (mod_lt _ hb)
    (zero_le _)
  generalize listLoop (v.readTurn n) (l.drop (offset / v.bytesPerCluster)) e
    { buffer := buf, temp := stack, done := 0, clusterOffset := offset % v.bytesPerCluster } = r at hpart
  unfold ReadPart at hpart
  rw [hdrop] at hpart
  obtain ⟨hdone, hbytes⟩ := hpart.slice hb hk
  exact ⟨r.1.buffer, by rw [← hdone]; rfl, fun i hi => (hbytes i (by omega)).2.2⟩

end

end Exfat

end OS64
