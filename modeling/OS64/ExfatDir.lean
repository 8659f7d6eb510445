import OS64.ExfatVolume
/-!
# ExfatDir — directories as lists of entry sets, and `exfat_lookup`

`Sets v buf f es`: a cluster has well-formed entry sets up to slot `f`, where it ends or has type 0, and `es` are the
files among them.  A lookup goes through the clusters of the directory (`lookup_eq`) and in each of them through the
entry sets (`scan_to`).  What lies behind a slot of type 0 is not looked at.
-/
namespace OS64

open List Nat Res

namespace Exfat

open Fat32 (Geom ftDir)

/-- The name in the name entries among `n` slots from slot `p` on. -/
def nameOf (buf : Mem) : Nat → Nat → Name
  | 0, _ => []
  | n + 1, p => (if buf (32 * p) = entryName then nameChars buf p else []) ++ nameOf buf n (p + 1)

/-- An entry set of one primary slot `p` and `count` secondary ones, in use and inside of the cluster. -/
structure SetAt (v : Exfat) (buf : Mem) (p count : Nat) : Prop where
  used : buf (32 * p) ≠ 0#8
  counted : (buf (32 * p + 1)).toNat = count
  small : count < 255
  inside : 32 * (p + count + 1) ≤ v.bytesPerCluster
  secondary : ∀ q, p < q → q ≤ p + count → buf (32 * q) ≠ 0#8

/-- The entry set of a file: the stream entry follows the file entry, it is the only one, and the name has at most 255
characters. -/
structure FileSet (v : Exfat) (buf : Mem) (p count : Nat) (name : Name) : Prop extends SetAt v buf p count where
  file : buf (32 * p) = entryFile
  pos : 0 < count
  stream : buf (32 * (p + 1)) = entryStream
  noStream : ∀ q, p + 1 < q → q ≤ p + count → buf (32 * q) ≠ entryStream
  named : nameOf buf (count - 1) (p + 2) = name
  short : name.length ≤ 255

structure Entry where
  slot : Nat
  name : Name

/-- From slot `p` to slot `f` there are well-formed entry sets, and `es` are the files among them. -/
inductive SetsTo (v : Exfat) (buf : Mem) (f : Nat) : Nat → List Entry → Prop
  | done : SetsTo v buf f f []
  | other {p count : Nat} {es : List Entry} (h : SetAt v buf p count) (hother : buf (32 * p) ≠ entryFile)
      (rest : SetsTo v buf f (p + count + 1) es) : SetsTo v buf f p es
  | file {p count : Nat} {name : Name} {es : List Entry} (h : FileSet v buf p count name)
      (rest : SetsTo v buf f (p + count + 1) es) : SetsTo v buf f p (⟨p, name⟩ :: es)

/-- The entry sets of a cluster, up to the slot `f` where `exfat_lookup` stops. -/
def Sets (v : Exfat) (buf : Mem) (f : Nat) (es : List Entry) : Prop :=
  SetsTo v buf f 0 es ∧ (v.bytesPerCluster ≤ 32 * f ∨ buf (32 * f) = 0#8)

def findName (name : Name) (es : List Entry) : Option Entry := es.find? (fun e => decide (e.name = name))

def SameFrom (v : Exfat) (q : Nat) (buf buf' : Mem) : Prop :=
  ∀ o, 32 * q ≤ o → o < v.bytesPerCluster → buf' o = buf o

/-- The same types and counts from slot `q` on, and the same name entries. -/
structure SameSets (v : Exfat) (q : Nat) (buf buf' : Mem) : Prop where
  type : ∀ p, q ≤ p → 32 * p < v.bytesPerCluster → buf' (32 * p) = buf (32 * p)
  count : ∀ p, q ≤ p → 32 * p + 1 < v.bytesPerCluster → buf' (32 * p + 1) = buf (32 * p + 1)
  name : ∀ p, q ≤ p → buf (32 * p) = entryName → ∀ o, 32 * p ≤ o → o < 32 * p + 32 → o < v.bytesPerCluster →
    buf' o = buf o

section
variable {v w : Exfat} {buf buf' : Mem} {name : Name} {n p q s t count : Nat} {es : List Entry} {acc : Name}

theorem SetAt.lt (h : SetAt v buf p count) : 32 * p < v.bytesPerCluster := by
  have := h.inside
  omega

theorem SetAt.not_stop (h : SetAt v buf p count) : ¬ (v.bytesPerCluster ≤ 32 * p ∨ buf (32 * p) = 0#8) := by
  rintro (hlt | h0)
  · have := h.lt
    omega
  · exact h.used h0

theorem findStream_first (hpos : 0 < n) (hlt : 32 * p < v.bytesPerCluster) (h : buf (32 * p) = entryStream) :
    findStream v buf n p = .ok (some p) := by
  obtain ⟨n, rfl⟩ := Nat.exists_eq_succ_of_ne_zero (Nat.pos_iff_ne_zero.1 hpos)
  unfold findStream
  rw [if_neg (not_le.2 hlt), if_pos h]

theorem readName_eq : ∀ {n p : Nat} {acc : Name}, 32 * (p + n) ≤ v.bytesPerCluster →
    acc.length + (nameOf buf n p).length ≤ 255 → readName v buf n p acc = .ok (acc ++ nameOf buf n p)
  | 0, p, acc, _, _ => by
    unfold readName nameOf
    rw [append_nil]
  | n + 1, p, acc, hin, hlen => by
    unfold readName
    by_cases hfull : 255 ≤ acc.length
    · have hnil : nameOf buf (n + 1) p = [] := length_eq_zero_iff.1 (by omega)
      rw [if_pos hfull, hnil, append_nil]
    unfold nameOf at hlen ⊢
    rw [length_append] at hlen
    have hacc : (if buf (32 * p) = entryName then acc ++ nameChars buf p else acc) =
        acc ++ if buf (32 * p) = entryName then nameChars buf p else [] := by
      split
      · rfl
      · rw [append_nil]
    rw [if_neg hfull, if_neg (by omega)]
    simp only [hacc]
    rw [if_neg (by rw [length_append]; omega), readName_eq (by omega) (by rw [length_append]; omega), append_assoc]

theorem scan_stop (h : v.bytesPerCluster ≤ 32 * p ∨ buf (32 * p) = 0#8) (name : Name) :
    ∀ t, scan v buf name t p = .ok none
  | 0 => if_pos h
  | _ + 1 => if_pos h

theorem scan_other (h : SetAt v buf p count) (hother : buf (32 * p) ≠ entryFile) (name : Name) (t : Nat) :
    scan v buf name (t + 1) p = scan v buf name t (p + count + 1) := by
  have hsmall := h.small
  rw [scan]
  simp only [if_neg h.not_stop, if_neg hother, h.counted]
  rw [mod_eq_of_lt (by omega)]
  rfl

theorem FileSet.fileAt (h : FileSet v buf p count name) : fileAt v buf p = .ok (some (p + 1, name)) := by
  have hin := h.inside
  have hpos := h.pos
  have hname : readName v buf (count - 1) (p + 1 + 1) [] = .ok name := by
    rw [readName_eq (by omega) (by rw [h.named]; simpa using h.short), h.named]
    rfl
  have hstream : findStream v buf count (p + 1) = .ok (some (p + 1)) := findStream_first hpos (by omega) h.stream
  unfold Exfat.fileAt
  simp only [h.counted, hstream, Res.bind, hname]

theorem scan_file {found : Name} (h : FileSet v buf p count found) (name : Name) (t : Nat) : scan v buf name (t + 1) p =
      if found = name then .ok (some (p, p + 1)) else scan v buf name t (p + count + 1) := by
  have hsmall := h.small
  rw [scan]
  simp only [if_neg h.not_stop, if_pos h.file, h.counted, h.fileAt]
  rw [mod_eq_of_lt (by omega)]
  rfl

/-! ## What a scan depends on -/

theorem load_same (h : SameFrom v q buf buf') {o k : Nat} (hq : 32 * q ≤ o) (hk : o + k ≤ v.bytesPerCluster) :
    load buf' o k = load buf o k := load_congr (fun i hi => h (o + i) (by omega) (by omega))

theorem SameFrom.sets (h : SameFrom v q buf buf') : SameSets v q buf buf' :=
  ⟨fun _ hp ho => h _ (by omega) ho, fun _ hp ho => h _ (by omega) ho, fun _ hp _ o h1 _ ho => h o (by omega) ho⟩

theorem findStream_same (h : SameSets v q buf buf') (hb : w.bytesPerCluster = v.bytesPerCluster) :
    ∀ {n p : Nat}, q ≤ p → findStream w buf' n p = findStream v buf n p
  | 0, _, _ => rfl
  | n + 1, p, hp => by
    unfold findStream
    rw [hb]
    by_cases hend : v.bytesPerCluster ≤ 32 * p
    · rw [if_pos hend, if_pos hend]
    · rw [if_neg hend, if_neg hend, h.type p hp (by omega), findStream_same h hb (le_succ_of_le hp)]

theorem nameChars_same (h : ∀ o, 32 * p + 2 ≤ o → o < 32 * p + 32 → buf' o = buf o) :
    nameChars buf' p = nameChars buf p := by
  unfold nameChars
  have hmap : (List.range 15).map (fun j => load buf' (32 * p + 2 + 2 * j) 2) =
      (List.range 15).map (fun j => load buf (32 * p + 2 + 2 * j) 2) := by
    refine map_congr_left (fun j hj => ?_)
    have := mem_range.1 hj
    exact load_congr (fun i hi => h _ (by omega) (by omega))
  rw [hmap]

theorem findStream_some : ∀ {n p : Nat}, findStream v buf n p = .ok (some s) → p ≤ s ∧ 32 * s < v.bytesPerCluster
  | 0, _, h => by cases h
  | n + 1, p, h => by
    unfold findStream at h
    split at h
    · cases h
    split at h
    · cases h
      exact ⟨le_rfl, by omega⟩
    · obtain ⟨h1, h2⟩ := findStream_some h
      exact ⟨by omega, h2⟩

variable (hslots : v.bytesPerCluster = 32 * v.slotCount)
include hslots

theorem slot_inside (h : ¬ v.bytesPerCluster ≤ 32 * p) : 32 * p + 32 ≤ v.bytesPerCluster := by omega

theorem readName_same (h : SameSets v q buf buf') (hb : w.bytesPerCluster = v.bytesPerCluster) :
    ∀ {n p : Nat} {acc : Name}, q ≤ p → readName w buf' n p acc = readName v buf n p acc
  | 0, _, _, _ => rfl
  | n + 1, p, acc, hp => by
    unfold readName
    rw [hb]
    by_cases hfull : 255 ≤ acc.length
    · rw [if_pos hfull, if_pos hfull]
    by_cases hend : v.bytesPerCluster ≤ 32 * p
    · rw [if_neg hfull, if_neg hfull, if_pos hend, if_pos hend]
    have hchars : (if buf (32 * p) = entryName then acc ++ nameChars buf' p else acc) =
        if buf (32 * p) = entryName then acc ++ nameChars buf p else acc := by
      split
      · rename_i hname
        rw [nameChars_same (fun o h1 h2 => h.name p hp hname o (by omega) h2 (by omega))]
      · rfl
    simp only [h.type p hp (by omega), hchars]
    rw [readName_same h hb (le_succ_of_le hp)]

theorem fileAt_same (h : SameSets v q buf buf') (hb : w.bytesPerCluster = v.bytesPerCluster) (hp : q ≤ p)
    (hin : 32 * p + 32 ≤ v.bytesPerCluster) : fileAt w buf' p = fileAt v buf p := by
  unfold fileAt
  simp only [h.count p hp (by omega), findStream_same h hb (le_succ_of_le hp)]
  rcases hf : findStream v buf (buf (32 * p + 1)).toNat (p + 1) with (_ | stream) | _ | _
  · rfl
  · have hs := (findStream_some hf).1
    simp only [Res.bind, readName_same hslots h hb (show q ≤ stream + 1 by omega)]
  · rfl
  · rfl

/-- **A scan looks at the types, counts and names of the slots from its start to the end of the cluster only.** -/
theorem scan_same (h : SameSets v q buf buf') (hb : w.bytesPerCluster = v.bytesPerCluster) (name : Name) :
    ∀ {t p : Nat}, q ≤ p → scan w buf' name t p = scan v buf name t p
  | 0, p, hp => by
    unfold scan
    rw [hb]
    by_cases hend : v.bytesPerCluster ≤ 32 * p
    · rw [if_pos (.inl hend), if_pos (.inl hend)]
    · rw [h.type p hp (by omega)]
  | t + 1, p, hp => by
    unfold scan
    by_cases hend : v.bytesPerCluster ≤ 32 * p
    · simp only [hb]
      rw [if_pos (.inl hend), if_pos (.inl hend)]
    have hin := slot_inside hslots hend
    have hrec : ∀ k, scan w buf' name t (p + k) = scan v buf name t (p + k) :=
      fun k => scan_same h hb name (le_add_right_of_le hp)
    simp only [hb, h.type p hp (by omega), h.count p hp (by omega), hrec, fileAt_same hslots h hb hp hin]

end

section
variable {v w : Exfat} {buf buf' : Mem} {name : Name} {p q s t : Nat} {es : List Entry}

theorem fileAt_some (h : fileAt v buf p = .ok (some (s, name))) : 32 * s < v.bytesPerCluster := by
  obtain ⟨_ | stream, hf, h⟩ := bind_ok h
  · cases h
  · obtain ⟨found, -, h⟩ := bind_ok h
    cases h
    exact (findStream_some hf).2

theorem scan_turns (name : Name) : ∀ {t p : Nat}, v.bytesPerCluster ≤ 32 * (p + t) →
    scan v buf name (t + 1) p = scan v buf name t p
  | 0, p, h => by
    rw [add_zero] at h
    rw [scan_stop (.inl h), scan_stop (.inl h)]
  | t + 1, p, h => by
    have hrec : ∀ k, 0 < k → scan v buf name (t + 1) (p + k) = scan v buf name t (p + k) :=
      fun k hk => scan_turns name (by omega)
    conv => lhs; unfold scan
    conv => rhs; unfold scan
    simp only [hrec _ (succ_pos _)]
    by_cases hstep : ((buf (32 * p + 1)).toNat + 1) % 256 = 0
    · simp only [if_pos hstep]
    · simp only [hrec _ (Nat.pos_of_ne_zero hstep)]

theorem SetsTo.le {f : Nat} (h : SetsTo v buf f p es) : p ≤ f := by
  induction h with
  | done => exact le_refl f
  | other _ _ _ ih => omega
  | file _ _ ih => omega

theorem SetsTo.used {f : Nat} (h : SetsTo v buf f p es) :
    ∀ q, p ≤ q → q < f → buf (32 * q) ≠ 0#8 ∧ 32 * q < v.bytesPerCluster := by
  have hset : ∀ {p count q : Nat}, SetAt v buf p count → p ≤ q → q < p + count + 1 →
      buf (32 * q) ≠ 0#8 ∧ 32 * q < v.bytesPerCluster := by
    intro p count q h h1 h2
    have hin := h.inside
    refine ⟨?_, by omega⟩
    rcases eq_or_lt_of_le h1 with rfl | hlt
    · exact h.used
    · exact h.secondary q hlt (by omega)
  induction h with
  | done => exact fun q h1 h2 => absurd h1 (not_le.2 h2)
  | @other p count es h _ _ ih =>
    intro q h1 h2
    rcases lt_or_ge q (p + count + 1) with hlt | hge
    · exact hset h h1 hlt
    · exact ih q hge h2
  | @file p count _ es h _ ih =>
    intro q h1 h2
    rcases lt_or_ge q (p + count + 1) with hlt | hge
    · exact hset h.toSetAt h1 hlt
    · exact ih q hge h2

theorem nameOf_same : ∀ {n p : Nat}, (∀ o, 32 * p ≤ o → o < 32 * (p + n) → buf' o = buf o) →
    nameOf buf' n p = nameOf buf n p
  | 0, _, _ => rfl
  | n + 1, p, h => by
    unfold nameOf
    rw [h (32 * p) le_rfl (by omega), nameChars_same (fun o h1 h2 => h o (by omega) (by omega)),
      nameOf_same (fun o h1 h2 => h o (by omega) (by omega))]

section
variable (hb : w.bytesPerCluster = v.bytesPerCluster)
include hb

theorem SetAt.same {count : Nat} (h : SetAt v buf p count)
    (hsame : ∀ o, 32 * p ≤ o → o < 32 * (p + count + 1) → buf' o = buf o) : SetAt w buf' p count where
  used := by
    rw [hsame _ le_rfl (by omega)]
    exact h.used
  counted := by
    rw [hsame _ (by omega) (by omega)]
    exact h.counted
  small := h.small
  inside := by
    rw [hb]
    exact h.inside
  secondary q h1 h2 := by
    rw [hsame _ (by omega) (by omega)]
    exact h.secondary q h1 h2

theorem FileSet.same {count : Nat} (h : FileSet v buf p count name)
    (hsame : ∀ o, 32 * p ≤ o → o < 32 * (p + count + 1) → buf' o = buf o) : FileSet w buf' p count name where
  toSetAt := h.toSetAt.same hb hsame
  file := by
    rw [hsame _ le_rfl (by omega)]
    exact h.file
  pos := h.pos
  stream := by
    have := h.pos
    rw [hsame _ (by omega) (by omega)]
    exact h.stream
  noStream q h1 h2 := by
    rw [hsame _ (by omega) (by omega)]
    exact h.noStream q h1 h2
  named := by
    rw [nameOf_same (fun o h1 h2 => hsame o (by omega) (by omega))]
    exact h.named
  short := h.short

theorem SetsTo.same {f : Nat} (h : SetsTo v buf f p es)
    (hsame : ∀ o, 32 * p ≤ o → o < 32 * f → buf' o = buf o) : SetsTo w buf' f p es := by
  induction h with
  | done => exact .done
  | @other p count es h hother rest ih =>
    have hle := rest.le
    refine .other (h.same hb (fun o h1 h2 => hsame o h1 (by omega))) ?_ (ih (fun o h1 h2 => hsame o (by omega) h2))
    rwa [hsame _ le_rfl (by omega)]
  | @file p count found es h rest ih =>
    have hle := rest.le
    exact .file (h.same hb (fun o h1 h2 => hsame o h1 (by omega))) (ih (fun o h1 h2 => hsame o (by omega) h2))

end

theorem SetsTo.mem {f : Nat} (h : SetsTo v buf f p es) {e : Entry} (he : e ∈ es) :
    p ≤ e.slot ∧ ∃ count, FileSet v buf e.slot count e.name ∧ e.slot + count + 1 ≤ f := by
  induction h with
  | done => cases he
  | other _ _ _ ih =>
    obtain ⟨h1, h2⟩ := ih he
    exact ⟨by omega, h2⟩
  | @file p count found es h rest ih =>
    rcases mem_cons.1 he with rfl | he
    · exact ⟨le_rfl, count, h, rest.le⟩
    · obtain ⟨h1, h2⟩ := ih he
      exact ⟨by omega, h2⟩

/-- **The scan of well-formed entry sets** finds the first file with the name, or goes on behind them. -/
theorem scan_to {f : Nat} (h : SetsTo v buf f p es) (name : Name) : ∀ {t : Nat}, v.bytesPerCluster ≤ 32 * (p + t) →
    scan v buf name t p = match findName name es with
      | some e => .ok (some (e.slot, e.slot + 1))
      | none => scan v buf name t f := by
  induction h with
  | done => exact fun _ => rfl
  | @other p count es h hother rest ih =>
    rintro (_ | t) ht
    · exact absurd ht (not_le.2 h.lt)
    · have hle := rest.le
      rw [scan_other h hother, ih (by omega), scan_turns name (show v.bytesPerCluster ≤ 32 * (f + t) by omega)]
  | @file p count found es h rest ih =>
    rintro (_ | t) ht
    · exact absurd ht (not_le.2 h.lt)
    have hle := rest.le
    rw [scan_file h, findName, List.find?_cons]
    by_cases heq : found = name
    · simp [heq]
    · simp only [heq]
      rw [ih (by omega), scan_turns name (show v.bytesPerCluster ≤ 32 * (f + t) by omega)]
      rfl

theorem scan_some : ∀ {t p : Nat}, scan v buf name t p = .ok (some (q, s)) →
    p ≤ q ∧ 32 * q < v.bytesPerCluster ∧ 32 * s < v.bytesPerCluster
  | 0, p, h => by
    unfold scan at h
    split at h <;> cases h
  | t + 1, p, h => by
    have hnext : ∀ {k : Nat}, scan v buf name t (p + k) = .ok (some (q, s)) →
        p ≤ q ∧ 32 * q < v.bytesPerCluster ∧ 32 * s < v.bytesPerCluster := fun h => by
      obtain ⟨h1, h2⟩ := scan_some h
      exact ⟨by omega, h2⟩
    unfold scan at h
    simp only at h
    generalize hn : (if ((buf (32 * p + 1)).toNat + 1) % 256 = 0 then Res.hang
      else scan v buf name t (p + ((buf (32 * p + 1)).toNat + 1) % 256)) = next at h
    have hstep : next = .ok (some (q, s)) →
        p ≤ q ∧ 32 * q < v.bytesPerCluster ∧ 32 * s < v.bytesPerCluster := fun h => by
      rw [← hn] at h
      split at h
      · cases h
      · exact hnext h
    split at h
    · cases h
    split at h
    · obtain ⟨_ | ⟨stream, found⟩, hf, h⟩ := bind_ok h
      · exact hnext h
      simp only at h
      split at h
      · cases h
        exact ⟨le_rfl, by omega, fileAt_some hf⟩
      · exact hstep h
    · exact hstep h

end

/-! ## Lookups -/

/-- A directory: its clusters are in use, on the device, and made of whole slots. -/
structure DirState (v : Exfat) (dir : ExInode) (l : List Nat) : Prop where
  sound : Sound v.geom
  mode : dir.mode = ftDir
  chain : v.Chain dir.firstCluster l
  nonempty : l ≠ []
  onDevice : ∀ c ∈ l, v.geom.OnDevice c
  slots : v.bytesPerCluster = 32 * v.slotCount

def scanCluster (v : Exfat) (name : Name) (c : Nat) : Res (Option (Nat × Nat)) :=
  scan v (v.content c) name (v.slotCount + 1) 0

def search (v : Exfat) (dir : ExInode) (name : Name) : List Nat → Res (Option ExInode)
  | [] => .ok none
  | c :: l => (v.scanCluster name c).bind (fun r =>
    match r with
    | none => search v dir name l
    | some (p, s) => .ok (some (foundInode dir c (v.content c) p s)))

section
variable {v w : Exfat} {dir : ExInode} {l : List Nat} {buf : Mem} {name : Name} {c e p s : Nat}

theorem foundInode_same {buf' : Mem} (dir : ExInode) (c : Nat) (hslots : v.bytesPerCluster = 32 * v.slotCount) {q : Nat}
    (h : SameFrom v q buf buf') (hqp : q ≤ p) (hqs : q ≤ s) (hp : 32 * p < v.bytesPerCluster)
    (hs : 32 * s < v.bytesPerCluster) : foundInode dir c buf' p s = foundInode dir c buf p s := by
  unfold foundInode fileAttributes streamLength streamCluster
  rw [load_same h (show 32 * q ≤ 32 * p + 4 by omega) (by omega),
    load_same h (show 32 * q ≤ 32 * s + 24 by omega) (by omega),
    load_same h (show 32 * q ≤ 32 * s + 20 by omega) (by omega)]

theorem DirState.cons (h : DirState v dir l) : ∃ l', l = dir.firstCluster :: l' := by
  obtain ⟨e, he⟩ := h.chain.trail
  rcases l with _ | ⟨x, l⟩
  · exact absurd rfl h.nonempty
  · exact ⟨l, by rw [he.1]⟩

theorem DirState.congr (h : DirState v dir l) (hg : w.geom = v.geom) (hf : ∀ x ∈ l, w.fatCache x = v.fatCache x) :
    DirState w dir l := by
  have hb := bytes_congr hg
  refine ⟨by rw [hg]; exact h.sound, h.mode, h.chain.congr hg hf, h.nonempty,
    fun c hx => by rw [hg]; exact h.onDevice c hx, ?_⟩
  unfold slotCount
  rw [hb]
  exact h.slots

theorem DirState.same (h : DirState v dir l) (hc : c ∈ l) (buf : Mem) :
    SameFrom v 0 (v.content c) (v.readCluster c buf) :=
  fun _ _ ho => readCluster_on h.sound (h.chain.index c hc) (h.onDevice c hc) ho

theorem lookupLoop_eq (h : DirState v dir l) (name : Name) (e : Nat) : ∀ (ls : List Nat) (buf : Mem), ls ⊆ l →
    (match listLoop (v.lookupTurn dir name) ls e buf with
      | (_, _, none) => Res.ok none
      | (_, _, some found) => found.bind (fun inode => .ok (some inode))) = search v dir name ls
  | [], _, _ => rfl
  | c :: ls, buf, hsub => by
    have hc := hsub (.head _)
    have hscan : scan v (v.readCluster c buf) name (v.slotCount + 1) 0 = v.scanCluster name c :=
      scan_same h.slots (h.same hc buf).sets rfl name (le_refl 0)
    have ih := lookupLoop_eq h name e ls (v.readCluster c buf) (fun x hx => hsub (.tail _ hx))
    unfold listLoop lookupTurn search
    simp only [hscan]
    rcases hr : v.scanCluster name c with (_ | ⟨p, s⟩) | _ | _
    · exact ih
    · obtain ⟨-, hp, hs⟩ := scan_some hr
      have hfound := foundInode_same dir c h.slots (h.same hc buf) (zero_le p) (zero_le s) hp hs
      simp only [Res.bind, hfound]
    · rfl
    · rfl

/-- **`exfat_lookup`** goes through the clusters of the directory. -/
theorem lookup_eq (h : DirState v dir l) (name : Name) : v.lookup dir name = search v dir name l := by
  obtain ⟨e, he⟩ := h.chain.trail
  have hlen := h.chain.length_le
  unfold lookup
  rw [if_neg (fun hc => hc h.mode), trailLoop_eq he (by unfold turns; omega), ← lookupLoop_eq h name e l blank
    (fun _ hx => hx)]
  rfl

theorem search_congr (hg : w.geom = v.geom) (hslots : v.bytesPerCluster = 32 * v.slotCount) (name : Name) :
    ∀ {ls : List Nat}, (∀ c ∈ ls, SameFrom v 0 (v.content c) (w.content c)) →
    search w dir name ls = search v dir name ls
  | [], _ => rfl
  | c :: ls, h => by
    have hb := bytes_congr hg
    have hsc := slotCount_congr hg
    have hc := h c (.head _)
    have hscan : w.scanCluster name c = v.scanCluster name c := by
      unfold scanCluster
      rw [hsc]
      exact scan_same hslots hc.sets hb name (le_refl 0)
    have ih := search_congr hg hslots name (forall_mem_cons.1 h).2
    unfold search
    rw [hscan, ih]
    rcases hr : v.scanCluster name c with (_ | ⟨p, s⟩) | _ | _
    · rfl
    · obtain ⟨-, hp, hs⟩ := scan_some hr
      simp only [Res.bind, foundInode_same dir c hslots hc (zero_le p) (zero_le s) hp hs]
    · rfl
    · rfl

theorem search_cons_none (h : v.scanCluster name c = .ok none) : search v dir name (c :: l) = search v dir name l := by
  rw [search, h]
  rfl

theorem search_cons_some (h : v.scanCluster name c = .ok (some (p, s))) :
    search v dir name (c :: l) = .ok (some (foundInode dir c (v.content c) p s)) := by
  rw [search, h]
  rfl

theorem search_some : ∀ {ls : List Nat} {i : ExInode}, search v dir name ls = .ok (some i) →
    ∃ c ∈ ls, ∃ p s, v.scanCluster name c = .ok (some (p, s)) ∧ i = foundInode dir c (v.content c) p s
  | [], _, h => by cases h
  | c :: ls, i, h => by
    obtain ⟨_ | ⟨p, s⟩, hr, h⟩ := bind_ok h
    · obtain ⟨d, hd, hrest⟩ := search_some h
      exact ⟨d, .tail _ hd, hrest⟩
    · cases h
      exact ⟨c, .head _, p, s, hr, rfl⟩

theorem scanCluster_sets {es : List Entry} {f : Nat} (hslots : v.bytesPerCluster = 32 * v.slotCount)
    (h : Sets v (v.content c) f es) (name : Name) :
    v.scanCluster name c = .ok ((findName name es).map (fun e => (e.slot, e.slot + 1))) := by
  unfold scanCluster
  rw [scan_to h.1 name (by omega)]
  cases findName name es with
  | none => exact scan_stop h.2 name _
  | some e => rfl

end

def smallRoot : ExInode :=
  { mode := ftDir, size := 0, firstCluster := 2, dataLength := 0, dirCluster := 2, dirEntry := 0, parentCluster := 2 }

theorem smallRoot_state : DirState smallVol smallRoot [2] where
  sound := smallVol_sound
  mode := rfl
  chain :=
    { trail := ⟨fatEnd, rfl, by decide, by decide, by decide⟩
      index := by decide
      used := by decide }
  nonempty := by decide
  onDevice := by decide
  slots := rfl

end Exfat

end OS64
