import OS64.ExfatCreate
/-!
# ExfatUnlink — removed entry sets

`exfat_unlink` gives the slots of the removed entry set the type 0, at which `exfat_lookup` stops, and it does so in the
directory's first cluster, wherever the entry set was found (`unlinkRight_iff`).
-/
namespace OS64

open List Nat

namespace Exfat

open Fat32 (Geom ftDir)

def Cleared (v : Exfat) (buf buf' : Mem) : Prop :=
  ∀ o, o < v.bytesPerCluster → buf' o = buf o ∨ o % 32 = 0 ∧ buf' o = 0#8

section
variable {v w : Exfat} {buf buf' : Mem} {name : Name} {f n p q t count : Nat} {es : List Entry}

theorem Cleared.of_ne (h : Cleared v buf buf') {o : Nat} (ho : o < v.bytesPerCluster) (hne : o % 32 ≠ 0) :
    buf' o = buf o := (h o ho).resolve_right (fun hc => hne hc.1)

theorem Cleared.type (h : Cleared v buf buf') (hq : 32 * q < v.bytesPerCluster) :
    buf' (32 * q) = buf (32 * q) ∨ buf' (32 * q) = 0#8 := (h _ hq).imp_right And.right

theorem clearTypes_cleared (v : Exfat) (buf : Mem) (p n : Nat) : Cleared v buf (clearTypes buf p n) := by
  intro o _
  unfold clearTypes
  split
  · rename_i h
    exact .inr ⟨h.1, rfl⟩
  · exact .inl rfl

theorem nameOf_cleared (h : Cleared v buf buf') : ∀ {n p : Nat}, 32 * (p + n) ≤ v.bytesPerCluster →
    (nameOf buf' n p).length ≤ (nameOf buf n p).length
  | 0, _, _ => le_rfl
  | n + 1, p, hin => by
    have ih := nameOf_cleared h (n := n) (p := p + 1) (by omega)
    have hchars : nameChars buf' p = nameChars buf p := nameChars_same (fun o h1 h2 => h.of_ne (by omega) (by omega))
    unfold nameOf
    rw [length_append, length_append, hchars]
    rcases h.type (q := p) (by omega) with heq | hz
    · rw [heq]
      omega
    · rw [hz, if_neg (by decide : ¬ (0#8 : BitVec 8) = entryName), length_nil]
      omega

theorem findStream_none : ∀ {n p : Nat}, 32 * (p + n) ≤ v.bytesPerCluster →
    (∀ q, p ≤ q → q < p + n → buf (32 * q) ≠ entryStream) → findStream v buf n p = .ok none
  | 0, _, _, _ => rfl
  | n + 1, p, hin, h => by
    unfold findStream
    rw [if_neg (by omega), if_neg (h p (le_refl p) (by omega)),
      findStream_none (by omega) (fun q h1 h2 => h q (by omega) (by omega))]

theorem fileAt_cleared (h : Cleared v buf buf') (hset : FileSet v buf p count name) :
    fileAt v buf' p = .ok none ∨ ∃ found, fileAt v buf' p = .ok (some (p + 1, found)) := by
  have hin := hset.inside
  have hpos := hset.pos
  have hcount : (buf' (32 * p + 1)).toNat = count := by
    rw [h.of_ne (by omega) (by omega)]
    exact hset.counted
  unfold fileAt
  simp only [hcount]
  rcases h.type (q := p + 1) (by omega) with heq | hz
  · have hstream : findStream v buf' count (p + 1) = .ok (some (p + 1)) :=
      findStream_first hpos (by omega) (heq.trans hset.stream)
    have hlen := nameOf_cleared h (n := count - 1) (p := p + 2) (by omega)
    rw [hset.named] at hlen
    have hshort := hset.short
    refine .inr ⟨nameOf buf' (count - 1) (p + 2), ?_⟩
    have hread : readName v buf' (count - 1) (p + 1 + 1) [] = .ok ([] ++ nameOf buf' (count - 1) (p + 2)) :=
      readName_eq (by omega) (by rw [length_nil, zero_add]; exact hlen.trans hshort)
    simp only [hstream, Res.bind, hread, nil_append]
  · refine .inl ?_
    have hnone : findStream v buf' count (p + 1) = .ok none := findStream_none (by omega) (fun q h1 h2 => by
      rcases h.type (q := q) (by omega) with heq | hz'
      · rcases eq_or_lt_of_le h1 with rfl | hlt
        · rw [hz]
          decide
        · rw [heq]
          exact hset.noStream q hlt (by omega)
      · rw [hz']
        decide)
    simp only [hnone, Res.bind]

/-- **A scan gets through entry sets of which some slots were cleared**, whatever it finds there. -/
theorem scan_cleared (h : Cleared v buf buf') (hsets : SetsTo v buf f p es)
    (hstop : v.bytesPerCluster ≤ 32 * f ∨ buf (32 * f) = 0#8) (name : Name) :
    ∀ {t : Nat}, v.bytesPerCluster ≤ 32 * (p + t) → ∃ r, scan v buf' name t p = .ok r := by
  have hstop' : v.bytesPerCluster ≤ 32 * f ∨ buf' (32 * f) = 0#8 := by
    by_cases hend : v.bytesPerCluster ≤ 32 * f
    · exact .inl hend
    · have hz := hstop.resolve_left hend
      rcases h.type (q := f) (by omega) with heq | hz'
      · exact .inr (heq.trans hz)
      · exact .inr hz'
  induction hsets with
  | done => exact fun _ => ⟨none, scan_stop hstop' name _⟩
  | @other p count es hset hother rest ih =>
    rintro (_ | t) ht
    · exact absurd ht (not_le.2 hset.lt)
    have hin := hset.inside
    have hsmall := hset.small
    have hcount : (buf' (32 * p + 1)).toNat = count := by
      rw [h.of_ne (by omega) (by omega)]
      exact hset.counted
    rcases h.type (q := p) (by omega) with heq | hz
    · obtain ⟨r, hr⟩ := ih (t := t) (by omega)
      refine ⟨r, ?_⟩
      rw [scan]
      simp only [heq, if_neg hset.not_stop, if_neg hother, hcount]
      rwa [mod_eq_of_lt (by omega)]
    · exact ⟨none, scan_stop (.inr hz) name _⟩
  | @file p count found es hset rest ih =>
    rintro (_ | t) ht
    · exact absurd ht (not_le.2 hset.lt)
    have hin := hset.inside
    have hsmall := hset.small
    have hcount : (buf' (32 * p + 1)).toNat = count := by
      rw [h.of_ne (by omega) (by omega)]
      exact hset.counted
    rcases h.type (q := p) (by omega) with heq | hz
    · obtain ⟨r, hr⟩ := ih (t := t) (by omega)
      rw [scan]
      simp only [heq, if_neg hset.not_stop, if_pos hset.file, hcount]
      rw [mod_eq_of_lt (by omega)]
      rcases fileAt_cleared h hset with hf | ⟨found', hf⟩
      · exact ⟨r, by rwa [hf]⟩
      rw [hf]
      simp only [Res.bind]
      split
      · exact ⟨_, rfl⟩
      · exact ⟨r, hr⟩
    · exact ⟨none, scan_stop (.inr hz) name _⟩

theorem SetsTo.split {e : Entry} {B : List Entry} : ∀ {A : List Entry} {p : Nat}, SetsTo v buf f p (A ++ e :: B) →
    SetsTo v buf e.slot p A ∧ ∃ count, FileSet v buf e.slot count e.name ∧ SetsTo v buf f (e.slot + count + 1) B := by
  intro A p h
  generalize hes : A ++ e :: B = es at h
  induction h generalizing A with
  | done => simp at hes
  | other h hother _ ih =>
    obtain ⟨h1, h2⟩ := ih hes
    exact ⟨.other h hother h1, h2⟩
  | @file p count found es h rest ih =>
    rcases A with _ | ⟨a, A⟩
    · obtain ⟨rfl, rfl⟩ := hes
      exact ⟨.done, count, h, rest⟩
    · rw [cons_append, List.cons.injEq] at hes
      obtain ⟨rfl, hes⟩ := hes
      obtain ⟨h1, h2⟩ := ih hes
      exact ⟨.file h h1, h2⟩

end

/-! ## The call -/

/-- The name is not found any more, and every other name is found with the same first cluster and length. -/
structure UnlinkRight (v w : Exfat) (dir : ExInode) (name : Name) : Prop where
  gone : ∀ i, w.lookup dir name ≠ .ok (some i)
  kept : ∀ m i, m ≠ name → v.lookup dir m = .ok (some i) →
    ∃ i', w.lookup dir m = .ok (some i') ∧ i'.firstCluster = i.firstCluster ∧ i'.size = i.size

/-- The name is found in the first cluster and in no other one; and a name found behind it there is found in a later
cluster too, with the same first cluster and length. -/
def UnlinkFits (v : Exfat) (dir : ExInode) (l : List Nat) (name : Name) : Prop :=
  (∃ p s, v.scanCluster name dir.firstCluster = .ok (some (p, s)) ∧
    ∀ m q s', v.scanCluster m dir.firstCluster = .ok (some (q, s')) → p < q →
      ∃ i, search v dir m l.tail = .ok (some i) ∧
        i.firstCluster = streamCluster (v.content dir.firstCluster) s' ∧
        i.size = streamLength (v.content dir.firstCluster) s') ∧
  search v dir name l.tail = .ok none

/-- What a removal that returned 0 has done to the directory with the clusters `l`; `file` is the entry found. -/
structure Unlinked (v : Exfat) (dir : ExInode) (l : List Nat) (name : Name) (w : Exfat) (file : ExInode) : Prop where
  found : v.lookup dir name = .ok (some file)
  geom : w.geom = v.geom
  cache : ∀ x ∈ l, w.fatCache x = v.fatCache x
  cleared : ∀ o, o < v.bytesPerCluster → w.content dir.firstCluster o =
    clearTypes (v.content dir.firstCluster) file.dirEntry
      (((v.content dir.firstCluster (32 * file.dirEntry + 1)).toNat + 1) % 256) o
  others : ∀ c ∈ l, c ≠ dir.firstCluster → SameFrom v 0 (v.content c) (w.content c)

section
variable {v w : Exfat} {dir file : ExInode} {l ch : List Nat} {name m : Name} {c e t : Nat}

theorem freeChain_frame : ∀ {t : Nat} {ch : List Nat} {v : Exfat} {c : Nat}, Trail v.nextCluster offChain c ch e →
    freeChain t v c = .ok w → w.geom = v.geom ∧ w.dev = v.dev ∧ ∀ x, x ∉ ch → w.fatCache x = v.fatCache x
  | 0, ch, v, c, h, hw => by
    unfold freeChain at hw
    split at hw
    · cases hw
      exact ⟨rfl, rfl, fun _ _ => rfl⟩
    · cases hw
  | t + 1, [], v, c, h, hw => by
    obtain ⟨rfl, hstop⟩ := h
    unfold freeChain at hw
    rw [if_pos hstop] at hw
    cases hw
    exact ⟨rfl, rfl, fun _ _ => rfl⟩
  | t + 1, y :: ch, v, c, h, hw => by
    have hnd := h.nodup
    obtain ⟨rfl, hstop, hrest⟩ := h
    unfold freeChain at hw
    rw [if_neg (by rw [hstop]; exact Bool.false_ne_true)] at hw
    split at hw
    · cases hw
    have hrest' : Trail (v.setNext y fatFree).nextCluster offChain (v.nextCluster y) ch e :=
      hrest.congr (fun x hx => by
        have hne : x ≠ y := fun hc => (nodup_cons.1 hnd).1 (hc ▸ hx)
        unfold nextCluster
        rw [fatCache_setNext, if_neg hne]
        rfl)
    obtain ⟨hg, hd, hc⟩ := freeChain_frame hrest' hw
    refine ⟨hg, hd, fun x hx => ?_⟩
    rw [mem_cons, not_or] at hx
    rw [hc x hx.2, fatCache_setNext, if_neg hx.1]

theorem unlink_cases (h : DirState v dir l)
    (hfile : ∀ i, v.lookup dir name = .ok (some i) → ∃ ch, v.Chain i.firstCluster ch ∧ ∀ x ∈ ch, x ∉ l)
    (hc : v.unlink dir name = .ok (w, true)) : ∃ file, Unlinked v dir l name w file := by
  unfold unlink at hc
  rw [if_neg (fun hm => hm h.mode)] at hc
  obtain ⟨_ | file, hl, hc⟩ := Res.bind_ok hc
  · cases hc
  obtain ⟨ch, hch, hapart⟩ := hfile file hl
  obtain ⟨e, he⟩ := hch.trail
  obtain ⟨u, hu, hc⟩ := Res.bind_ok hc
  simp only [Res.ok.injEq, Prod.mk.injEq, and_true] at hc
  obtain ⟨hug, hud, huc⟩ := freeChain_frame he hu
  obtain ⟨l', rfl⟩ := h.cons
  have hmem : dir.firstCluster ∈ dir.firstCluster :: l' := .head _
  have hidx := h.chain.index _ hmem
  have hon := h.onDevice _ hmem
  have hub := bytes_congr hug
  have husound : Sound u.geom := by rw [hug]; exact h.sound
  have hucont : u.content = v.content := by
    unfold content
    rw [hug, hud]
  have hread : ∀ o, o < v.bytesPerCluster → u.readCluster dir.firstCluster blank o = v.content dir.firstCluster o := by
    intro o ho
    rw [readCluster_on husound (by rwa [hug]) (by rwa [hug]) (by rwa [hub]), hucont]
  have hslot : 32 * file.dirEntry + 1 < v.bytesPerCluster := by
    rw [lookup_eq h] at hl
    obtain ⟨d, -, p, s, hr, rfl⟩ := search_some hl
    have hp : 32 * p < v.bytesPerCluster := (scan_some hr).2.1
    have := h.slots
    show 32 * p + 1 < v.bytesPerCluster
    omega
  have hcontent : ∀ d o, d ∈ dir.firstCluster :: l' → o < v.bytesPerCluster → w.content d o =
      if d = dir.firstCluster then clearTypes (u.readCluster dir.firstCluster blank) file.dirEntry
        (((u.readCluster dir.firstCluster blank (32 * file.dirEntry + 1)).toNat + 1) % 256) o
      else v.content d o := fun d o hd ho => by
    rw [← hc, content_markDirty, content_writeCluster husound (by rwa [hug])
      (by rw [hug]; exact h.chain.index d hd) (by rwa [hub]), hug, hucont]
    simp only [hon, and_true]
  refine ⟨file, hl, by rw [← hc]; simp [hug], fun x hx => ?_, fun o ho => ?_, fun d hd hne o _ ho => ?_⟩
  · rw [← hc, fatCache_markDirty _ (h.chain.index x hx).1, fatCache_writeCluster, huc x (fun hm => hapart x hm hx)]
  · rw [hcontent _ o hmem ho, if_pos rfl, hread _ hslot]
    unfold clearTypes
    rw [hread o ho]
  · rw [hcontent d o hd ho, if_neg hne]

theorem Unlinked.dirState (hu : Unlinked v dir l name w file) (h : DirState v dir l) : DirState w dir l :=
  h.congr hu.geom hu.cache

theorem Unlinked.later (hu : Unlinked v dir (dir.firstCluster :: l) name w file)
    (h : DirState v dir (dir.firstCluster :: l)) (m : Name) : search w dir m l = search v dir m l :=
  search_congr hu.geom h.slots m (fun d hd => hu.others d (.tail _ hd)
    (fun heq => (nodup_cons.1 h.chain.nodup).1 (heq ▸ hd)))

theorem search_ok (hslots : v.bytesPerCluster = 32 * v.slotCount) (m : Name) : ∀ {ls : List Nat},
    (∀ c ∈ ls, ∃ f es, Sets v (v.content c) f es) → ∃ r, search v dir m ls = .ok r
  | [], _ => ⟨none, rfl⟩
  | c :: ls, h => by
    obtain ⟨f, es, hsets⟩ := h c (.head _)
    have hscan := scanCluster_sets hslots hsets m
    cases hfind : findName m es with
    | none =>
      rw [hfind] at hscan
      rw [search_cons_none hscan]
      exact search_ok hslots m (forall_mem_cons.1 h).2
    | some e =>
      rw [hfind] at hscan
      exact ⟨_, search_cons_some hscan⟩

theorem Unlinked.not_gone {f : Nat} {es : List Entry} (hu : Unlinked v dir (dir.firstCluster :: l) name w file)
    (h : DirState v dir (dir.firstCluster :: l)) (hsets : Sets v (v.content dir.firstCluster) f es)
    (hnone : v.scanCluster name dir.firstCluster = .ok none) : ∃ i, w.lookup dir name = .ok (some i) := by
  have hb := bytes_congr hu.geom
  have hsc := slotCount_congr hu.geom
  have hslots := h.slots
  have hfound := hu.found
  rw [lookup_eq h, search_cons_none hnone] at hfound
  have hclear := clearTypes_cleared v (v.content dir.firstCluster) file.dirEntry
    (((v.content dir.firstCluster (32 * file.dirEntry + 1)).toNat + 1) % 256)
  obtain ⟨r, hr⟩ :=
    scan_cleared hclear hsets.1 hsets.2 name (show v.bytesPerCluster ≤ 32 * (0 + (v.slotCount + 1)) by omega)
  have hscan : w.scanCluster name dir.firstCluster = .ok r := by
    unfold scanCluster
    rw [hsc, ← hr]
    exact scan_same hslots (SameFrom.sets (fun o _ ho => hu.cleared o ho)) hb name (le_refl 0)
  rw [lookup_eq (hu.dirState h)]
  rcases r with _ | ⟨q, s⟩
  · exact ⟨file, by rw [search_cons_none hscan, hu.later h, hfound]⟩
  · exact ⟨_, search_cons_some hscan⟩

/-- **The first cluster after the removal of one of its entry sets**: those before it are left. -/
theorem Unlinked.sets {f : Nat} {A B : List Entry} {a : Entry} (hu : Unlinked v dir l name w file)
    (hsets : Sets v (v.content dir.firstCluster) f (A ++ a :: B)) (hslot : file.dirEntry = a.slot) :
    Sets w (w.content dir.firstCluster) a.slot A ∧ ∀ o, o < 32 * a.slot →
      w.content dir.firstCluster o = v.content dir.firstCluster o := by
  have hb := bytes_congr hu.geom
  obtain ⟨hA, count, hset, -⟩ := hsets.1.split
  have hin := hset.inside
  have hsmall := hset.small
  have hbefore : ∀ o, o < 32 * a.slot → w.content dir.firstCluster o = v.content dir.firstCluster o := fun o ho => by
    rw [hu.cleared o (by omega)]
    exact if_neg (by omega)
  refine ⟨⟨hA.same hb (fun o _ ho => hbefore o ho), .inr ?_⟩, hbefore⟩
  rw [hu.cleared _ (by omega), hslot, hset.counted]
  exact if_pos (by omega)

theorem findName_append (m : Name) (A B : List Entry) :
    findName m (A ++ B) = (findName m A).or (findName m B) := List.find?_append ..

theorem findName_cons (m : Name) (a : Entry) (B : List Entry) :
    findName m (a :: B) = if a.name = m then some a else findName m B := by
  unfold findName
  by_cases h : a.name = m
  · simp [h]
  · simp [h]

theorem Unlinked.right_iff {f : Nat} {A B : List Entry} {a : Entry}
    (hu : Unlinked v dir (dir.firstCluster :: l) name w file) (h : DirState v dir (dir.firstCluster :: l))
    (hsets : Sets v (v.content dir.firstCluster) f (A ++ a :: B)) (hname : a.name = name) (hA : findName name A = none)
    (hslot : file.dirEntry = a.slot) (hok : ∃ r, search v dir name l = .ok r) :
    UnlinkRight v w dir name ↔ UnlinkFits v dir (dir.firstCluster :: l) name := by
  obtain ⟨hwsets, hbefore⟩ := hu.sets hsets hslot
  have hw := hu.dirState h
  have hlater := hu.later h
  have hvscan := scanCluster_sets h.slots hsets
  have hwscan := scanCluster_sets hw.slots hwsets
  have hvname : v.scanCluster name dir.firstCluster = .ok (some (a.slot, a.slot + 1)) := by
    rw [hvscan, findName_append, hA, findName_cons, if_pos hname]
    rfl
  have hwname : w.scanCluster name dir.firstCluster = .ok none := by
    rw [hwscan, hA]
    rfl
  obtain ⟨hsetsA, count, hset, hsetsB⟩ := hsets.1.split
  have hgone : (∀ i, w.lookup dir name ≠ .ok (some i)) ↔ search v dir name l = .ok none := by
    rw [lookup_eq hw, search_cons_none hwname, hlater]
    obtain ⟨r, hr⟩ := hok
    rw [hr]
    cases r with
    | none => exact iff_of_true (fun i hc => by cases hc) rfl
    | some i => exact iff_of_false (fun hno => hno i rfl) (nofun)
  constructor
  · rintro ⟨hgo, hkept⟩
    refine ⟨⟨a.slot, a.slot + 1, hvname, fun m q s' hm hlt => ?_⟩, hgone.1 hgo⟩
    have hne : m ≠ name := fun hc => by
      rw [hc, hvname] at hm
      cases hm
      exact absurd hlt (lt_irrefl _)
    -- a name behind the removed entry set is not before it
    have hmA : findName m A = none := by
      cases hf : findName m A with
      | none => rfl
      | some x =>
        rw [hvscan, findName_append, hf] at hm
        cases hm
        obtain ⟨-, k, -, hle⟩ := hsetsA.mem (mem_of_find?_eq_some hf)
        omega
    obtain ⟨i', hi', hcl, hsz⟩ := hkept m _ hne (by rw [lookup_eq h, search_cons_some hm])
    rw [lookup_eq hw, search_cons_none (by rw [hwscan, hmA]; rfl), hlater] at hi'
    exact ⟨i', hi', hcl, hsz⟩
  · rintro ⟨⟨p, s, hp, hbehind⟩, hnone⟩
    rw [hvname] at hp
    cases hp
    refine ⟨hgone.2 hnone, fun m i hne hi => ?_⟩
    rw [lookup_eq h] at hi
    rw [lookup_eq hw]
    cases hfA : findName m A with
    | some x =>
      have hv : v.scanCluster m dir.firstCluster = .ok (some (x.slot, x.slot + 1)) := by
        rw [hvscan, findName_append, hfA]
        rfl
      have hw' : w.scanCluster m dir.firstCluster = .ok (some (x.slot, x.slot + 1)) := by
        rw [hwscan, hfA]
        rfl
      rw [search_cons_some hv] at hi
      cases hi
      obtain ⟨-, k, hxset, hle⟩ := hsetsA.mem (mem_of_find?_eq_some hfA)
      have hpos := hxset.pos
      refine ⟨_, search_cons_some hw', ?_, ?_⟩
      · exact load_congr (fun i hi => hbefore _ (by omega))
      · exact load_congr (fun i hi => hbefore _ (by omega))
    | none =>
      have hw' : w.scanCluster m dir.firstCluster = .ok none := by
        rw [hwscan, hfA]
        rfl
      have hv : v.scanCluster m dir.firstCluster = .ok ((findName m B).map (fun e => (e.slot, e.slot + 1))) := by
        rw [hvscan, findName_append, hfA, findName_cons, if_neg (fun hc => hne (hc.symm.trans hname))]
        rfl
      rw [search_cons_none hw', hlater]
      cases hfB : findName m B with
      | some x =>
        rw [hfB] at hv
        rw [search_cons_some hv] at hi
        cases hi
        have hlt := (hsetsB.mem (mem_of_find?_eq_some hfB)).1
        exact hbehind m x.slot (x.slot + 1) hv (by omega)
      | none =>
        rw [hfB] at hv
        rw [search_cons_none hv] at hi
        exact ⟨i, hi, rfl, rfl⟩

/-- **When a removal is right**, in any directory with well-formed entry sets and for a file that has none of its
clusters. -/
theorem unlinkRight_iff (h : DirState v dir l) (hsets : ∀ c ∈ l, ∃ f es, Sets v (v.content c) f es)
    (hfile : ∀ i, v.lookup dir name = .ok (some i) → ∃ ch, v.Chain i.firstCluster ch ∧ ∀ x ∈ ch, x ∉ l)
    (hc : v.unlink dir name = .ok (w, true)) : UnlinkRight v w dir name ↔ UnlinkFits v dir l name := by
  obtain ⟨file, hu⟩ := unlink_cases h hfile hc
  obtain ⟨l', rfl⟩ := h.cons
  obtain ⟨f, es, hfirst⟩ := hsets _ (.head _)
  have hscan := scanCluster_sets h.slots hfirst name
  cases hfind : findName name es with
  | none =>
    rw [hfind] at hscan
    refine iff_of_false (fun hr => ?_) ?_
    · obtain ⟨i, hi⟩ := hu.not_gone h hfirst hscan
      exact hr.gone i hi
    · rintro ⟨⟨p, s, hp, -⟩, -⟩
      rw [hscan] at hp
      cases hp
  | some a =>
    rw [hfind] at hscan
    obtain ⟨hname, A, B, rfl, hA⟩ := List.find?_eq_some_iff_append.1 hfind
    have hslot : file.dirEntry = a.slot := by
      have hf := hu.found
      rw [lookup_eq h, search_cons_some hscan] at hf
      cases hf
      rfl
    refine hu.right_iff h hfirst (of_decide_eq_true hname) ?_ hslot (search_ok h.slots name (forall_mem_cons.1 hsets).2)
    refine List.find?_eq_none.2 (fun x hx => ?_)
    have := hA x hx
    simpa using this

end

theorem twoFiles_chain : twoFiles.Chain 4 [4] where
  trail := ⟨fatEnd, rfl, by decide, by decide, by decide⟩
  index := by decide
  used := by decide

theorem twoFiles_unlinkRight_iff : ∃ w, twoFiles.unlink smallRoot (Name.ofString "b") = .ok (w, true) ∧
    (UnlinkRight twoFiles w smallRoot (Name.ofString "b") ↔ UnlinkFits twoFiles smallRoot [2] (Name.ofString "b")) := by
  refine ⟨_, rfl, unlinkRight_iff twoFiles_root (fun c hc => ?_) (fun i hi => ?_) rfl⟩
  · rw [mem_singleton.1 hc]
    exact ⟨_, _, twoFiles_sets⟩
  · cases hi
    exact ⟨[4], twoFiles_chain, by decide⟩

/-- Of two files the first is removed, and the second one is not found any more. -/
theorem unlink_first_hides_second : ∃ u₁ i₁ u₂ i₂ w,
    smallVol.createFile smallRoot (Name.ofString "a") = .ok (u₁, some i₁) ∧
    u₁.createFile smallRoot (Name.ofString "b") = .ok (u₂, some i₂) ∧
    u₂.unlink smallRoot (Name.ofString "a") = .ok (w, true) ∧ ¬ UnlinkRight u₂ w smallRoot (Name.ofString "a") := by
  refine ⟨_, _, _, _, _, rfl, rfl, rfl, fun h => ?_⟩
  obtain ⟨i, hi, -⟩ := h.kept (Name.ofString "b") _ (by decide) rfl
  cases hi

end Exfat

end OS64
