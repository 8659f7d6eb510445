import OS64.FatEntry
/-!
# Strtok — `strtok_r` and `strchr` of `libk/string.c`, on memory

The string is cut where it lies: a call moves the saved pointer and turns the delimiter behind the token into a NUL.
`Splits` says what a first call with the string and any number of calls with NULL return: the runs without a delimiter,
then NULL.  A loop that meets no end within `fuel` bytes does not come back.
-/
namespace OS64
namespace CString

open List Nat

/-- `strchr`: the string from the first `c` on; the NUL at its end is found as well. -/
def strchr : Name → BitVec 8 → Option Name
  | [], c => if c = 0#8 then some [] else none
  | b :: s, c => if b = c then some (b :: s) else strchr s c

/-- `while (*p && go(*p)) p++`. -/
def scan (go : BitVec 8 → Bool) (m : Mem) : Nat → Nat → Res Nat
  | 0, _ => .hang
  | fuel + 1, p => if m p ≠ 0#8 ∧ go (m p) then scan go m fuel (p + 1) else .ok p

def strtokR (fuel : Nat) (delim : Name) (str : Nat) (m : Mem) (saveptr : Nat) : Res (Nat × Mem × Nat) :=
  let saveptr := if str ≠ 0 then str else saveptr
  if saveptr = 0 then .ok (0, m, saveptr)
  else do
    let start ← scan (fun c => (strchr delim c).isSome) m fuel saveptr
    if m start = 0#8 then .ok (0, m, 0)
    else do
      let p ← scan (fun c => (strchr delim c).isNone) m fuel start
      if m p ≠ 0#8 then .ok (start, store m p 1 0, p + 1) else .ok (start, m, 0)

/-- The pointers that `n` calls return, the first with `str` and the others with NULL, and the memory after them. -/
def calls (fuel : Nat) (delim : Name) : Nat → Nat → Mem → Nat → Res (List Nat × Mem)
  | 0, _, m, _ => .ok ([], m)
  | n + 1, str, m, saveptr => do
    let r ← strtokR fuel delim str m saveptr
    let rest ← calls fuel delim n 0 r.2.1 r.2.2
    .ok (r.1 :: rest.1, rest.2)

/-! ## The strings and their runs -/

/-- The NUL-terminated string at `p`. -/
def Str (m : Mem) : Nat → Name → Prop
  | p, [] => m p = 0#8
  | p, b :: s => m p = b ∧ b ≠ 0#8 ∧ Str m (p + 1) s

/-- Where pieces with one byte between them begin, the first at `x`. -/
def placed : Nat → List Name → List (Nat × Name)
  | _, [] => []
  | x, t :: ts => (x, t) :: placed (x + t.length + 1) ts

/-- The maximal runs without a delimiter of the string `s` at `x`, the empty ones left out, each with its address. -/
def runs (delim : Name) (x : Nat) (s : Name) : List (Nat × Name) :=
  (placed x (s.splitOnP delim.contains)).filter (fun r => decide (r.2 ≠ []))

def runsOf (delim : Name) (o : Option (Nat × Name)) : List (Nat × Name) := o.elim [] (fun r => runs delim r.1 r.2)

/-- The string that a pointer stands for, between `a` and `b`, with its NUL at `b` at most; NULL stands for none. -/
def Points (m : Mem) (a b p : Nat) : Option (Nat × Name) → Prop
  | none => p = 0
  | some (x, s) => p = x ∧ a ≤ p ∧ p + s.length ≤ b ∧ Str m p s

/-- Only delimiters between `a` and `b` have changed, to NUL. -/
def Cut (delim : Name) (a b : Nat) (m m' : Mem) : Prop :=
  ∀ x, m' x = m x ∨ a ≤ x ∧ x < b ∧ m x ∈ delim ∧ m' x = 0#8

/-- `n` calls return the addresses of the runs in order, each run ended by a NUL where it lies, and then NULL. -/
def Splits (fuel : Nat) (delim : Name) (n str : Nat) (m : Mem) (saveptr a b : Nat) (rs : List (Nat × Name)) : Prop :=
  ∃ qs m', calls fuel delim n str m saveptr = .ok (qs, m') ∧ qs.length = n ∧
    (∀ (i q : Nat), qs[i]? = some q → Points m' a b q rs[i]?) ∧ Cut delim a b m m'

variable {m m' : Mem} {delim s r : Name} {o : Option (Nat × Name)} {fuel a b p q : Nat}

theorem Str.congr : ∀ {t : Name} {p : Nat}, Str m p t → (∀ x, p ≤ x → x ≤ p + t.length → m' x = m x) → Str m' p t
  | [], p, h, hm => (hm p (le_refl p) (le_refl p)).trans h
  | b :: t, p, h, hm => by
    refine ⟨(hm p (le_refl p) (by omega)).trans h.1, h.2.1, h.2.2.congr (fun x h1 h2 => hm x (by omega) ?_)⟩
    rw [length_cons]
    omega

theorem Str.cut {d : BitVec 8} : ∀ {t : Name} {p : Nat}, Str m p (t ++ d :: r) → Str (store m (p + t.length) 1 0) p t
  | [], p, _ => store_byte m p 0
  | b :: t, p, h => by
    rw [length_cons, add_comm t.length, ← add_assoc]
    exact ⟨(store_apart m (by omega)).trans h.1, h.2.1, h.2.2.cut⟩

theorem Points.mono {a' b' : Nat} (h : Points m a b p o) (ha : a' ≤ a) (hb : b ≤ b') : Points m a' b' p o := by
  cases o with
  | none => exact h
  | some r => exact ⟨h.1, le_trans ha h.2.1, le_trans h.2.2.1 hb, h.2.2.2⟩

theorem strchr_isSome {c : BitVec 8} (hc : c ≠ 0#8) : ∀ s : Name, (strchr s c).isSome = s.contains c
  | [] => by simp [strchr, hc]
  | b :: s => by
    have ih := strchr_isSome hc s
    unfold strchr
    by_cases hb : b = c
    · simp [hb]
    · simp [hb, ih, Ne.symm hb]

/-- A loop over the string at `p` splits it behind the bytes that it goes over. -/
theorem scan_split {go f : BitVec 8 → Bool} (hgo : ∀ c, c ≠ 0#8 → go c = f c) : ∀ {s : Name} {fuel p : Nat}, Str m p s →
    s.length < fuel → ∃ w u, s = w ++ u ∧ (∀ b ∈ w, f b) ∧ (∀ b ∈ u.head?, f b = false) ∧ Str m (p + w.length) u ∧
      scan go m fuel p = .ok (p + w.length)
  | [], fuel + 1, p, h, _ => ⟨[], [], rfl, by simp, by simp, h, if_neg (fun hc => hc.1 h)⟩
  | b :: s, fuel + 1, p, h, hf => by
    obtain ⟨hb, h0, hs⟩ := id h
    unfold scan
    rw [hb, hgo b h0]
    cases hfb : f b with
    | false => exact ⟨[], b :: s, rfl, by simp, by simpa using hfb, h, if_neg (by simp)⟩
    | true =>
      obtain ⟨w, u, rfl, hw, hu, hstr, hscan⟩ := scan_split hgo hs (lt_of_succ_lt_succ hf)
      have hlen : p + (b :: w).length = p + 1 + w.length := by rw [length_cons]; omega
      refine ⟨b :: w, u, rfl, forall_mem_cons.2 ⟨hfb, hw⟩, hu, by rwa [hlen], ?_⟩
      rw [if_pos ⟨h0, rfl⟩, hscan, hlen]

/-! ## One call -/

theorem runs_skip : ∀ {w : Name} {x : Nat}, (∀ b ∈ w, b ∈ delim) → runs delim x (w ++ s) = runs delim (x + w.length) s
  | [], _, _ => rfl
  | d :: w, x, h => by
    obtain ⟨hd, hw⟩ := forall_mem_cons.1 h
    have := @splitOnP_append_cons_of_forall_mem _ delim.contains [] (by simp) d (by simpa) (w ++ s)
    rw [length_cons, add_comm w.length, ← add_assoc, ← runs_skip hw, runs, cons_append, ← nil_append (d :: _), this]
    rfl

/-- **What one call does**: it returns the first run, and leaves the others to the calls that follow, which start behind
the NUL at `c`. -/
theorem strtokR_step (delim : Name) (h : Points m a b p o) (ha : 0 < a) (hf : b < a + fuel) :
    ∃ q m' p' c o', strtokR fuel delim 0 m p = .ok (q, m', p') ∧ a ≤ c ∧ Points m' (c + 1) b p' o' ∧
      (∀ m'', (∀ x, x ≤ c → m'' x = m' x) → Points m'' a b q (runsOf delim o).head?) ∧
      runsOf delim o' = (runsOf delim o).tail ∧ Cut delim a b m m' ∧ ∀ x, c < x → m' x = m x := by
  have hsome : ∀ c, c ≠ 0#8 → (strchr delim c).isSome = delim.contains c := fun c hc => strchr_isSome hc delim
  have hnone : ∀ c, c ≠ 0#8 → (strchr delim c).isNone = !delim.contains c := fun c hc => by
    rw [← strchr_isSome hc, Option.not_isSome]
  have hsame : ∀ c, Cut delim a b m m ∧ ∀ x, c < x → m x = m x := fun c => ⟨fun x => .inl rfl, fun x _ => rfl⟩
  unfold strtokR
  rw [if_neg (not_not.2 rfl)]
  cases o with
  | none =>
    obtain rfl : p = 0 := h
    exact ⟨0, m, 0, a, none, if_pos rfl, le_refl a, rfl, fun _ _ => rfl, rfl, hsame a⟩
  | some r =>
    obtain ⟨x, s⟩ := r
    obtain ⟨rfl, hap, hpb, hs⟩ := h
    obtain ⟨w, u, rfl, hw, hu, hstr, hscan⟩ := scan_split hsome hs (by omega : _ < fuel)
    rw [if_neg (by omega), hscan, Res.ok_bind, runsOf, Option.elim_some, runs_skip (fun b hb => by simpa using hw b hb)]
    rw [length_append] at hpb
    cases u with
    | nil => exact ⟨0, m, 0, a, none, if_pos hstr, le_refl a, rfl, fun _ _ => rfl, rfl, hsame a⟩
    | cons c u =>
      obtain ⟨t, v, htv, ht, hd, hrest, hscan'⟩ := scan_split hnone hstr (by omega : _ < fuel)
      have hfree : ∀ c ∈ t, delim.contains c = false := fun c hc => by simpa using ht c hc
      have hne : t ≠ [] := fun h0 => by
        subst h0 htv
        have := hd c rfl
        rw [hu c rfl] at this
        cases this
      rw [if_neg (fun h0 => hstr.2.1 (hstr.1.symm.trans h0)), hscan']
      rw [htv] at hstr hpb ⊢
      cases v with
      | nil =>
        rw [append_nil] at hstr hpb ⊢
        rw [runs, splitOnP_eq_singleton hfree, placed, filter_cons_of_pos (by simpa)]
        refine ⟨_, m, 0, b, none, if_neg (not_not.2 hrest), by omega, rfl, fun m'' hm => ?_, rfl, hsame b⟩
        exact ⟨rfl, by omega, by omega, hstr.congr (fun x _ hx => hm x (by omega))⟩
      | cons d r =>
        have hdelim : d ∈ delim := by simpa using hd d rfl
        rw [runs, splitOnP_append_cons_of_forall_mem hfree d (by simpa), placed, filter_cons_of_pos (by simpa)]
        rw [length_append, length_cons] at hpb
        refine ⟨_, _, _, p + w.length + t.length, some (_, r), if_pos (fun h0 => hrest.2.1 (hrest.1.symm.trans h0)),
          by omega,
          ⟨rfl, le_refl _, by omega, ?_⟩, fun m'' hm => ?_, rfl, fun x => ?_, fun x hx => store_apart m (by omega)⟩
        · exact hrest.2.2.congr (fun x hx _ => store_apart m (by omega))
        · exact ⟨rfl, by omega, by omega, hstr.cut.congr (fun x _ hx => hm x hx)⟩
        · by_cases hx : x = p + w.length + t.length
          · rw [hx, store_byte, hrest.1]
            exact .inr ⟨by omega, by omega, hdelim, rfl⟩
          · exact .inl (store_apart m (by omega))

/-! ## All calls -/

theorem calls_saved (delim : Name) : ∀ (n : Nat) {m : Mem} {a p : Nat} {o : Option (Nat × Name)}, Points m a b p o →
    0 < a → b < a + fuel → Splits fuel delim n 0 m p a b (runsOf delim o)
  | 0, m, _, _, _, _, _, _ => ⟨[], m, rfl, rfl, fun i q h => by simp at h, fun x => .inl rfl⟩
  | n + 1, m, a, p, o, h, ha, hf => by
    obtain ⟨q, m', p', c, o', hcall, hac, hsaved, htok, htail, hcut, hsame⟩ := strtokR_step delim h ha hf
    obtain ⟨qs, m'', hcalls, hn, hqs, hcut'⟩ := calls_saved delim n hsaved (succ_pos c) (by omega)
    refine ⟨q :: qs, m'', by rw [calls, hcall, Res.ok_bind, hcalls]; rfl, congrArg (· + 1) hn, fun i q' hi => ?_,
      fun x => ?_⟩
    · cases i with
      | zero =>
        cases hi
        rw [← head?_eq_getElem?]
        exact htok m'' (fun x hx => (hcut' x).resolve_right (by omega))
      | succ i =>
        rw [← getElem?_tail, ← htail]
        exact (hqs i q' hi).mono (by omega) (le_refl b)
    · obtain hx | ⟨hc, hb, hx⟩ := hcut' x
      · rw [hx]
        exact hcut x
      · rw [hsame x hc] at hx
        exact .inr ⟨by omega, hb, hx⟩

/-- **The calls return the runs**: the `i`-th call returns where the `i`-th maximal non-empty run without a delimiter
begins, and NULL behind the last one. -/
theorem strtok_runs {str : Nat} (hstr : 0 < str) (h : Str m str s) (hf : s.length < fuel) (delim : Name)
    (saveptr n : Nat) : Splits fuel delim n str m saveptr str (str + s.length) (runs delim str s) := by
  have hsaved : Splits fuel delim n 0 m str str (str + s.length) (runs delim str s) :=
    calls_saved delim n (o := some (str, s)) ⟨rfl, le_refl _, le_refl _, h⟩ hstr (by omega)
  obtain ⟨qs, m', hcalls, hrest⟩ := hsaved
  refine ⟨qs, m', ?_, hrest⟩
  cases n with
  | zero => exact hcalls
  | succ n => rw [← hcalls, calls, calls, strtokR, strtokR, if_pos hstr.ne', if_neg (not_not.2 rfl)]

/-- `",a"` at address 8. -/
def commaMem : Mem := fun x => [44#8, 97#8].getD (x - 8) 0#8

theorem commaMem_str : Str commaMem 8 [44#8, 97#8] := ⟨rfl, by decide, rfl, by decide, rfl⟩

theorem commaMem_runs : runs [44#8] 8 [44#8, 97#8] = [(9, [97#8])] ∧
    Splits 3 [44#8] 2 8 commaMem 0 8 10 (runs [44#8] 8 [44#8, 97#8]) :=
  ⟨by decide, strtok_runs (by decide) commaMem_str (by decide) [44#8] 0 2⟩

end CString
end OS64
