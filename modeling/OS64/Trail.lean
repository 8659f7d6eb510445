import OS64.Loop
import Mathlib.Data.List.GetD
import Mathlib.Data.List.Nodup
/-!
# Trail — following links until a stop value

`Trail next stop c l e`: from `c` on, the nodes met by following `next` are `l`, and the first stop value is `e`.  A
loop `while (!stop(c)) { …; c = next(c); }` over a trail is a loop over its list (`trailLoop_eq`).  A trail is finite,
so it never meets a node twice (`Trail.nodup`).
-/
namespace OS64

open List Nat

variable {l l' : List Nat} {k e n c : Nat} {next' : Nat → Nat} {σ α : Type} {body : Nat → σ → σ × Flow α}

def Trail (next : Nat → Nat) (stop : Nat → Bool) : Nat → List Nat → Nat → Prop
  | c, [], e => c = e ∧ stop e = true
  | c, x :: l, e => x = c ∧ stop c = false ∧ Trail next stop (next c) l e

/-- `while (!stop(c)) { body; c = next(c); }`, for at most `turns` turns: the state, the node the loop is left at, and
the value returned from inside, if any. -/
def trailLoop {σ α : Type} (next : Nat → Nat) (stop : Nat → Bool) (body : Nat → σ → σ × Flow α) :
    Nat → Nat → σ → Res (σ × Nat × Option α)
  | 0, c, s => if stop c then .ok (s, c, none) else .hang
  | turns + 1, c, s =>
    if stop c then .ok (s, c, none)
    else
      match body c s with
      | (s', .next) => trailLoop next stop body turns (next c) s'
      | (s', .brk) => .ok (s', c, none)
      | (s', .ret a) => .ok (s', c, some a)

/-- The same loop over a list of nodes with the end value `e`. -/
def listLoop {σ α : Type} (body : Nat → σ → σ × Flow α) : List Nat → Nat → σ → σ × Nat × Option α
  | [], e, s => (s, e, none)
  | c :: l, e, s =>
    match body c s with
    | (s', .next) => listLoop body l e s'
    | (s', .brk) => (s', c, none)
    | (s', .ret a) => (s', c, some a)

theorem getD_mem (hk : k < l.length) : l.getD k 0 ∈ l := by
  rw [getD_eq_getElem _ _ hk]
  exact getElem_mem hk

theorem div_lt_of_lt {a : Nat} (h : a < k * n) : a / n < k := Nat.div_lt_of_lt_mul (Nat.mul_comm k n ▸ h)

/-- The numbers from `p` on that stay in the block of `p`. -/
theorem div_mod_run {p m : Nat} (hroom : p % n + k < n) (hp : p ≤ m) (hm : m ≤ p + k) :
    m / n = p / n ∧ m % n = p % n + (m - p) := by
  have hsplit := mod_add_div p n
  exact (Nat.div_mod_unique (by omega)).2 ⟨by omega, by omega⟩

theorem getD_div_mem {a : Nat} (h : a < l.length * n) : l.getD (a / n) 0 ∈ l := getD_mem (div_lt_of_lt h)

theorem getD_prefix (h : l <+: l') (hk : k < l.length) : l'.getD k 0 = l.getD k 0 := by
  obtain ⟨r, rfl⟩ := h
  exact getD_append _ _ _ _ hk

theorem take_succ_getD (hk : k < l.length) : l.take (k + 1) = l.take k ++ [l.getD k 0] := by
  rw [take_add_one, List.getElem?_eq_getElem hk, getD_eq_getElem _ _ hk]
  rfl

theorem listLoop_next {s s' : σ}
    (h : body c s = (s', .next)) : listLoop body (c :: l) e s = listLoop body l e s' := by
  rw [listLoop, h]

theorem listLoop_ret {s s' : σ} {a : α}
    (h : body c s = (s', .ret a)) : listLoop body (c :: l) e s = (s', c, some a) := by
  rw [listLoop, h]

section
variable {next : Nat → Nat} {stop : Nat → Bool}

theorem trailLoop_eq : ∀ {l : List Nat} {turns c e : Nat} {s : σ},
    Trail next stop c l e → l.length ≤ turns → trailLoop next stop body turns c s = .ok (listLoop body l e s)
  | [], turns, c, e, s, h, _ => by
    obtain ⟨rfl, hs⟩ := h
    cases turns <;> simp [trailLoop, listLoop, hs]
  | x :: l, 0, c, e, s, _, ht => absurd ht (not_succ_le_zero _)
  | x :: l, turns + 1, c, e, s, h, ht => by
    obtain ⟨rfl, hs, hl⟩ := h
    unfold trailLoop listLoop
    rw [hs]
    rcases body x s with ⟨s', _ | _ | a⟩
    · exact trailLoop_eq hl (le_of_succ_le_succ ht)
    · rfl
    · rfl

theorem Trail.start_prefix {c' e' : Nat} (h : Trail next stop c l e)
    (h' : Trail next' stop c' l' e') (hpre : l <+: l') (hne : l ≠ []) : c' = c := by
  obtain ⟨r, rfl⟩ := hpre
  rcases l with _ | ⟨x, l⟩
  · exact absurd rfl hne
  · rw [← h.1, ← h'.1]

theorem Trail.unique : ∀ {l l' : List Nat} {c e e' : Nat}, Trail next stop c l e → Trail next stop c l' e' → l = l'
  | [], [], _, _, _, _, _ => rfl
  | [], _ :: _, _, _, _, h, h' => by
    obtain ⟨rfl, hs⟩ := h
    rw [h'.2.1] at hs
    cases hs
  | _ :: _, [], _, _, _, h, h' => by
    obtain ⟨rfl, hs⟩ := h'
    rw [h.2.1] at hs
    cases hs
  | x :: l, y :: l', _, _, _, h, h' => by rw [h.1, h'.1, Trail.unique h.2.2 h'.2.2]

theorem Trail.split : ∀ {l₁ l₂ : List Nat} {c x e : Nat}, Trail next stop c (l₁ ++ x :: l₂) e →
    Trail next stop x (x :: l₂) e
  | [], _, _, _, _, h => by
    obtain ⟨rfl, hs, hl⟩ := h
    exact ⟨rfl, hs, hl⟩
  | _ :: _, _, _, _, _, h => Trail.split h.2.2

/-- **A trail meets no node twice**: the rest of it after the node would be two different lists. -/
theorem Trail.nodup : ∀ {l : List Nat} {c e : Nat}, Trail next stop c l e → l.Nodup
  | [], _, _, _ => nodup_nil
  | x :: l, c, e, h => by
    refine nodup_cons.2 ⟨fun hx => ?_, Trail.nodup h.2.2⟩
    obtain ⟨l₁, l₂, rfl⟩ := append_of_mem hx
    have hc : Trail next stop x (x :: (l₁ ++ x :: l₂)) e := by
      obtain ⟨rfl, hs, hl⟩ := h
      exact ⟨rfl, hs, hl⟩
    have hlen := congrArg List.length (Trail.unique hc (Trail.split h.2.2))
    simp only [length_cons, length_append] at hlen
    omega

theorem Trail.congr : ∀ {l : List Nat} {c e : Nat}, (∀ x ∈ l, next' x = next x) →
    Trail next stop c l e → Trail next' stop c l e
  | [], _, _, _, h => h
  | x :: l, c, e, hn, h => by
    obtain ⟨rfl, hs, hl⟩ := h
    refine ⟨rfl, hs, ?_⟩
    rw [hn x (.head _)]
    exact Trail.congr (forall_mem_cons.1 hn).2 hl

theorem Trail.join {b z e' : Nat} (hz : next' z = b)
    (h' : Trail next' stop b l' e') : ∀ {l : List Nat} {c : Nat}, (∀ x ∈ l, x ≠ z → next' x = next x) →
    Trail next stop c (l ++ [z]) e → Trail next' stop c (l ++ [z] ++ l') e'
  | [], c, _, h => by
    obtain ⟨rfl, hs, -⟩ := h
    refine ⟨rfl, hs, ?_⟩
    rwa [hz]
  | x :: l, c, hn, h => by
    have hxz : x ≠ z := fun hc => by
      subst hc
      exact (nodup_cons.1 h.nodup).1 (by simp)
    obtain ⟨rfl, hs, hl⟩ := h
    refine ⟨rfl, hs, ?_⟩
    rw [hn x mem_cons_self hxz]
    exact Trail.join hz h' (forall_mem_cons.1 hn).2 hl

/-- A list up to its first member with `p`, that one included. -/
def upTo (p : Nat → Bool) : List Nat → List Nat
  | [] => []
  | x :: l => if p x then [x] else x :: upTo p l

theorem upTo_prefix (p : Nat → Bool) : ∀ l, upTo p l <+: l
  | [] => prefix_rfl
  | x :: l => by
    unfold upTo
    split
    · exact ⟨l, rfl⟩
    · obtain ⟨r, hr⟩ := upTo_prefix p l
      exact ⟨r, by rw [cons_append, hr]⟩

theorem lt_length_upTo {p : Nat → Bool} : ∀ {l : List Nat} {k : Nat}, k < l.length →
    (k < (upTo p l).length ↔ ∀ i, i < k → p (l.getD i 0) = false)
  | x :: l, 0, _ => by
    unfold upTo
    split <;> simp
  | x :: l, k + 1, hk => by
    unfold upTo
    by_cases hx : p x = true
    · rw [if_pos hx]
      refine iff_of_false (by simp) (fun h => ?_)
      have h0 := h 0 (succ_pos k)
      rw [getD_cons_zero, hx] at h0
      cases h0
    rw [if_neg hx, length_cons, succ_lt_succ_iff, lt_length_upTo (lt_of_succ_lt_succ hk)]
    constructor
    · rintro h (_ | i) hi
      · simpa using hx
      · exact h i (lt_of_succ_lt_succ hi)
    · exact fun h i hi => h (i + 1) (succ_lt_succ hi)

theorem Trail.upTo {p : Nat → Bool} {b : Nat} (hb : stop b = true) : ∀ {l : List Nat} {c e : Nat},
    (∀ x ∈ l, next' x = if p x then b else next x) → Trail next stop c l e → ∃ e', Trail next' stop c (OS64.upTo p l) e'
  | [], c, e, _, h => ⟨e, h⟩
  | x :: l, c, e, hn, h => by
    obtain ⟨rfl, hs, hl⟩ := h
    have hx := hn x (.head _)
    unfold OS64.upTo
    by_cases hp : p x = true
    · rw [if_pos hp] at hx ⊢
      exact ⟨b, rfl, hs, hx, hb⟩
    · rw [if_neg hp] at hx ⊢
      obtain ⟨e', he⟩ := Trail.upTo hb (forall_mem_cons.1 hn).2 hl
      exact ⟨e', rfl, hs, by rwa [hx]⟩

end

end OS64
