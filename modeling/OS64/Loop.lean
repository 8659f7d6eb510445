import Mathlib.Logic.Basic
/-!
# Loop — how calls end, and counted loops with `break` and `return`

A call that may panic or may not come back at all is a `Res`.

A C `for` over a counter is `forLoop`: the body gets the counter and the state and says whether the loop goes on, is
left by a `break`, or the whole function returns.  `forLoop_rule` is its proof rule: an invariant of the loop head,
what holds after the loop, and what holds of a value returned from inside.
-/
namespace OS64

variable {α σ β : Type} {E : σ → Prop}

/-- How a call ends: with a result, in `panic`, or not at all. -/
inductive Res (α : Type) where
  | ok (a : α)
  | panic (msg : String)
  | hang

namespace Res

def bind {α β : Type} : Res α → (α → Res β) → Res β
  | ok a, f => f a
  | panic msg, _ => panic msg
  | hang, _ => hang

instance : Monad Res where
  pure := ok
  bind := bind

@[simp] theorem ok_bind (a : α) (f : α → Res β) : (ok a >>= f) = f a := rfl

@[simp] theorem panic_bind (msg : String) (f : α → Res β) : (panic msg >>= f) = panic msg := rfl

@[simp] theorem pure_eq (a : α) : (pure a : Res α) = ok a := rfl

theorem bind_ok {x : Res α} {f : α → Res β} {b : β} (h : x.bind f = ok b) :
    ∃ a, x = ok a ∧ f a = ok b := by
  cases x with
  | ok a => exact ⟨a, rfl, h⟩
  | panic msg => cases h
  | hang => cases h

theorem bind_assoc {γ : Type} (x : Res α) (f : α → Res β) (g : β → Res γ) :
    (x.bind f).bind g = x.bind (fun a => (f a).bind g) := by
  cases x <;> rfl

section
variable {α β : Type} {P : String → Prop}

/-- If the call panics, then with a message in `P`. -/
def Panics (P : String → Prop) (x : Res α) : Prop := ∀ msg, x = panic msg → P msg

theorem Panics.ok (a : α) : (ok a).Panics P := fun _ h => by cases h

theorem Panics.hang : (hang : Res α).Panics P := fun _ h => by cases h

theorem Panics.panic {msg : String} (h : P msg) : (panic msg : Res α).Panics P := fun _ hp => by
  cases hp
  exact h

theorem Panics.bind {x : Res α} {f : α → Res β} (hx : x.Panics P) (hf : ∀ a, x = .ok a → (f a).Panics P) :
    (x.bind f).Panics P := by
  cases x with
  | ok a => exact hf a rfl
  | panic msg => exact .panic (hx msg rfl)
  | hang => exact .hang

end

end Res

inductive Flow (α : Type) where
  | next
  | brk
  | ret (a : α)

/-- `n` turns of `body`, the counter starting at `i`.  The value is the one returned from inside, if any. -/
def forLoop {σ α : Type} (body : Nat → σ → σ × Flow α) : Nat → Nat → σ → σ × Option α
  | 0, _, s => (s, none)
  | n + 1, i, s =>
    match body i s with
    | (s', .next) => forLoop body n (i + 1) s'
    | (s', .brk) => (s', none)
    | (s', .ret a) => (s', some a)

/-- What a loop leaves: `E` when it ran to its end or was left by `break`, `Q` when it returned. -/
def LoopPost {σ α : Type} (E : σ → Prop) (Q : σ → α → Prop) (r : σ × Option α) : Prop :=
  (r.2 = none → E r.1) ∧ ∀ a, r.2 = some a → Q r.1 a

/-- What one turn leaves: the invariant of the next turn, or one of the two ends. -/
def BodyPost {σ α : Type} (I E : σ → Prop) (Q : σ → α → Prop) (r : σ × Flow α) : Prop :=
  match r.2 with
  | .next => I r.1
  | .brk => E r.1
  | .ret a => Q r.1 a

@[elab_as_elim]
theorem LoopPost.cases {Q : σ → α → Prop} {motive : σ × Option α → Prop} {r : σ × Option α}
    (h : LoopPost E Q r) (hend : ∀ s, E s → motive (s, none)) (hret : ∀ s a, Q s a → motive (s, some a)) :
      motive r := by
  rcases r with ⟨s, _ | a⟩
  · exact hend s (h.1 rfl)
  · exact hret s a (h.2 a rfl)

theorem LoopPost.state {r : σ × Option α} (h : LoopPost E (fun s _ => E s) r) : E r.1 :=
  h.cases (fun _ hs => hs) (fun _ _ hs => hs)

/-- **The invariant rule**: an invariant of every loop head that the body carries on, or trades for one of the ends,
gives the loop's end. -/
theorem forLoop_rule {f : Nat → σ → σ × Flow α} (I : Nat → σ → Prop)
    {Q : σ → α → Prop} : ∀ (n i : Nat) (s : σ), I i s → (∀ s, I (i + n) s → E s) →
      (∀ j s, i ≤ j → j < i + n → I j s → BodyPost (I (j + 1)) E Q (f j s)) → LoopPost E Q (forLoop f n i s)
  | 0, i, s, h0, hend, _ => ⟨fun _ => hend s h0, fun a ha => by cases ha⟩
  | n + 1, i, s, h0, hend, hf => by
    have hb := hf i s (Nat.le_refl i) (by omega) h0
    unfold forLoop
    revert hb
    rcases f i s with ⟨s', _ | _ | a⟩
    · intro hb
      exact forLoop_rule I n (i + 1) s' hb (fun s hs => hend s (by rwa [Nat.add_right_comm i 1 n] at hs))
        (fun j s hj hj' => hf j s (by omega) (by omega))
    · intro hb
      exact ⟨fun _ => hb, fun a ha => by cases ha⟩
    · intro hb
      refine ⟨fun hn => (by cases hn), fun b hb' => ?_⟩
      obtain rfl : a = b := Option.some.inj hb'
      exact hb

theorem forLoop_keeps {f : Nat → σ → σ × Flow α} {P : σ → Prop} (hf : ∀ j s, P s → P (f j s).1) :
    ∀ (n i : Nat) (s : σ), P s → P (forLoop f n i s).1
  | 0, _, _, h => h
  | n + 1, i, s, h => by
    have hb := hf i s h
    unfold forLoop
    revert hb
    rcases f i s with ⟨s', _ | _ | a⟩
    · exact forLoop_keeps hf n (i + 1) s'
    · exact id
    · exact id

theorem forLoop_map {τ : Type} {f : Nat → σ → σ × Flow α} {g : Nat → τ → τ × Flow α} (p : τ → σ)
    (h : ∀ j t, f j (p t) = (p (g j t).1, (g j t).2)) :
    ∀ (n i : Nat) (t : τ), forLoop f n i (p t) = (p (forLoop g n i t).1, (forLoop g n i t).2)
  | 0, _, _ => rfl
  | n + 1, i, t => by
    unfold forLoop
    rw [h]
    rcases g i t with ⟨t', _ | _ | a⟩
    · exact forLoop_map p h n (i + 1) t'
    · rfl
    · rfl

end OS64
