import Mathlib.Data.List.ReduceOption
/-!
# Keyboard — the ring of typed characters (`drivers/ps2kbd/ps2kbd.c`)

The interrupt handler puts characters into a ring of 256 bytes, `kbd_getchar` takes them out; one place of the ring
always stays free.  Both run with interrupts off, so an interleaving is a sequence of whole calls.  The ring is a queue
of at most 255 characters that drops the newest one when it is full (`keyboard_fifo`).
-/
namespace OS64

open Function List

/-- The ring has `KBD_BUF_SIZE` = 256 places. -/
structure Keyboard where
  canType : Bool
  buf : Nat → BitVec 8
  head : Nat
  tail : Nat
  head_lt : head < 256
  tail_lt : tail < 256

inductive KbdOp where
  | push (c : BitVec 8)
  | getchar

namespace Keyboard

def kbdBufferPush (k : Keyboard) (c : BitVec 8) : Keyboard :=
  if (k.head + 1) % 256 ≠ k.tail then
    { k with buf := update k.buf k.head c, head := (k.head + 1) % 256, head_lt := Nat.mod_lt _ (by decide) }
  else k

/-- `kbd_getchar`, `none` for `-1`. -/
def kbdGetchar (k : Keyboard) : Keyboard × Option (BitVec 8) :=
  if k.canType = false then (k, none)
  else if k.head = k.tail then (k, none)
  else ({ k with tail := (k.tail + 1) % 256, tail_lt := Nat.mod_lt _ (by decide) }, some (k.buf k.tail))

def step (k : Keyboard) : KbdOp → Keyboard × Option (BitVec 8)
  | .push c => (k.kbdBufferPush c, none)
  | .getchar => k.kbdGetchar

def chars (k : Keyboard) : List (BitVec 8) :=
  (List.range ((k.head + 256 - k.tail) % 256)).map (fun i => k.buf ((k.tail + i) % 256))

end Keyboard

/-- **A queue of at most 255 characters.** -/
structure KeyQueue where
  chars : List (BitVec 8)
  fits : chars.length ≤ 255

namespace KeyQueue

def push (q : KeyQueue) (c : BitVec 8) : KeyQueue :=
  if h : q.chars.length < 255 then ⟨q.chars ++ [c], by rwa [List.length_append]⟩ else q

def step (q : KeyQueue) : KbdOp → KeyQueue × Option (BitVec 8)
  | .push c => (q.push c, none)
  | .getchar => (⟨q.chars.tail, by have := q.fits; rw [List.length_tail]; omega⟩, q.chars.head?)

def accepted (q : KeyQueue) : List KbdOp → List (BitVec 8)
  | [] => []
  | .push c :: ops => (if q.chars.length < 255 then [c] else []) ++ accepted (q.push c) ops
  | .getchar :: ops => accepted (q.step .getchar).1 ops

end KeyQueue

/-- The state after some calls, and what each of them returned. -/
def runCalls {σ : Type} (step : σ → KbdOp → σ × Option (BitVec 8)) : List KbdOp → σ → σ × List (Option (BitVec 8))
  | [], s => (s, [])
  | op :: ops, s => ((runCalls step ops (step s op).1).1, (step s op).2 :: (runCalls step ops (step s op).1).2)

namespace Keyboard

variable {k : Keyboard}

def queue (k : Keyboard) : KeyQueue :=
  ⟨k.chars, by rw [chars, List.length_map, List.length_range]; omega⟩

theorem chars_push (c : BitVec 8) : (k.kbdBufferPush c).queue = k.queue.push c := by
  have hh := k.head_lt
  have ht := k.tail_lt
  have hlen : k.queue.chars.length = (k.head + 256 - k.tail) % 256 := by
    simp only [queue, chars, length_map, length_range]
  unfold kbdBufferPush KeyQueue.push
  by_cases hroom : (k.head + 1) % 256 ≠ k.tail
  · rw [if_pos hroom, dif_pos (by omega)]
    -- one place more, filled with the new character; the others are not the head
    have hnext : ((k.head + 1) % 256 + 256 - k.tail) % 256 = (k.head + 256 - k.tail) % 256 + 1 := by omega
    have hlast : (k.tail + (k.head + 256 - k.tail) % 256) % 256 = k.head := by omega
    simp only [queue, chars, hnext, range_succ, map_append, map_singleton, hlast, update_self]
    congr 2
    refine map_congr_left (fun i hi => update_of_ne ?_ ..)
    have := mem_range.1 hi
    omega
  · rw [if_neg hroom, dif_neg (by omega)]

theorem chars_getchar (h : k.canType = true) :
    k.kbdGetchar.1.queue = (k.queue.step .getchar).1 ∧ k.kbdGetchar.2 = (k.queue.step .getchar).2 := by
  have hh := k.head_lt
  have ht := k.tail_lt
  unfold kbdGetchar
  rw [if_neg (by rw [h]; decide)]
  by_cases hempty : k.head = k.tail
  · have hnil : k.chars = [] := by
      rw [chars, hempty, Nat.add_sub_cancel_left]
      rfl
    rw [if_pos hempty]
    simp only [queue, KeyQueue.step, hnil, tail_nil, List.head?_nil, and_self]
  have hcons : k.chars = k.buf k.tail ::
      (List.range (((k.head + 256 - k.tail) % 256) - 1)).map (fun i => k.buf (((k.tail + 1) % 256 + i) % 256)) := by
    obtain ⟨n, hn⟩ := Nat.exists_eq_succ_of_ne_zero (show (k.head + 256 - k.tail) % 256 ≠ 0 by omega)
    rw [chars, hn, range_succ_eq_map, map_cons, map_map, Nat.add_zero, Nat.mod_eq_of_lt ht]
    refine congrArg _ (map_congr_left (fun i _ => congrArg k.buf ?_))
    omega
  have hone : (k.head + 256 - (k.tail + 1) % 256) % 256 = (k.head + 256 - k.tail) % 256 - 1 := by omega
  rw [if_neg hempty]
  simp only [queue, KeyQueue.step, hcons, tail_cons, List.head?_cons, and_true]
  simp only [chars, hone]

theorem canType_step (op : KbdOp) : (k.step op).1.canType = k.canType := by
  cases op with
  | push c => simp only [step, kbdBufferPush]; split <;> rfl
  | getchar => simp only [step, kbdGetchar]; split <;> [rfl; (split <;> rfl)]

/-- **One call** does to the ring what it does to the queue. -/
theorem step_queue (h : k.canType = true) (op : KbdOp) :
    (k.step op).1.queue = (k.queue.step op).1 ∧ (k.step op).2 = (k.queue.step op).2 := by
  cases op with
  | push c => exact ⟨chars_push c, rfl⟩
  | getchar => exact chars_getchar h

end Keyboard

theorem KeyQueue.step_accepted (q : KeyQueue) (op : KbdOp) (ops : List KbdOp) :
    q.chars ++ q.accepted (op :: ops) = (q.step op).2.toList ++ (q.step op).1.chars ++ (q.step op).1.accepted ops := by
  cases op with
  | push c =>
    by_cases h : q.chars.length < 255
    · simp [accepted, step, push, h]
    · simp [accepted, step, push, h]
  | getchar => cases hq : q.chars <;> simp [accepted, step, hq]

/-- **The keyboard's ring is a queue**: after any calls it holds what the queue holds, every call returns what the
queue's does, and the characters that were there and those that found room are those returned, in order, and those
left. -/
theorem keyboard_fifo (ops : List KbdOp) (k : Keyboard) (htype : k.canType = true) :
    (runCalls Keyboard.step ops k).2 = (runCalls KeyQueue.step ops k.queue).2 ∧
      (runCalls Keyboard.step ops k).1.queue = (runCalls KeyQueue.step ops k.queue).1 ∧
      k.chars ++ k.queue.accepted ops =
        (runCalls Keyboard.step ops k).2.reduceOption ++ (runCalls Keyboard.step ops k).1.chars := by
  induction ops generalizing k with
  | nil => exact ⟨rfl, rfl, append_nil _⟩
  | cons op ops ih =>
    obtain ⟨hq, hout⟩ := k.step_queue htype op
    obtain ⟨h1, h2, h3⟩ := ih (k.step op).1 ((k.canType_step op).trans htype)
    rw [hq] at h1 h2 h3
    refine ⟨?_, h2, ?_⟩
    · simp only [runCalls, h1, hout]
    have hfirst := k.queue.step_accepted op ops
    have hchars : (k.step op).1.chars = (k.queue.step op).1.chars := congrArg KeyQueue.chars hq
    rw [hchars] at h3
    rw [show k.chars = k.queue.chars from rfl, hfirst, append_assoc, h3]
    simp only [runCalls, hout]
    cases (k.queue.step op).2 <;> rfl

def freshKeyboard : Keyboard := ⟨true, fun _ => 0#8, 0, 0, by decide, by decide⟩

theorem freshKeyboard_fifo :
    (runCalls Keyboard.step [.push 0x61#8, .push 0x62#8, .getchar] freshKeyboard).2 = [none, none, some 0x61#8] ∧
      freshKeyboard.chars ++ freshKeyboard.queue.accepted [.push 0x61#8, .push 0x62#8, .getchar] =
        [0x61#8] ++ (runCalls Keyboard.step [.push 0x61#8, .push 0x62#8, .getchar] freshKeyboard).1.chars :=
  ⟨rfl, (keyboard_fifo [.push 0x61#8, .push 0x62#8, .getchar] freshKeyboard rfl).2.2⟩

end OS64
