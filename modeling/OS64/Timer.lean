import Mathlib.Data.Nat.Find
import OS64.Word
/-!
# Timer — the APIC timer interrupt and the loops that wait on its ticks (`kernel/time`)

The handler counts ticks to 999 and starts again at 0, counting a second.  Waits take a difference of two readings: the
count starting over makes it a huge unsigned number, or keeps it below 1000 for ever.  `ticks_iff`, `sleep_iff` and
`expires_iff` say when that shows.
-/
namespace OS64

open Nat

structure ClockTime where
  hh : Nat
  mm : Nat
  ss : Nat
  epoch : Nat

def clockTick (c : ClockTime) : ClockTime :=
  let c := { c with ss := (c.ss + 1) % 256, epoch := u32 (c.epoch + 1) }
  if c.ss ≥ 60 then
    let c := { c with ss := 0, mm := (c.mm + 1) % 256 }
    if c.mm ≥ 60 then
      let c := { c with mm := 0, hh := (c.hh + 1) % 256 }
      if c.hh ≥ 24 then { c with hh := 0 } else c
    else c
  else c

/-- What `timer_apic_handler` works on: the fields of `g_timer` it and `timer_apic_freq` read, `seconds`,
`system_clock`, `need_reschedule` and its two static counters. -/
structure Timer where
  ticks : Nat
  apicBusKhz : Nat
  seconds : Nat
  systemClock : ClockTime
  preemptCounter : Nat
  needReschedule : Nat
  lastCursor : Nat

inductive TimerCall where
  | updateCursor
  | eoi

namespace Timer

variable {s : Timer} {need : Nat}

def timerApicHandler (s : Timer) : Timer × List TimerCall :=
  let s := { s with ticks := u64 (s.ticks + 1) }
  let s :=
    if s.ticks ≥ 1000 then
      { s with ticks := 0, seconds := u32 (s.seconds + 1), systemClock := clockTick s.systemClock }
    else s
  let s := { s with preemptCounter := u32 (s.preemptCounter + 1) }
  let s := if s.preemptCounter ≥ 10 then { s with preemptCounter := 0, needReschedule := 1 } else s
  if sub64 s.ticks s.lastCursor ≥ 500 then
    ({ s with lastCursor := u32 s.ticks }, [.updateCursor, .eoi])
  else (s, [.eoi])

def timerApicTicks (s : Timer) : Nat := s.ticks

def timerApicFreq (s : Timer) : Nat := u32 (s.apicBusKhz * 1000)

def interrupts : Nat → Timer → Timer
  | 0, s => s
  | k + 1, s => interrupts k s.timerApicHandler.1

/-- `while (timer_apic_ticks() - start < need)`, with an interrupt in each turn: the number of interrupts taken, or
`none` when the turns run out. -/
def tickWait (start need : Nat) : Nat → Timer → Option Nat
  | 0, _ => none
  | turns + 1, s =>
    if sub64 s.timerApicTicks start < need then (tickWait start need turns s.timerApicHandler.1).map (· + 1)
    else some 0

def sleepNeed (s : Timer) (ms : Nat) : Nat := u64 (ms * s.timerApicFreq) / 1000

def timerSleep (s : Timer) (ms turns : Nat) : Option Nat := tickWait s.timerApicTicks (s.sleepNeed ms) turns s

/-! ## The count after some interrupts -/

theorem handler_ticks (s : Timer) :
    s.timerApicHandler.1.ticks = if u64 (s.ticks + 1) ≥ 1000 then 0 else u64 (s.ticks + 1) := by
  unfold timerApicHandler
  simp only
  split <;> split <;> split <;> rfl

theorem handler_seconds (s : Timer) :
    s.timerApicHandler.1.seconds = if u64 (s.ticks + 1) ≥ 1000 then u32 (s.seconds + 1) else s.seconds := by
  unfold timerApicHandler
  simp only
  split <;> split <;> split <;> rfl

/-- **The count is taken modulo 1000.** -/
theorem ticks_interrupts : ∀ (k : Nat) (s : Timer), s.ticks < 1000 → (interrupts k s).ticks = (s.ticks + k) % 1000
  | 0, s, h => (mod_eq_of_lt h).symm
  | k + 1, s, h => by
    have hstep : s.timerApicHandler.1.ticks = (s.ticks + 1) % 1000 := by
      rw [handler_ticks, u64_of_lt (by omega)]
      split <;> omega
    show (interrupts k s.timerApicHandler.1).ticks = _
    rw [ticks_interrupts k _ (by omega)]
    omega

theorem ticks_interrupts_of_ge (h : 1000 ≤ s.ticks) (hlt : s.ticks < 2 ^ 64) (k : Nat) :
    (interrupts (k + 1) s).ticks = k % 1000 := by
  have hstep : s.timerApicHandler.1.ticks = 0 := by
    rw [handler_ticks]
    unfold u64
    split <;> omega
  show (interrupts k s.timerApicHandler.1).ticks = _
  rw [ticks_interrupts k _ (by omega), hstep, zero_add]

/-- **Nothing is lost**: seconds and ticks together count every interrupt. -/
theorem total_interrupts : ∀ (k : Nat) (s : Timer), s.ticks < 1000 →
    (interrupts k s).seconds % 2 ^ 32 = (s.seconds + (s.ticks + k) / 1000) % 2 ^ 32
  | 0, s, h => by rw [add_zero, div_eq_of_lt h]; rfl
  | k + 1, s, h => by
    have hticks := handler_ticks s
    have hsec := handler_seconds s
    rw [u64_of_lt (by omega)] at hticks hsec
    show (interrupts k s.timerApicHandler.1).seconds % _ = _
    split at hticks
    · rw [if_pos (by omega)] at hsec
      rw [total_interrupts k _ (by omega), hsec]
      unfold u32
      omega
    · rw [if_neg (by omega)] at hsec
      rw [total_interrupts k _ (by omega), hsec]
      omega

theorem ticks_iff (hlt : s.ticks < 2 ^ 64) (k : Nat) :
    (interrupts k s).ticks = s.ticks + k ↔ k = 0 ∨ s.ticks + k < 1000 := by
  by_cases h : s.ticks < 1000
  · rw [ticks_interrupts k s h]
    omega
  cases k with
  | zero => exact iff_of_true rfl (.inl rfl)
  | succ k =>
    rw [ticks_interrupts_of_ge (by omega) hlt]
    omega

/-! ## Waiting -/

/-- **A wait ends at the first reading that is far enough from the start.** -/
theorem tickWait_eq_some {start : Nat} : ∀ {turns : Nat} {s : Timer} {n : Nat}, tickWait start need turns s = some n ↔
      n < turns ∧ (∀ j, j < n → sub64 (interrupts j s).ticks start < need) ∧ need ≤ sub64 (interrupts n s).ticks start
  | 0, s, n => ⟨fun h => (by cases h), fun h => absurd h.1 (not_lt_zero n)⟩
  | turns + 1, s, n => by
    unfold tickWait timerApicTicks
    by_cases hgo : sub64 s.ticks start < need
    · rw [if_pos hgo, Option.map_eq_some_iff]
      constructor
      · rintro ⟨m, hm, rfl⟩
        obtain ⟨hlt, hbefore, hat⟩ := tickWait_eq_some.1 hm
        refine ⟨succ_lt_succ hlt, fun j hj => ?_, hat⟩
        cases j with
        | zero => exact hgo
        | succ j => exact hbefore j (lt_of_succ_lt_succ hj)
      · rintro ⟨hlt, hbefore, hat⟩
        cases n with
        | zero => exact absurd hgo (not_lt.2 hat)
        | succ n =>
          exact ⟨n, tickWait_eq_some.2 ⟨lt_of_succ_lt_succ hlt, fun j hj => hbefore (j + 1) (succ_lt_succ hj), hat⟩,
            rfl⟩
    · rw [if_neg hgo]
      constructor
      · intro h
        cases h
        exact ⟨succ_pos _, fun j hj => absurd hj (not_lt_zero j), not_lt.1 hgo⟩
      · rintro ⟨-, hbefore, -⟩
        cases n with
        | zero => rfl
        | succ n => exact absurd (hbefore 0 (succ_pos n)) hgo

/-- The wait for a difference of `need` ticks takes exactly `n` interrupts. -/
def WaitTakes (s : Timer) (need n : Nat) : Prop := ∃ turns, tickWait s.timerApicTicks need turns s = some n

theorem waitTakes_iff {n : Nat} : WaitTakes s need n ↔
    (∀ j, j < n → sub64 (interrupts j s).ticks s.ticks < need) ∧ need ≤ sub64 (interrupts n s).ticks s.ticks := by
  constructor
  · rintro ⟨turns, h⟩
    exact (tickWait_eq_some.1 h).2
  · intro h
    exact ⟨n + 1, tickWait_eq_some.2 ⟨lt_succ_self n, h⟩⟩

def Expires (s : Timer) (timeout : Nat) : Prop := ∃ n, WaitTakes s timeout n

theorem expires_of {timeout n : Nat} (h : timeout ≤ sub64 (interrupts n s).ticks s.ticks) : Expires s timeout := by
  have hex : ∃ n, timeout ≤ sub64 (interrupts n s).ticks s.ticks := ⟨n, h⟩
  exact ⟨Nat.find hex, waitTakes_iff.2 ⟨fun j hj => not_le.1 (Nat.find_min hex hj), Nat.find_spec hex⟩⟩

theorem reading_lt (h : s.ticks < 1000) (k : Nat) : sub64 (interrupts k s).ticks s.ticks =
    if s.ticks ≤ (s.ticks + k) % 1000 then (s.ticks + k) % 1000 - s.ticks
    else (s.ticks + k) % 1000 + 2 ^ 64 - s.ticks := by
  rw [ticks_interrupts k s h]
  split
  · exact sub64_of_le (by omega) ‹_›
  · exact sub64_of_lt (by omega) (by omega)

theorem reading_ge (h : 1000 ≤ s.ticks) (hlt : s.ticks < 2 ^ 64) (k : Nat) :
    sub64 (interrupts (k + 1) s).ticks s.ticks = k % 1000 + 2 ^ 64 - s.ticks := by
  rw [ticks_interrupts_of_ge h hlt]
  exact sub64_of_lt hlt (by omega)

theorem reading_start (hlt : s.ticks < 2 ^ 64) : sub64 (interrupts 0 s).ticks s.ticks = 0 := by
  rw [show (interrupts 0 s).ticks = s.ticks from rfl, sub64_of_le hlt le_rfl, Nat.sub_self]

theorem waitTakes_need_of_lt (h : s.ticks < 1000) (hneed : need ≤ 18446744073709551) :
    WaitTakes s need need ↔ need = 0 ∨ s.ticks + need < 1000 ∨ 0 < s.ticks ∧ s.ticks + need = 1000 := by
  rw [waitTakes_iff]
  simp only [reading_lt h]
  constructor
  · rintro ⟨hbefore, hat⟩
    by_cases hshort : s.ticks + need < 1000
    · exact .inr (.inl hshort)
    by_cases hzero : s.ticks = 0
    · -- from 0 the difference is the count itself
      rw [hzero, if_pos (zero_le _)] at hat
      omega
    · have hreset := hbefore (1000 - s.ticks)
      rw [if_neg (by omega)] at hreset
      omega
  · intro hcond
    refine ⟨fun j hj => ?_, ?_⟩
    · rw [if_pos (by omega)]
      omega
    rcases hcond with h0 | hshort | ⟨hpos, hfull⟩
    · rw [h0]
      exact zero_le _
    · rw [if_pos (by omega)]
      omega
    · rw [if_neg (by omega)]
      omega

theorem waitTakes_need_of_ge (h : 1000 ≤ s.ticks) (hlt : s.ticks < 2 ^ 64) :
    WaitTakes s need need ↔ need = 0 ∨ need = 1 ∨ s.ticks = 18446744073709551615 ∧ need ≤ 1000 := by
  rw [waitTakes_iff]
  constructor
  · rintro ⟨hbefore, hat⟩
    by_cases hsmall : need ≤ 1
    · omega
    obtain ⟨k, rfl⟩ : ∃ k, need = k + 2 := ⟨need - 2, by omega⟩
    have hlast := hbefore (k + 1) (by omega)
    rw [reading_ge h hlt] at hlast hat
    by_cases hlap : k < 999
    · exact .inr (.inr ⟨by omega, by omega⟩)
    · have htop := hbefore 1000 (by omega)
      rw [reading_ge h hlt 999] at htop
      omega
  · intro hcond
    refine ⟨fun j hj => ?_, ?_⟩
    · cases j with
      | zero =>
        rwa [reading_start hlt]
      | succ j =>
        rw [reading_ge h hlt]
        omega
    · cases need with
      | zero => exact zero_le _
      | succ k =>
        rw [reading_ge h hlt]
        omega

/-- **When `timer_sleep` takes the interrupts it means to**: not past the end of the count, unless it ends there and did
not start at 0. -/
theorem sleep_iff (hlt : s.ticks < 2 ^ 64) (ms : Nat) : (∃ turns, timerSleep s ms turns = some (s.sleepNeed ms)) ↔
      s.sleepNeed ms = 0 ∨ s.ticks + s.sleepNeed ms < 1000 ∨ (0 < s.ticks ∧ s.ticks + s.sleepNeed ms = 1000) ∨
        (1000 ≤ s.ticks ∧ s.sleepNeed ms = 1) ∨ (s.ticks = 18446744073709551615 ∧ s.sleepNeed ms ≤ 1000) := by
  have hneed : s.sleepNeed ms ≤ 18446744073709551 := by
    have := u64_lt (ms * s.timerApicFreq)
    unfold sleepNeed
    omega
  show WaitTakes s (s.sleepNeed ms) (s.sleepNeed ms) ↔ _
  by_cases h : s.ticks < 1000
  · rw [waitTakes_need_of_lt h hneed]
    omega
  · rw [waitTakes_need_of_ge (by omega) hlt]
    omega

/-- **When a timeout of at least 1000 ticks expires**: when the count did not start at 0, whose differences stay below
1000. -/
theorem expires_iff (hlt : s.ticks < 2 ^ 64) {timeout : Nat} (hlong : 1000 ≤ timeout) (hfits : timeout < 2 ^ 64) :
    Expires s timeout ↔ 0 < s.ticks ∧ (s.ticks ≤ 1000 ∨ timeout ≤ 2 ^ 64 - s.ticks + 999) := by
  by_cases h : s.ticks < 1000
  · constructor
    · rintro ⟨n, hn⟩
      have hat := (waitTakes_iff.1 hn).2
      rw [reading_lt h] at hat
      refine ⟨Nat.pos_of_ne_zero (fun hzero => ?_), .inl h.le⟩
      rw [hzero, if_pos (Nat.zero_le _)] at hat
      omega
    · rintro ⟨hpos, -⟩
      -- one short of a full round, the difference is -1
      refine expires_of (n := 999) ?_
      rw [reading_lt h, if_neg (by omega)]
      omega
  · constructor
    · rintro ⟨n, hn⟩
      have hat := (waitTakes_iff.1 hn).2
      cases n with
      | zero =>
        rw [reading_start hlt] at hat
        omega
      | succ n =>
        rw [reading_ge (by omega) hlt] at hat
        omega
    · rintro ⟨-, hcond⟩
      refine expires_of (n := 1000) ?_
      rw [reading_ge (by omega) hlt 999]
      omega

/-- **The time base**: when `k` interrupts move the count by `k`, when a sleep takes the interrupts it means to, and
when a long timeout expires. -/
theorem timeBase_iff (s : Timer) (hticks : s.ticks < 18446744073709551616) :
    (∀ k, (interrupts k s).timerApicTicks = s.timerApicTicks + k ↔ k = 0 ∨ s.ticks + k < 1000) ∧
    (∀ ms, ms < 4294967296 → ((∃ turns, timerSleep s ms turns = some (s.sleepNeed ms)) ↔
      s.sleepNeed ms = 0 ∨ s.ticks + s.sleepNeed ms < 1000 ∨ (0 < s.ticks ∧ s.ticks + s.sleepNeed ms = 1000) ∨
        (1000 ≤ s.ticks ∧ s.sleepNeed ms = 1) ∨ (s.ticks = 18446744073709551615 ∧ s.sleepNeed ms ≤ 1000))) ∧
    ∀ timeout, 1000 ≤ timeout → timeout < 18446744073709551616 → (Expires s timeout ↔
      0 < s.ticks ∧ (s.ticks ≤ 1000 ∨ timeout ≤ 18446744073709551616 - s.ticks + 999)) :=
  ⟨fun k => ticks_iff hticks k, fun ms _ => sleep_iff hticks ms, fun _ hlong hfits => expires_iff hticks hlong hfits⟩

def booted : Timer := ⟨0, 1000, 0, ⟨0, 0, 0, 0⟩, 0, 0, 0⟩

theorem booted_total : (interrupts 2500 booted).seconds % 2 ^ 32 = 2 := total_interrupts 2500 booted (by decide)

theorem booted_timeBase : ((interrupts 10 booted).timerApicTicks = booted.timerApicTicks + 10 ↔
      10 = 0 ∨ booted.ticks + 10 < 1000) ∧ (Expires booted 1000 ↔
      0 < booted.ticks ∧ (booted.ticks ≤ 1000 ∨ 1000 ≤ 18446744073709551616 - booted.ticks + 999)) := by
  obtain ⟨hcount, -, hexp⟩ := timeBase_iff booted (by decide)
  exact ⟨hcount 10, hexp 1000 (by decide) (by decide)⟩

/-- **A thousand interrupts bring the count back to 0, and a timeout of 1000 ticks from there never expires.** -/
theorem booted_stuck : (interrupts 1000 booted).timerApicTicks = 0 ∧ ¬ ∃ n, WaitTakes booted 1000 n := by
  -- with the number a variable, so that the interrupts are not carried out
  have hround : ∀ k, k = 1000 → (interrupts k booted).timerApicTicks = 0 := fun k hk => by
    unfold timerApicTicks
    rw [ticks_interrupts k booted (by decide), hk]
    rfl
  refine ⟨hround 1000 rfl, fun h => ?_⟩
  exact absurd ((@expires_iff booted (by decide) 1000 (by decide) (by decide)).1 h).1 (by decide)

end Timer
end OS64
