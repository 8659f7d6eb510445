import OS64.Timer
/-!
# Calendar — dates, seconds since 1970 and the software clock (`kernel/time`)

`time_to_unix` adds up the days of whole years and of whole months; `unix_to_time` takes them off a day number again.
Both loops split a number into whole parts and a rest below the next part (`total_unique`), so the conversions are
inverse to each other.  The sums of the `u64` and `u32` loops are reduced once, behind the loop.
-/
namespace OS64

open Nat

/-- `f lo + … + f (lo + n - 1)`. -/
def total (f : Nat → Nat) (lo : Nat) : Nat → Nat
  | 0 => 0
  | n + 1 => total f lo n + f (lo + n)

theorem total_le (f : Nat → Nat) (lo : Nat) {m n : Nat} (h : m ≤ n) : total f lo m ≤ total f lo n := by
  induction h with
  | refl => exact le_rfl
  | step _ ih => exact le_trans ih (le_add_right _ _)

/-- **Parts and a rest below the next part are determined by their sum.** -/
theorem total_unique {f : Nat → Nat} {lo m n r s : Nat} (hr : r < f (lo + m)) (hs : s < f (lo + n))
    (h : total f lo m + r = total f lo n + s) : m = n := by
  obtain hlt | heq | hlt := lt_trichotomy m n
  · have := total_le f lo hlt
    rw [total] at this
    omega
  · exact heq
  · have := total_le f lo hlt
    rw [total] at this
    omega

/-! ## The conversions -/

structure DateTime where
  year : Nat
  month : Nat
  day : Nat
  hour : Nat
  minute : Nat
  second : Nat

def isLeap (year : Nat) : Bool := year % 400 == 0 || (year % 4 == 0 && year % 100 != 0)

def monthDays : List Nat := [31, 28, 31, 30, 31, 30, 31, 31, 30, 31, 30, 31]

def daysInMonth (year month : Nat) : Nat :=
  if month = 2 ∧ isLeap year then 29 else monthDays.getD (month - 1) 0

def yearDays (year : Nat) : Nat := if isLeap year then 366 else 365

def timeToUnix (t : DateTime) : Nat :=
  let days := u64 (total yearDays 1970 (t.year - 1970) + total (daysInMonth t.year) 1 (t.month - 1) + sub64 t.day 1)
  u64 (days * 86400 + t.hour * 3600 + t.minute * 60 + t.second)

structure DateTime.Valid (t : DateTime) : Prop where
  year : 1970 ≤ t.year
  month : 1 ≤ t.month ∧ t.month ≤ 12
  day : 1 ≤ t.day ∧ t.day ≤ daysInMonth t.year t.month
  hour : t.hour < 24
  minute : t.minute < 60
  second : t.second < 60

/-- The days from the first of January 1970 on. -/
def DateTime.dayNumber (t : DateTime) : Nat :=
  total yearDays 1970 (t.year - 1970) + total (daysInMonth t.year) 1 (t.month - 1) + (t.day - 1)

def DateTime.seconds (t : DateTime) : Nat := t.dayNumber * 86400 + t.hour * 3600 + t.minute * 60 + t.second

theorem year_months (year : Nat) : total (daysInMonth year) 1 12 = yearDays year := by
  unfold yearDays
  cases h : isLeap year <;> simp [total, daysInMonth, monthDays, h]

theorem DateTime.Valid.rest_lt {t : DateTime} (h : t.Valid) : t.day - 1 < daysInMonth t.year (1 + (t.month - 1)) ∧
    total (daysInMonth t.year) 1 (t.month - 1) + (t.day - 1) < yearDays t.year := by
  obtain ⟨hfirst, hlast⟩ := h.month
  obtain ⟨hday, hle⟩ := h.day
  have hmonth : 1 + (t.month - 1) = t.month := by omega
  have hmonths := total_le (daysInMonth t.year) 1 (show t.month - 1 + 1 ≤ 12 by omega)
  rw [total, hmonth, year_months] at hmonths
  rw [hmonth]
  omega

/-- **Valid dates with the same seconds are the same.** -/
theorem DateTime.Valid.ext {a b : DateTime} (ha : a.Valid) (hb : b.Valid) (h : a.seconds = b.seconds) : a = b := by
  obtain ⟨ay, am, ad, ah, ai, as⟩ := a
  obtain ⟨bY, bm, bd, bh, bi, bs⟩ := b
  obtain ⟨hmonth, hyear⟩ := ha.rest_lt
  obtain ⟨hmonth', hyear'⟩ := hb.rest_lt
  obtain ⟨hy, ⟨hm, -⟩, ⟨hd, -⟩, hh, hi, hs⟩ := ha
  obtain ⟨hy', ⟨hm', -⟩, ⟨hd', -⟩, hh', hi', hs'⟩ := hb
  simp only [DateTime.seconds, DateTime.dayNumber] at *
  have hdays : total yearDays 1970 (ay - 1970) + (total (daysInMonth ay) 1 (am - 1) + (ad - 1)) =
      total yearDays 1970 (bY - 1970) + (total (daysInMonth bY) 1 (bm - 1) + (bd - 1)) := by omega
  have hsame := total_unique (by rwa [Nat.add_sub_cancel' hy]) (by rwa [Nat.add_sub_cancel' hy']) hdays
  obtain rfl : ay = bY := by omega
  have hrest := add_left_cancel hdays
  obtain rfl : am = bm := by
    have := total_unique hmonth hmonth' hrest
    omega
  rw [DateTime.mk.injEq]
  omega

theorem timeToUnix_eq {t : DateTime} (hday : 1 ≤ t.day) : timeToUnix t = u64 t.seconds := by
  unfold timeToUnix DateTime.seconds DateTime.dayNumber sub64 u64
  dsimp only
  omega

/-- The twenty-ninth of February 2000, a second before midnight. -/
def leapDay : DateTime := ⟨2000, 2, 29, 23, 59, 59⟩

theorem leapDay_valid : leapDay.Valid := ⟨by decide, by decide, by decide, by decide, by decide, by decide⟩

def isLeapYear (year : Nat) : Bool := year % 4 == 0 && (year % 100 != 0 || year % 400 == 0)

def rtcToEpoch (t : DateTime) : Nat :=
  let years := total (fun y => if isLeapYear y then 366 else 365) 1970 (t.year - 1970)
  let months := total (fun m => monthDays.getD (m - 1) 0 + if m = 2 ∧ isLeapYear t.year then 1 else 0) 1 (t.month - 1)
  u32 (u32 (years + months + sub32 t.day 1) * 86400 + t.hour * 3600 + t.minute * 60 + t.second)

/-- `init_system_clock`, with what `read_rtc_time` and `read_rtc_date` return. -/
def initSystemClock (t : DateTime) : ClockTime := ⟨t.hour % 256, t.minute % 256, t.second % 256, rtcToEpoch t⟩

theorem isLeapYear_eq (year : Nat) : isLeapYear year = isLeap year := by
  rw [Bool.eq_iff_iff]
  simp only [isLeapYear, isLeap, Bool.and_eq_true, Bool.or_eq_true, beq_iff_eq, bne_iff_ne]
  omega

theorem rtcToEpoch_eq {t : DateTime} (hday : 1 ≤ t.day) : rtcToEpoch t = u32 t.seconds := by
  have hyears : (fun y => if isLeapYear y then 366 else 365) = yearDays := by
    funext y
    rw [isLeapYear_eq]
    rfl
  have hmonths : (fun m => monthDays.getD (m - 1) 0 + if m = 2 ∧ isLeapYear t.year then 1 else 0) =
      daysInMonth t.year := by
    funext m
    rw [isLeapYear_eq]
    unfold daysInMonth
    split
    case isTrue h => rw [h.1]; rfl
    case isFalse h => rfl
  unfold rtcToEpoch DateTime.seconds DateTime.dayNumber
  rw [hyears, hmonths]
  unfold sub32 u32
  dsimp only
  split <;> omega

/-- The clock shows the time of day of its epoch. -/
def ClockTime.Right (c : ClockTime) : Prop :=
  c.hh < 24 ∧ c.mm < 60 ∧ c.ss < 60 ∧ c.hh * 3600 + c.mm * 60 + c.ss = c.epoch % 86400

theorem ClockTime.Right.tick {c : ClockTime} (h : c.Right) (hlt : c.epoch + 1 < 2 ^ 32) :
    (clockTick c).Right ∧ (clockTick c).epoch = c.epoch + 1 := by
  obtain ⟨hhh, hmm, hss, heq⟩ := h
  unfold clockTick ClockTime.Right u32
  dsimp only
  split <;> (try split) <;> (try split) <;> dsimp only at * <;> omega

theorem ClockTime.Right.ticks {c : ClockTime} (h : c.Right) : ∀ {n : Nat}, c.epoch + n < 2 ^ 32 →
    (clockTick^[n] c).Right ∧ (clockTick^[n] c).epoch = c.epoch + n
  | 0, _ => ⟨h, rfl⟩
  | n + 1, hlt => by
    obtain ⟨hright, hepoch⟩ := h.ticks (lt_of_succ_lt hlt)
    rw [Function.iterate_succ_apply']
    obtain ⟨hright', hepoch'⟩ := hright.tick (by omega)
    exact ⟨hright', by omega⟩

/-- **The software clock agrees with the calendar**: its epoch is the date's second count modulo `2^32`, and while the
count stays below `2^32` each tick adds a second to the epoch and the clock shows its time of day. -/
theorem clock_right (t : DateTime) (h : t.Valid) : rtcToEpoch t = u32 (timeToUnix t) ∧
    ∀ n, t.seconds + n < 4294967296 → (clockTick^[n] (initSystemClock t)).Right ∧
      (clockTick^[n] (initSystemClock t)).epoch = t.seconds + n := by
  have hepoch := rtcToEpoch_eq h.day.1
  have hh := h.hour
  have hi := h.minute
  have hs := h.second
  refine ⟨?_, fun n hlt => ?_⟩
  · rw [hepoch, timeToUnix_eq h.day.1]
    unfold u32 u64
    omega
  have hright : (initSystemClock t).Right := by
    unfold ClockTime.Right initSystemClock
    rw [hepoch, u32_of_lt (by omega)]
    unfold DateTime.seconds
    dsimp only
    omega
  have hstart : (initSystemClock t).epoch = t.seconds := hepoch.trans (u32_of_lt (by omega))
  rw [← hstart] at hlt ⊢
  exact hright.ticks hlt

theorem leapDay_clock :
    (clockTick^[1] (initSystemClock leapDay)).Right ∧ (clockTick^[1] (initSystemClock leapDay)).epoch = 951868800 :=
  (clock_right leapDay leapDay_valid).2 1 (by decide)

end OS64
