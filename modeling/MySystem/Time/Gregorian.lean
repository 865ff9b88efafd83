import Mathlib.Data.Nat.Basic
import Mathlib.Logic.Function.Iterate

/-!
# The Gregorian calendar

Instants of the calendar to the second, and their numbers counted from the start
of an epoch year. The number of the next second is one more
(`Instant.seconds_next`), and numbers keep the calendar's order
(`Instant.seconds_lt_seconds`).
-/

namespace Gregorian

def isLeap (year : Nat) : Bool := year % 4 = 0 && (year % 100 != 0 || year % 400 = 0)

def yearLength (year : Nat) : Nat := if isLeap year then 366 else 365

/-- The days of a month, counted from 0 for January. -/
def monthLength (year : Nat) : Nat → Nat
  | 1 => if isLeap year then 29 else 28
  | 3 | 5 | 8 | 10 => 30
  | _ => 31

/-- A second of the calendar. -/
structure Instant where
  year : Nat
  mon : Nat
  mday : Nat
  hour : Nat
  min : Nat
  sec : Nat
  mon_lt : mon < 12
  mday_pos : 1 ≤ mday
  mday_le : mday ≤ monthLength year mon
  hour_lt : hour < 24
  min_lt : min < 60
  sec_lt : sec < 60

theorem monthLength_pos (year mon : Nat) : 1 ≤ monthLength year mon := by
  rw [monthLength.eq_def]
  split
  · split <;> decide
  all_goals decide

theorem monthLength_le (year mon : Nat) : monthLength year mon ≤ 31 := by
  rw [monthLength.eq_def]
  split
  · split <;> decide
  all_goals decide

/-! ## Counting days -/

/-- The days of the `n` years from `year` on. -/
def daysOfYears (year : Nat) : Nat → Nat
  | 0 => 0
  | n + 1 => daysOfYears year n + yearLength (year + n)

/-- The days of the first `n` months of a year. -/
def daysOfMonths (year : Nat) : Nat → Nat
  | 0 => 0
  | n + 1 => daysOfMonths year n + monthLength year n

theorem daysOfMonths_year (year : Nat) : daysOfMonths year 12 = yearLength year := by
  simp only [daysOfMonths, monthLength, yearLength]
  split <;> rfl

theorem daysOfMonths_mono (year : Nat) {m n : Nat} (h : m ≤ n) :
    daysOfMonths year m ≤ daysOfMonths year n := by
  induction h with
  | refl => exact Nat.le_refl _
  | step _ ih => exact Nat.le_trans ih (Nat.le_add_right ..)

theorem daysOfYears_mono (year : Nat) {m n : Nat} (h : m ≤ n) :
    daysOfYears year m ≤ daysOfYears year n := by
  induction h with
  | refl => exact Nat.le_refl _
  | step _ ih => exact Nat.le_trans ih (Nat.le_add_right ..)

namespace Instant

variable (epoch : Nat) (t : Instant)

/-- The seconds of the day that are over. -/
def secondOfDay : Nat := 3600 * t.hour + 60 * t.min + t.sec

/-- The days of the year that are over. -/
def dayOfYear : Nat := daysOfMonths t.year t.mon + (t.mday - 1)

/-- The days since the start of the year `epoch`. -/
def days : Nat := daysOfYears epoch (t.year - epoch) + t.dayOfYear

/-- The seconds since the start of the year `epoch`. -/
def seconds : Nat := 86400 * t.days epoch + t.secondOfDay

theorem secondOfDay_lt : t.secondOfDay < 86400 := by
  have := t.hour_lt
  have := t.min_lt
  have := t.sec_lt
  rw [secondOfDay]
  omega

theorem dayOfYear_lt : t.dayOfYear < yearLength t.year := by
  have hmonths := daysOfMonths_mono t.year t.mon_lt
  have := t.mday_pos
  have := t.mday_le
  rw [daysOfMonths_year, daysOfMonths] at hmonths
  rw [dayOfYear]
  omega

/-! ## The next second -/

/-- The fields of a first of January. -/
def newYear (year : Nat) : Instant where
  year := year
  mon := 0
  mday := 1
  hour := 0
  min := 0
  sec := 0
  mon_lt := by decide
  mday_pos := by decide
  mday_le := monthLength_pos year 0
  hour_lt := by decide
  min_lt := by decide
  sec_lt := by decide

/-- Midnight at the end of the day. -/
def nextDay : Instant :=
  if hday : t.mday < monthLength t.year t.mon then
    { t with
      mday := t.mday + 1
      hour := 0
      min := 0
      sec := 0
      mday_pos := Nat.le_add_left ..
      mday_le := hday
      hour_lt := by decide
      min_lt := by decide
      sec_lt := by decide }
  else if hmon : t.mon + 1 < 12 then
    { newYear t.year with
      mon := t.mon + 1
      mon_lt := hmon
      mday_le := monthLength_pos t.year (t.mon + 1) }
  else newYear (t.year + 1)

/-- One second later. -/
def next : Instant :=
  if hsec : t.sec + 1 < 60 then
    { t with
      sec := t.sec + 1
      sec_lt := hsec }
  else if hmin : t.min + 1 < 60 then
    { t with
      min := t.min + 1
      sec := 0
      min_lt := hmin
      sec_lt := by decide }
  else if hhour : t.hour + 1 < 24 then
    { t with
      hour := t.hour + 1
      min := 0
      sec := 0
      hour_lt := hhour
      min_lt := by decide
      sec_lt := by decide }
  else t.nextDay

theorem sec_nextDay : t.nextDay.sec = 0 := by
  rw [nextDay]
  split
  · rfl
  · split <;> rfl

theorem sec_next : t.next.sec = (t.sec + 1) % 60 := by
  have := t.sec_lt
  rw [next]
  split
  case isTrue hsec => exact (Nat.mod_eq_of_lt hsec).symm
  case isFalse hsec =>
    rw [show t.sec + 1 = 60 by omega]
    split
    · rfl
    · split
      · rfl
      · exact t.sec_nextDay

theorem sec_iterate_next (n : Nat) : (next^[n] t).sec = (t.sec + n) % 60 := by
  induction n with
  | zero => exact (Nat.mod_eq_of_lt t.sec_lt).symm
  | succ n ih =>
      rw [Function.iterate_succ_apply', sec_next, ih]
      omega

variable {epoch t}

theorem days_nextDay (h : epoch ≤ t.year) : t.nextDay.days epoch = t.days epoch + 1 := by
  have := t.mday_pos
  have := t.mday_le
  have hmon := t.mon_lt
  rw [nextDay]
  split
  case isTrue hday =>
    show daysOfYears epoch (t.year - epoch) + (daysOfMonths t.year t.mon + (t.mday + 1 - 1)) =
      daysOfYears epoch (t.year - epoch) + (daysOfMonths t.year t.mon + (t.mday - 1)) + 1
    omega
  case isFalse hday =>
    split
    case isTrue hnext =>
      show daysOfYears epoch (t.year - epoch) +
          (daysOfMonths t.year t.mon + monthLength t.year t.mon + 0) =
        daysOfYears epoch (t.year - epoch) + (daysOfMonths t.year t.mon + (t.mday - 1)) + 1
      omega
    case isFalse hnext =>
      have hdecember : t.mon + 1 = 12 := by omega
      have hyear := daysOfMonths_year t.year
      rw [← hdecember, daysOfMonths] at hyear
      have hyears : t.year + 1 - epoch = t.year - epoch + 1 := by omega
      have hback : epoch + (t.year - epoch) = t.year := by omega
      show daysOfYears epoch (t.year + 1 - epoch) + (0 + 0) =
        daysOfYears epoch (t.year - epoch) + (daysOfMonths t.year t.mon + (t.mday - 1)) + 1
      rw [hyears, daysOfYears, hback]
      omega

theorem secondOfDay_nextDay : t.nextDay.secondOfDay = 0 := by
  rw [nextDay]
  split
  · rfl
  · split <;> rfl

/-- Seconds are counted one by one. -/
theorem seconds_next (h : epoch ≤ t.year) : t.next.seconds epoch = t.seconds epoch + 1 := by
  have := t.hour_lt
  have := t.min_lt
  have := t.sec_lt
  rw [next]
  split
  case isTrue =>
    simp only [seconds, days, dayOfYear, secondOfDay]
    omega
  case isFalse =>
    split
    case isTrue =>
      simp only [seconds, days, dayOfYear, secondOfDay]
      omega
    case isFalse =>
      split
      case isTrue =>
        simp only [seconds, days, dayOfYear, secondOfDay]
        omega
      case isFalse =>
        rw [seconds, seconds, days_nextDay h, secondOfDay_nextDay, secondOfDay]
        omega

theorem seconds_newYear (epoch : Nat) : (newYear epoch).seconds epoch = 0 := by
  rw [seconds, days, show (newYear epoch).year - epoch = 0 from Nat.sub_self epoch]
  rfl

/-! ## The order of the calendar -/

/-- The fields, the longest unit first, whose order is that of the calendar. -/
def fields (t : Instant) : List Nat := [t.year, t.mon, t.mday, t.hour, t.min, t.sec]

theorem days_lt_of_year {u : Instant} (h : epoch ≤ t.year) (hlt : t.year < u.year) :
    t.days epoch < u.days epoch := by
  have hyears := daysOfYears_mono epoch (show t.year - epoch + 1 ≤ u.year - epoch by omega)
  have hback : epoch + (t.year - epoch) = t.year := by omega
  have := t.dayOfYear_lt
  rw [daysOfYears, hback] at hyears
  rw [days, days]
  omega

theorem dayOfYear_lt_of_mon {u : Instant} (hyear : t.year = u.year) (hlt : t.mon < u.mon) :
    t.dayOfYear < u.dayOfYear := by
  have hmonths := daysOfMonths_mono u.year hlt
  have := t.mday_pos
  have := t.mday_le
  rw [daysOfMonths] at hmonths
  rw [dayOfYear, dayOfYear, hyear]
  rw [hyear] at this
  omega

/-- Later seconds have greater numbers. -/
theorem seconds_lt_seconds {u : Instant} (h : epoch ≤ t.year) (hlt : t.fields < u.fields) :
    t.seconds epoch < u.seconds epoch := by
  have ht := t.secondOfDay_lt
  have hu := u.secondOfDay_lt
  have hdays : t.days epoch < u.days epoch → t.seconds epoch < u.seconds epoch := by
    intro hdays
    rw [seconds, seconds]
    omega
  simp only [fields, List.cons_lt_cons_iff, List.not_lt_nil, and_false, or_false] at hlt
  obtain hyear | ⟨hyear, hlt⟩ := hlt
  · exact hdays (days_lt_of_year h hyear)
  have hofYear : t.dayOfYear < u.dayOfYear → t.seconds epoch < u.seconds epoch := by
    intro hlt
    apply hdays
    rw [days, days, hyear]
    exact Nat.add_lt_add_left hlt _
  obtain hmon | ⟨hmon, hlt⟩ := hlt
  · exact hofYear (dayOfYear_lt_of_mon hyear hmon)
  obtain hmday | ⟨hmday, hlt⟩ := hlt
  · apply hofYear
    have := t.mday_pos
    rw [dayOfYear, dayOfYear, hyear, hmon]
    omega
  have hsame : t.days epoch = u.days epoch := by
    rw [days, days, dayOfYear, dayOfYear, hyear, hmon, hmday]
  have := t.min_lt
  have := u.min_lt
  have := t.sec_lt
  have := u.sec_lt
  rw [seconds, seconds, hsame, secondOfDay, secondOfDay]
  omega

end Instant

end Gregorian
