import MySystem.Machine.Word
import MySystem.Time.Gregorian
import Mathlib.Tactic.IntervalCases

/-!
# `kernel_mktime`

The seconds since 1970 in `kernel/mktime.c`. The function is written once for
any arithmetic: every product, sum and difference goes through `op`, which may
leave it exact, wrap it, or refuse what is no `int`.
-/

namespace MySystem

open Machine Gregorian

/-- `struct tm`, as far as the kernel uses it. -/
structure Tm where
  tmSec : Int
  tmMin : Int
  tmHour : Int
  tmMday : Int
  tmMon : Int
  tmYear : Int

def MINUTE : Int := 60
def HOUR : Int := 60 * MINUTE
def DAY : Int := 24 * HOUR
def YEAR : Int := 365 * DAY

/-- The table `month`, of a leap year. -/
def monthTable : List Int := [
  0,
  DAY * 31,
  DAY * (31 + 29),
  DAY * (31 + 29 + 31),
  DAY * (31 + 29 + 31 + 30),
  DAY * (31 + 29 + 31 + 30 + 31),
  DAY * (31 + 29 + 31 + 30 + 31 + 30),
  DAY * (31 + 29 + 31 + 30 + 31 + 30 + 31),
  DAY * (31 + 29 + 31 + 30 + 31 + 30 + 31 + 31),
  DAY * (31 + 29 + 31 + 30 + 31 + 30 + 31 + 31 + 30),
  DAY * (31 + 29 + 31 + 30 + 31 + 30 + 31 + 31 + 30 + 31),
  DAY * (31 + 29 + 31 + 30 + 31 + 30 + 31 + 31 + 30 + 31 + 30)]

/-- `month[i]`. -/
def month (i : Int) : Option Int := if 0 ≤ i then monthTable[i.toNat]? else none

/-- From March on, a day less where the year is no leap year. -/
def adjustLeap (op : Int → Option Int) (tm : Tm) (year res : Int) : Option Int :=
  if 1 < tm.tmMon then do
    let current ← op (year + 2)
    if current.tmod 4 ≠ 0 then op (res - DAY) else some res
  else some res

/-- The days of the month and the time of the day. -/
def addTime (op : Int → Option Int) (tm : Tm) (res : Int) : Option Int := do
  let days ← op (tm.tmMday - 1)
  let days ← op (DAY * days)
  let res ← op (res + days)
  let hours ← op (HOUR * tm.tmHour)
  let res ← op (res + hours)
  let minutes ← op (MINUTE * tm.tmMin)
  let res ← op (res + minutes)
  op (res + tm.tmSec)

/-- `kernel_mktime` with the arithmetic `op`. -/
def kernelMktimeBy (op : Int → Option Int) (tm : Tm) : Option Int := do
  let year ← op (tm.tmYear - 70)
  let years ← op (YEAR * year)
  let past ← op (year + 1)
  let leapDays ← op (DAY * past.tdiv 4)
  let res ← op (years + leapDays)
  let res ← op (res + (← month tm.tmMon))
  let res ← adjustLeap op tm year res
  addTime op tm res

/-- In exact integers. -/
def kernelMktimeExact : Tm → Option Int := kernelMktimeBy some

/-- With the 32 bits of `int` and `long`. -/
def kernelMktime : Tm → Option Int := kernelMktimeBy fun n => some (int32 n)

/-- A result that is an `int`. -/
def inInt (n : Int) : Option Int := if -2 ^ 31 ≤ n ∧ n < 2 ^ 31 then some n else none

/-- With every overflow refused. -/
def kernelMktimeChecked : Tm → Option Int := kernelMktimeBy inInt

/-! ## The value in one formula -/

/-- The day that the month table counts too many. -/
def leapExcess (tm : Tm) : Int :=
  if 1 < tm.tmMon ∧ (tm.tmYear - 70 + 2).tmod 4 ≠ 0 then DAY else 0

/-- The start of the month, with `m` from the month table. -/
def monthStart (tm : Tm) (m : Int) : Int :=
  YEAR * (tm.tmYear - 70) + DAY * (tm.tmYear - 70 + 1).tdiv 4 + m

/-- From the start of the month to the second. -/
def sinceMonth (tm : Tm) : Int :=
  DAY * (tm.tmMday - 1) + HOUR * tm.tmHour + MINUTE * tm.tmMin + tm.tmSec

def mktimeValue (tm : Tm) (m : Int) : Int := monthStart tm m - leapExcess tm + sinceMonth tm

/-! ## Exact and wrapping arithmetic -/

variable {tm : Tm} {m : Int}

theorem adjustLeap_eq {f : Int → Int} {res : Int} (hres : f res = res)
    (hcurrent : f (tm.tmYear - 70 + 2) = tm.tmYear - 70 + 2) :
    adjustLeap (fun n => some (f n)) tm (tm.tmYear - 70) res = some (f (res - leapExcess tm)) := by
  rw [adjustLeap, leapExcess]
  by_cases hmon : 1 < tm.tmMon
  · rw [if_pos hmon, Option.bind_eq_bind, Option.bind_some, hcurrent]
    by_cases hleap : (tm.tmYear - 70 + 2).tmod 4 ≠ 0
    · rw [if_pos hleap, if_pos ⟨hmon, hleap⟩]
    · rw [if_neg hleap, if_neg (fun h => hleap h.2), Int.sub_zero, hres]
  · rw [if_neg hmon, if_neg (fun h => hmon h.1), Int.sub_zero, hres]

theorem kernelMktimeExact_eq (hmonth : month tm.tmMon = some m) :
    kernelMktimeExact tm = some (mktimeValue tm m) := by
  have hres : id (monthStart tm m) = monthStart tm m := rfl
  have hadjust := adjustLeap_eq hres (rfl : id (tm.tmYear - 70 + 2) = tm.tmYear - 70 + 2)
  simp only [id] at hadjust
  simp only [kernelMktimeExact, kernelMktimeBy, hmonth, Option.bind_eq_bind, Option.bind_some]
  rw [← monthStart, hadjust, Option.bind_some, addTime, mktimeValue, sinceMonth]
  simp only [Option.bind_eq_bind, Option.bind_some, Int.add_assoc]

theorem addTime_eq (res : Int) :
    addTime (fun n => some (int32 n)) tm (int32 res) = some (int32 (res + sinceMonth tm)) := by
  simp only [addTime, Option.bind_eq_bind, Option.bind_some]
  simp only [int32_mul_right, int32_add_right, int32_add_left]
  congr 2
  rw [sinceMonth]
  omega

/-- Whatever wraps on the way, the result is the value modulo 2^32, unless the
years themselves wrap. -/
theorem kernelMktime_eq (hmonth : month tm.tmMon = some m)
    (hyear : -2 ^ 30 < tm.tmYear ∧ tm.tmYear < 2 ^ 30) :
    kernelMktime tm = some (int32 (mktimeValue tm m)) := by
  have hy : int32 (tm.tmYear - 70) = tm.tmYear - 70 := int32_eq (by omega) (by omega)
  have hpast : int32 (tm.tmYear - 70 + 1) = tm.tmYear - 70 + 1 := int32_eq (by omega) (by omega)
  have hcurrent : int32 (tm.tmYear - 70 + 2) = tm.tmYear - 70 + 2 := int32_eq (by omega) (by omega)
  have hres : int32 (int32 (monthStart tm m)) = int32 (monthStart tm m) := Int.bmod_bmod
  have hadjust := adjustLeap_eq hres hcurrent
  have hstart : int32 (int32 (int32 (YEAR * (tm.tmYear - 70)) +
      int32 (DAY * (tm.tmYear - 70 + 1).tdiv 4)) + m) = int32 (monthStart tm m) := by
    simp only [int32_add_left, int32_add_right, monthStart]
  simp only [kernelMktime, kernelMktimeBy, hmonth, hy, hpast, Option.bind_eq_bind, Option.bind_some]
  rw [hstart, hadjust, Option.bind_some, int32_sub_left, addTime_eq, mktimeValue]

/-! ## Overflow -/

theorem inInt_some {n r : Int} : inInt n = some r ↔ (-2 ^ 31 ≤ n ∧ n < 2 ^ 31) ∧ n = r := by
  rw [inInt]
  split
  case isTrue h => exact ⟨fun hr => ⟨h, Option.some.inj hr⟩, fun hr => congrArg some hr.2⟩
  case isFalse h =>
    constructor
    · intro hr
      cases hr
    · intro hr
      exact absurd hr.1 h

theorem inInt_eq {n : Int} (hlo : -2 ^ 31 ≤ n) (hhi : n < 2 ^ 31) : inInt n = some n :=
  inInt_some.mpr ⟨⟨hlo, hhi⟩, rfl⟩

theorem adjustLeap_checked {res r : Int} (h : adjustLeap inInt tm (tm.tmYear - 70) res = some r) :
    res - leapExcess tm = r := by
  rw [adjustLeap] at h
  rw [leapExcess]
  by_cases hmon : 1 < tm.tmMon
  · rw [if_pos hmon, Option.bind_eq_bind, Option.bind_eq_some_iff] at h
    obtain ⟨current, hcurrent, h⟩ := h
    obtain rfl := (inInt_some.mp hcurrent).2
    by_cases hleap : (tm.tmYear - 70 + 2).tmod 4 ≠ 0
    · rw [if_pos hleap] at h
      rw [if_pos ⟨hmon, hleap⟩]
      exact (inInt_some.mp h).2
    · rw [if_neg hleap] at h
      rw [if_neg (fun h => hleap h.2), Int.sub_zero]
      exact Option.some.inj h
  · rw [if_neg hmon] at h
    rw [if_neg (fun h => hmon h.1), Int.sub_zero]
    exact Option.some.inj h

theorem addTime_checked {res r : Int} (h : addTime inInt tm res = some r) :
    res + sinceMonth tm = r ∧ r < 2 ^ 31 := by
  simp only [addTime, Option.bind_eq_bind, Option.bind_eq_some_iff, inInt_some] at h
  obtain ⟨days, ⟨-, rfl⟩, seconds, ⟨-, rfl⟩, res₁, ⟨-, rfl⟩, hours, ⟨-, rfl⟩, res₂, ⟨-, rfl⟩,
    minutes, ⟨-, rfl⟩, res₃, ⟨-, rfl⟩, hrange, rfl⟩ := h
  refine ⟨?_, hrange.2⟩
  simp only [sinceMonth, Int.add_assoc]

/-- Where nothing overflows, the result is the value, and an `int`. -/
theorem mktimeValue_of_checked {r : Int} (hmonth : month tm.tmMon = some m)
    (h : kernelMktimeChecked tm = some r) : mktimeValue tm m = r ∧ r < 2 ^ 31 := by
  simp only [kernelMktimeChecked, kernelMktimeBy, hmonth, Option.bind_eq_bind, Option.bind_some,
    Option.bind_eq_some_iff, inInt_some] at h
  obtain ⟨year, ⟨-, rfl⟩, years, ⟨-, rfl⟩, past, ⟨-, rfl⟩, leapDays, ⟨-, rfl⟩, res₁, ⟨-, rfl⟩,
    res₂, ⟨-, rfl⟩, res₃, hadjust, htime⟩ := h
  obtain ⟨hvalue, hrange⟩ := addTime_checked htime
  rw [← adjustLeap_checked hadjust] at hvalue
  exact ⟨hvalue, hrange⟩

/-! ## The Unix calendar -/

/-- The fields of an instant as `struct tm` has them. -/
def Tm.of (t : Instant) : Tm where
  tmSec := t.sec
  tmMin := t.min
  tmHour := t.hour
  tmMday := t.mday
  tmMon := t.mon
  tmYear := (t.year : Int) - 1900

/-- Up to 2099 every fourth year is a leap year. -/
theorem isLeap_iff {y : Nat} (hy : y < 130) : isLeap (1970 + y) = true ↔ (y + 2) % 4 = 0 := by
  simp only [isLeap, Bool.and_eq_true, Bool.or_eq_true, decide_eq_true_eq, bne_iff_ne]
  omega

theorem daysOfYears_eq {y : Nat} (hy : y ≤ 130) :
    daysOfYears 1970 y = 365 * y + (y + 1) / 4 := by
  induction y with
  | zero => rfl
  | succ y ih =>
      have hleap := isLeap_iff (show y < 130 from hy)
      rw [daysOfYears, ih (Nat.le_of_lt hy), yearLength]
      split
      case isTrue h =>
        have := hleap.mp h
        omega
      case isFalse h =>
        have : ¬ (y + 2) % 4 = 0 := fun h' => h (hleap.mpr h')
        omega

/-- The month table, corrected where the year is no leap year. -/
theorem month_eq (year : Nat) {mon : Nat} (hmon : mon < 12) :
    ∃ m, month mon = some m ∧ 0 ≤ m ∧ m ≤ 335 * DAY ∧ (1 < mon → 60 * DAY ≤ m) ∧
      DAY * daysOfMonths year mon = m - if 1 < mon ∧ isLeap year = false then DAY else 0 := by
  interval_cases mon
  all_goals
    refine ⟨_, rfl, ?_⟩
    cases hleap : isLeap year <;> simp [daysOfMonths, monthLength, hleap, DAY, HOUR, MINUTE]

variable {t : Instant}

theorem leapExcess_of (hlo : 1970 ≤ t.year) (hhi : t.year ≤ 2099) :
    leapExcess (Tm.of t) = if 1 < t.mon ∧ isLeap t.year = false then DAY else 0 := by
  have hleap := isLeap_iff (show t.year - 1970 < 130 by omega)
  rw [show 1970 + (t.year - 1970) = t.year by omega] at hleap
  have hoffset : (Tm.of t).tmYear - 70 + 2 = ((t.year - 1970 + 2 : Nat) : Int) := by
    show (t.year : Int) - 1900 - 70 + 2 = _
    omega
  have hmon : 1 < (Tm.of t).tmMon ↔ 1 < t.mon := by
    show 1 < (t.mon : Int) ↔ _
    omega
  have hzero : ((t.year - 1970 + 2 : Nat) : Int).tmod 4 ≠ 0 ↔ isLeap t.year = false := by
    rw [Int.tmod_eq_emod_of_nonneg (Int.natCast_nonneg _), ← Bool.not_eq_true, hleap]
    omega
  rw [leapExcess, hoffset]
  exact if_congr (and_congr hmon hzero) rfl rfl

theorem sinceMonth_of (t : Instant) :
    sinceMonth (Tm.of t) = DAY * ((t.mday - 1 : Nat) : Int) + t.secondOfDay := by
  have := t.mday_pos
  show DAY * ((t.mday : Int) - 1) + HOUR * t.hour + MINUTE * t.min + t.sec = _
  rw [Instant.secondOfDay, DAY, HOUR, MINUTE]
  omega

/-- The start of the year, with a leap day for every fourth year before it. -/
theorem monthStart_of (hlo : 1970 ≤ t.year) (hhi : t.year ≤ 2099) (m : Int) :
    monthStart (Tm.of t) m = DAY * daysOfYears 1970 (t.year - 1970) + m := by
  have hyears := daysOfYears_eq (show t.year - 1970 ≤ 130 by omega)
  have hoffset : (Tm.of t).tmYear - 70 = ((t.year - 1970 : Nat) : Int) := by
    show (t.year : Int) - 1900 - 70 = _
    omega
  rw [monthStart, hoffset, hyears, Int.tdiv_eq_ediv_of_nonneg (by omega), YEAR]
  rw [DAY, HOUR, MINUTE]
  omega

/-- The formula counts the seconds since 1970. -/
theorem mktimeValue_of (hlo : 1970 ≤ t.year) (hhi : t.year ≤ 2099) {m : Int}
    (hmonths : DAY * daysOfMonths t.year t.mon =
      m - if 1 < t.mon ∧ isLeap t.year = false then DAY else 0) :
    mktimeValue (Tm.of t) m = t.seconds 1970 := by
  rw [mktimeValue, monthStart_of hlo hhi, leapExcess_of hlo hhi, sinceMonth_of, Int.add_sub_assoc,
    ← hmonths, Instant.seconds, Instant.days, Instant.dayOfYear, DAY, HOUR, MINUTE]
  omega

theorem exact_eq_seconds (hlo : 1970 ≤ t.year) (hhi : t.year ≤ 2099) :
    kernelMktimeExact (Tm.of t) = some (t.seconds 1970 : Int) := by
  obtain ⟨m, hmonth, -, -, -, hmonths⟩ := month_eq t.year t.mon_lt
  have hmonth' : month (Tm.of t).tmMon = some m := hmonth
  rw [kernelMktimeExact_eq hmonth', mktimeValue_of hlo hhi hmonths]

/-! ## Freedom from overflow -/

theorem adjustLeap_inInt {res : Int} (hyear : 0 ≤ tm.tmYear - 70 ∧ tm.tmYear - 70 < 130)
    (hlo : -2 ^ 31 ≤ res - leapExcess tm) (hhi : res - leapExcess tm < 2 ^ 31) :
    adjustLeap inInt tm (tm.tmYear - 70) res = some (res - leapExcess tm) := by
  have hcurrent : inInt (tm.tmYear - 70 + 2) = some (tm.tmYear - 70 + 2) :=
    inInt_eq (by omega) (by omega)
  rw [leapExcess] at hlo hhi
  rw [adjustLeap, leapExcess]
  by_cases hmon : 1 < tm.tmMon
  · rw [if_pos hmon, hcurrent, Option.bind_eq_bind, Option.bind_some]
    by_cases hleap : (tm.tmYear - 70 + 2).tmod 4 ≠ 0
    · rw [if_pos ⟨hmon, hleap⟩] at hlo hhi
      rw [if_pos hleap, if_pos ⟨hmon, hleap⟩]
      exact inInt_eq hlo hhi
    · rw [if_neg hleap, if_neg (fun h => hleap h.2), Int.sub_zero]
  · rw [if_neg hmon, if_neg (fun h => hmon h.1), Int.sub_zero]

/-- Nothing negative is added, so that it suffices that the last sum fits. -/
theorem addTime_inInt {t : Instant} {res : Int} (hres : 0 ≤ res)
    (hfit : res + sinceMonth (Tm.of t) < 2 ^ 31) :
    addTime inInt (Tm.of t) res = some (res + sinceMonth (Tm.of t)) := by
  have := t.mday_pos
  simp only [sinceMonth, Tm.of, DAY, HOUR, MINUTE] at hfit ⊢
  simp only [addTime, Option.bind_eq_bind, DAY, HOUR, MINUTE]
  rw [inInt_eq (by omega) (by omega), Option.bind_some, inInt_eq (by omega) (by omega),
    Option.bind_some, inInt_eq (by omega) (by omega), Option.bind_some,
    inInt_eq (by omega) (by omega), Option.bind_some, inInt_eq (by omega) (by omega),
    Option.bind_some, inInt_eq (by omega) (by omega), Option.bind_some,
    inInt_eq (by omega) (by omega), Option.bind_some, inInt_eq (by omega) (by omega)]
  congr 1
  omega

theorem leapExcess_cases (hlo : 1970 ≤ t.year) (hhi : t.year ≤ 2099) :
    leapExcess (Tm.of t) = 0 ∨ leapExcess (Tm.of t) = DAY ∧ 1 < t.mon := by
  rw [leapExcess_of hlo hhi]
  split
  case isTrue h => exact Or.inr ⟨rfl, h.1⟩
  case isFalse h => exact Or.inl rfl

/-- A year that ends in time leaves room for the day that is taken away again. -/
theorem monthStart_fits (hlo : 1970 ≤ t.year) (hhi : t.year ≤ 2099)
    (hfit : (t.seconds 1970 : Int) < 2 ^ 31) :
    ∃ m, month t.mon = some m ∧ 0 ≤ m ∧ monthStart (Tm.of t) m < 2 ^ 31 ∧
      0 ≤ monthStart (Tm.of t) m - leapExcess (Tm.of t) ∧
      mktimeValue (Tm.of t) m = t.seconds 1970 := by
  obtain ⟨m, hmonth, hm, hdecember, hmarch, hmonths⟩ := month_eq t.year t.mon_lt
  have hvalue := mktimeValue_of hlo hhi hmonths
  have hyears := daysOfYears_eq (show t.year - 1970 ≤ 130 by omega)
  have hexcess := leapExcess_cases hlo hhi
  refine ⟨m, hmonth, hm, ?_, ?_, hvalue⟩
  · rw [mktimeValue, sinceMonth_of] at hvalue
    rw [monthStart_of hlo hhi, hyears] at hvalue ⊢
    rw [DAY, HOUR, MINUTE] at *
    -- Time runs out in January 2038, before any month is corrected.
    obtain hyear | hyear := Nat.lt_or_ge t.year 2038
    · omega
    · omega
  · rw [monthStart_of hlo hhi]
    rw [DAY, HOUR, MINUTE] at *
    omega

/-- Without overflow each partial sum is the exact one. -/
theorem checked_isSome (hlo : 1970 ≤ t.year) (hhi : t.year ≤ 2099)
    (hfit : (t.seconds 1970 : Int) < 2 ^ 31) : (kernelMktimeChecked (Tm.of t)).isSome := by
  obtain ⟨m, hmonth, hm, hstart, hcorrected, hvalue⟩ := monthStart_fits hlo hhi hfit
  have hyear : 0 ≤ (Tm.of t).tmYear - 70 ∧ (Tm.of t).tmYear - 70 < 130 := by
    show 0 ≤ (t.year : Int) - 1900 - 70 ∧ (t.year : Int) - 1900 - 70 < 130
    omega
  have hexcess : 0 ≤ leapExcess (Tm.of t) := by
    obtain h | ⟨h, -⟩ := leapExcess_cases hlo hhi
    · exact Int.le_of_eq h.symm
    · rw [h]
      decide
  have hadjust : adjustLeap inInt (Tm.of t) ((Tm.of t).tmYear - 70) (monthStart (Tm.of t) m) =
      some (monthStart (Tm.of t) m - leapExcess (Tm.of t)) :=
    adjustLeap_inInt hyear (by omega) (by omega)
  have htime := addTime_inInt hcorrected (by rw [← mktimeValue, hvalue]; exact hfit)
  have hpast : 0 ≤ ((Tm.of t).tmYear - 70 + 1).tdiv 4 := Int.tdiv_nonneg (by omega) (by decide)
  have hsums : 0 ≤ YEAR * ((Tm.of t).tmYear - 70) ∧
      0 ≤ DAY * ((Tm.of t).tmYear - 70 + 1).tdiv 4 :=
    ⟨Int.mul_nonneg (by decide) hyear.1, Int.mul_nonneg (by decide) hpast⟩
  rw [monthStart] at hstart hadjust htime
  rw [kernelMktimeChecked, kernelMktimeBy]
  simp only [Option.bind_eq_bind]
  rw [inInt_eq (by omega) (by omega), Option.bind_some, inInt_eq (by omega) (by omega),
    Option.bind_some, inInt_eq (by omega) (by omega), Option.bind_some,
    inInt_eq (by omega) (by omega), Option.bind_some, inInt_eq (by omega) (by omega),
    Option.bind_some, show month (Tm.of t).tmMon = some m from hmonth, Option.bind_some,
    inInt_eq (by omega) (by omega), Option.bind_some, hadjust, Option.bind_some, htime]
  rfl

/-- The result is the Unix time of every second from 1970 to 2099 and grows with
it, and nothing overflows up to the last second that is an `int`. -/
theorem kernel_mktime_unix (hlo : 1970 ≤ t.year) (hhi : t.year ≤ 2099) :
    ∃ res, kernelMktimeExact (Tm.of t) = some res ∧
      res = 86400 * t.days 1970 + t.secondOfDay ∧
      (∀ u : Instant, u.year ≤ 2099 → t.fields < u.fields →
        ∃ res', kernelMktimeExact (Tm.of u) = some res' ∧ res < res') ∧
      ((kernelMktimeChecked (Tm.of t)).isSome ↔ res ≤ 2 ^ 31 - 1) := by
  refine ⟨t.seconds 1970, exact_eq_seconds hlo hhi, rfl, ?_, ?_, ?_⟩
  · intro u hu hlt
    have hyear : t.year ≤ u.year := by
      simp only [Instant.fields, List.cons_lt_cons_iff] at hlt
      omega
    refine ⟨u.seconds 1970, exact_eq_seconds (Nat.le_trans hlo hyear) hu, ?_⟩
    exact Int.ofNat_lt.mpr (Instant.seconds_lt_seconds hlo hlt)
  · intro h
    obtain ⟨res, hres⟩ := Option.isSome_iff_exists.mp h
    obtain ⟨m, hmonth, -, -, -, hmonths⟩ := month_eq t.year t.mon_lt
    have hmonth' : month (Tm.of t).tmMon = some m := hmonth
    obtain ⟨hvalue, hfit⟩ := mktimeValue_of_checked hmonth' hres
    rw [mktimeValue_of hlo hhi hmonths] at hvalue
    omega
  · intro h
    exact checked_isSome hlo hhi (by omega)

/-- 26 May 2016, 07:35:28. -/
theorem kernel_mktime_unix_2016 :
    let t : Instant := ⟨2016, 4, 26, 7, 35, 28, by decide, by decide, by decide, by decide,
      by decide, by decide⟩
    ∃ res, kernelMktimeExact (Tm.of t) = some res ∧ res = 1464248128 := by
  obtain ⟨res, hres, hvalue, -⟩ := kernel_mktime_unix
    (t := ⟨2016, 4, 26, 7, 35, 28, by decide, by decide, by decide, by decide, by decide,
      by decide⟩) (by decide) (by decide)
  refine ⟨res, hres, hvalue.trans ?_⟩
  decide

end MySystem
