import MySystem.Time.Mktime

/-!
# `time_init`

The clock's registers are read one by one while the clock goes on. A schedule
lists who goes next, the clock with a tick or the program with a port access.
-/

namespace MySystem

open Machine Gregorian

/-! ## The clock -/

/-- Two decimal digits, one in each half of the byte. -/
def bcd (n : Nat) : Byte := BitVec.ofNat 8 (n / 10 * 16 + n % 10)

/-- The register behind an index, for the indices that the program uses. -/
def cmosRegister (t : Instant) (addr : Byte) : Byte :=
  match addr.toNat with
  | 0 => bcd t.sec
  | 2 => bcd t.min
  | 4 => bcd t.hour
  | 7 => bcd t.mday
  | 8 => bcd (t.mon + 1)
  | 9 => bcd (t.year % 100)
  | _ => 0

/-! ## The program -/

/-- `BCD_TO_BIN(val)`: the low four bits, and ten times the others. -/
def bcdToBin (val : Int) : Int := val % 16 + val / 16 * 10

namespace Tm

/-- The fields in the order of their assignments. -/
def get (time : Tm) : Nat → Int
  | 0 => time.tmSec
  | 1 => time.tmMin
  | 2 => time.tmHour
  | 3 => time.tmMday
  | 4 => time.tmMon
  | _ => time.tmYear

def set (time : Tm) (k : Nat) (val : Int) : Tm :=
  match k with
  | 0 => { time with tmSec := val }
  | 1 => { time with tmMin := val }
  | 2 => { time with tmHour := val }
  | 3 => { time with tmMday := val }
  | 4 => { time with tmMon := val }
  | _ => { time with tmYear := val }

/-- The conversions after the loop and `time.tm_mon--`. -/
def decode (time : Tm) : Tm where
  tmSec := bcdToBin time.tmSec
  tmMin := bcdToBin time.tmMin
  tmHour := bcdToBin time.tmHour
  tmMday := bcdToBin time.tmMday
  tmMon := bcdToBin time.tmMon - 1
  tmYear := bcdToBin time.tmYear

end Tm

/-- The argument of the `k`-th `CMOS_READ`, the one of the loop condition last. -/
def cmosAddress : Nat → Byte
  | 1 => 2
  | 2 => 4
  | 3 => 7
  | 4 => 8
  | 5 => 9
  | _ => 0

/-- The program is before the `outb_p` or the `inb_p` of a `CMOS_READ`, behind
the loop, or at its end. -/
inductive Pc where
  | select (k : Nat)
  | fetch (k : Nat)
  | convert
  | done

/-- The clock, the program, and the seconds that the clock has shown since the
first register read of the pass, the newest first. -/
structure TimeInit where
  now : Instant
  index : Byte
  pc : Pc
  time : Tm
  startupTime : Word
  pass : List Instant

namespace TimeInit

/-- Some registers of the pass are read and some are not. -/
def inPass (s : TimeInit) : Bool :=
  match s.pc with
  | .select k | .fetch k => k != 0
  | .convert | .done => false

/-- The clock goes on by a second. -/
def tick (s : TimeInit) : TimeInit :=
  { s with
    now := s.now.next
    pass := if s.inPass then s.now.next :: s.pass else s.pass }

/-- The program's next access to a port, or what follows the loop. -/
def advance (s : TimeInit) : TimeInit :=
  match s.pc with
  | .select k => { s with index := cmosAddress k, pc := .fetch k }
  | .fetch k =>
      let val : Int := (cmosRegister s.now s.index).toNat
      if k = 0 then
        { s with time := s.time.set 0 val, pc := .select 1, pass := [s.now] }
      else if k < 6 then
        { s with time := s.time.set k val, pc := .select (k + 1) }
      else if s.time.tmSec ≠ val then { s with pc := .select 0 }
      else { s with pc := .convert }
  | .convert =>
      match kernelMktime s.time.decode with
      | some res =>
          { s with
            time := s.time.decode
            startupTime := BitVec.ofInt 32 res
            pc := .done }
      -- no month of the table
      | none => s
  | .done => s

/-- Who goes next. -/
inductive Event where
  | clock
  | program

def step (s : TimeInit) : Event → TimeInit
  | .clock => s.tick
  | .program => s.advance

/-- A run under a schedule. -/
def run (s : TimeInit) (events : List Event) : TimeInit := events.foldl step s

end TimeInit

/-! ## What is read -/

/-- The fields as the registers have them in a second. -/
def cmosTm (t : Instant) : Tm where
  tmSec := (bcd t.sec).toNat
  tmMin := (bcd t.min).toNat
  tmHour := (bcd t.hour).toNat
  tmMday := (bcd t.mday).toNat
  tmMon := (bcd (t.mon + 1)).toNat
  tmYear := (bcd (t.year % 100)).toNat

/-- The fields in numbers, with the years of the century. -/
def clockTm (t : Instant) : Tm where
  tmSec := t.sec
  tmMin := t.min
  tmHour := t.hour
  tmMday := t.mday
  tmMon := t.mon
  tmYear := (t.year % 100 : Nat)

theorem toNat_bcd {n : Nat} (h : n < 100) : (bcd n).toNat = n / 10 * 16 + n % 10 := by
  rw [bcd, BitVec.toNat_ofNat, Nat.mod_eq_of_lt (by omega)]

theorem bcdToBin_bcd {n : Nat} (h : n < 100) : bcdToBin (bcd n).toNat = n := by
  rw [bcdToBin, toNat_bcd h]
  omega

theorem bcd_inj {m n : Nat} (hm : m < 100) (hn : n < 100) (h : (bcd m).toNat = (bcd n).toNat) :
    m = n := by
  rw [toNat_bcd hm, toNat_bcd hn] at h
  omega

theorem decode_cmosTm (t : Instant) : (cmosTm t).decode = clockTm t := by
  have := t.sec_lt
  have := t.min_lt
  have := t.hour_lt
  have := t.mday_le
  have := monthLength_le t.year t.mon
  have := t.mon_lt
  simp only [Tm.decode, cmosTm, clockTm, Tm.mk.injEq]
  refine ⟨bcdToBin_bcd (by omega), bcdToBin_bcd (by omega), bcdToBin_bcd (by omega),
    bcdToBin_bcd (by omega), ?_, bcdToBin_bcd (by omega)⟩
  rw [bcdToBin_bcd (by omega)]
  omega

/-- The selected register holds the field that is assigned. -/
theorem cmosRegister_address (t : Instant) {k : Nat} (h : k < 6) :
    ((cmosRegister t (cmosAddress k)).toNat : Int) = (cmosTm t).get k := by
  interval_cases k <;> rfl

theorem Tm.get_set (time : Tm) (k : Nat) (val : Int) : (time.set k val).get k = val := by
  match k with
  | 0 | 1 | 2 | 3 | 4 => rfl
  | k + 5 => rfl

theorem Tm.get_set_of_lt (time : Tm) {j k : Nat} (val : Int) (hjk : j < k) (hk : k < 6) :
    (time.set k val).get j = time.get j := by
  interval_cases k <;> interval_cases j <;> rfl

theorem Tm.ext_get {a b : Tm} (h : ∀ j < 6, a.get j = b.get j) : a = b := by
  obtain ⟨⟩ := a
  obtain ⟨⟩ := b
  rw [Tm.mk.injEq]
  exact ⟨h 0 (by decide), h 1 (by decide), h 2 (by decide), h 3 (by decide), h 4 (by decide),
    h 5 (by decide)⟩

/-! ## Every schedule -/

namespace TimeInit

/-- The pass began in the second `a`, `d` ticks ago. The seconds were read then,
and each other of the first `k` fields at some time since. -/
structure Reads (s : TimeInit) (k : Nat) (a : Instant) (d : Nat) : Prop where
  now : s.now = Instant.next^[d] a
  length : s.pass.length = d + 1
  pass : ∀ i ≤ d, Instant.next^[i] a ∈ s.pass
  sec : s.time.tmSec = (cmosTm a).tmSec
  fields : ∀ j < k, ∃ i ≤ d, s.time.get j = (cmosTm (Instant.next^[i] a)).get j

/-- What holds before each access. -/
def Consistent (s : TimeInit) : Prop :=
  match s.pc with
  | .select k => k = 0 ∨ k ≤ 6 ∧ ∃ a d, Reads s k a d
  | .fetch k => s.index = cmosAddress k ∧ (k = 0 ∨ k ≤ 6 ∧ ∃ a d, Reads s k a d)
  | .convert => s.pass.length ≤ 60 → ∃ t ∈ s.pass, s.time = cmosTm t
  | .done => s.pass.length ≤ 60 → ∃ t ∈ s.pass, s.time = clockTm t ∧
      ∃ res, kernelMktime (clockTm t) = some res ∧ s.startupTime = BitVec.ofInt 32 res

variable {s : TimeInit} {k d : Nat} {a : Instant}

/-- A tick in the middle of a pass leaves what was read. -/
theorem Reads.tick (h : Reads s k a d) (hpass : s.inPass) : Reads s.tick k a (d + 1) := by
  have hnow : s.now.next = Instant.next^[d + 1] a := by
    rw [Function.iterate_succ_apply', h.now]
  have htick : s.tick.pass = s.now.next :: s.pass := if_pos hpass
  refine ⟨hnow, ?_, ?_, h.sec, ?_⟩
  · rw [htick, List.length_cons, h.length]
  · intro i hi
    rw [htick]
    obtain hi | rfl := Nat.lt_or_eq_of_le hi
    · exact List.mem_cons_of_mem _ (h.pass i (Nat.le_of_lt_succ hi))
    · rw [hnow]
      exact List.mem_cons_self
  · intro j hj
    obtain ⟨i, hi, hfield⟩ := h.fields j hj
    exact ⟨i, Nat.le_succ_of_le hi, hfield⟩

/-- The next field is that of the current second. -/
theorem Reads.set (h : Reads s k a d) (hk : 0 < k) (hk' : k < 6) (pc : Pc) :
    Reads { s with time := s.time.set k ((cmosTm s.now).get k), pc := pc } (k + 1) a d := by
  have hsec := Tm.get_set_of_lt s.time ((cmosTm s.now).get k) hk hk'
  refine ⟨h.now, h.length, h.pass, hsec.trans h.sec, ?_⟩
  intro j hj
  obtain hj | rfl := Nat.lt_or_eq_of_le (Nat.le_of_lt_succ hj)
  · obtain ⟨i, hi, hfield⟩ := h.fields j hj
    exact ⟨i, hi, (Tm.get_set_of_lt _ _ hj hk').trans hfield⟩
  · refine ⟨d, Nat.le_refl d, ?_⟩
    rw [← h.now]
    exact Tm.get_set ..

/-- In less than a minute the seconds do not come back, so that no second has
gone by if they are the same. -/
theorem Reads.same (h : Reads s 6 a d) (hpass : s.pass.length ≤ 60)
    (hsec : s.time.tmSec = (cmosTm s.now).tmSec) : ∃ t ∈ s.pass, s.time = cmosTm t := by
  have hlast := s.now.sec_lt
  have hfirst := a.sec_lt
  have hd : d < 60 := by
    have := h.length
    omega
  have hbytes : (bcd a.sec).toNat = (bcd s.now.sec).toNat :=
    Int.ofNat.inj (h.sec.symm.trans hsec)
  have heq : a.sec = (a.sec + d) % 60 := by
    rw [← a.sec_iterate_next d, ← h.now]
    exact bcd_inj (by omega) (by omega) hbytes
  obtain rfl : d = 0 := by omega
  refine ⟨a, h.pass 0 (Nat.le_refl 0), Tm.ext_get fun j hj => ?_⟩
  obtain ⟨i, hi, hfield⟩ := h.fields j hj
  obtain rfl := Nat.le_zero.mp hi
  exact hfield

theorem Consistent.tick (h : s.Consistent) : s.tick.Consistent := by
  obtain ⟨now, index, pc, time, startupTime, pass⟩ := s
  cases pc with
  | select k =>
      by_cases hzero : k = 0
      · exact Or.inl hzero
      · obtain ⟨hk, a, d, hreads⟩ := h.resolve_left hzero
        exact Or.inr ⟨hk, a, d + 1, hreads.tick (bne_iff_ne.mpr hzero)⟩
  | fetch k =>
      refine ⟨h.1, ?_⟩
      by_cases hzero : k = 0
      · exact Or.inl hzero
      · obtain ⟨hk, a, d, hreads⟩ := h.2.resolve_left hzero
        exact Or.inr ⟨hk, a, d + 1, hreads.tick (bne_iff_ne.mpr hzero)⟩
  | convert => exact h
  | done => exact h

/-- The month of a clock is in the table. -/
theorem kernelMktime_clockTm (t : Instant) : ∃ res, kernelMktime (clockTm t) = some res := by
  obtain ⟨m, hmonth, -⟩ := month_eq t.year t.mon_lt
  have hyear : t.year % 100 < 100 := Nat.mod_lt _ (by decide)
  have hmonth' : month (clockTm t).tmMon = some m := hmonth
  refine ⟨_, kernelMktime_eq hmonth' ?_⟩
  show -2 ^ 30 < ((t.year % 100 : Nat) : Int) ∧ ((t.year % 100 : Nat) : Int) < 2 ^ 30
  omega

/-- The read of a register. -/
theorem Consistent.fetch (hpc : s.pc = .fetch k) (h : s.Consistent) :
    s.advance.Consistent := by
  rw [Consistent, hpc] at h
  obtain ⟨hindex, h⟩ := h
  by_cases hzero : k = 0
  · subst hzero
    have hval := cmosRegister_address s.now (show 0 < 6 by decide)
    rw [← hindex] at hval
    rw [advance, hpc]
    simp only [hval, if_true]
    refine Or.inr ⟨by decide, s.now, 0, rfl, rfl, ?_, rfl, ?_⟩
    · intro i hi
      obtain rfl := Nat.le_zero.mp hi
      exact List.mem_singleton.mpr rfl
    · intro j hj
      obtain rfl := Nat.lt_one_iff.mp hj
      exact ⟨0, Nat.le_refl 0, rfl⟩
  · obtain ⟨hk, a, d, hreads⟩ := h.resolve_left hzero
    by_cases hlast : k < 6
    · have hval := cmosRegister_address s.now hlast
      rw [← hindex] at hval
      rw [advance, hpc]
      simp only [hval, if_neg hzero, if_pos hlast]
      exact Or.inr ⟨hlast, a, d, hreads.set (Nat.pos_of_ne_zero hzero) hlast _⟩
    · obtain rfl : k = 6 := by omega
      have hval : ((cmosRegister s.now (cmosAddress 6)).toNat : Int) = (cmosTm s.now).tmSec :=
        cmosRegister_address s.now (show 0 < 6 by decide)
      rw [← hindex] at hval
      rw [advance, hpc]
      simp only [hval, if_neg hzero, if_neg hlast]
      split
      case isTrue => exact Or.inl rfl
      case isFalse hsec =>
        intro hpass
        exact hreads.same hpass (not_not.mp hsec)

theorem Consistent.advance (h : s.Consistent) : s.advance.Consistent := by
  cases hpc : s.pc with
  | select k =>
      rw [Consistent, hpc] at h
      rw [TimeInit.advance, hpc]
      refine ⟨rfl, h.imp_right fun ⟨hk, a, d, hreads⟩ => ⟨hk, a, d, ?_⟩⟩
      exact ⟨hreads.now, hreads.length, hreads.pass, hreads.sec, hreads.fields⟩
  | fetch k => exact h.fetch hpc
  | convert =>
      have hsame := h
      rw [Consistent, hpc] at h
      rw [TimeInit.advance, hpc]
      simp only
      split
      case h_2 => exact hsame
      case h_1 res hres =>
        intro hpass
        obtain ⟨t, ht, htime⟩ := h hpass
        rw [htime, decode_cmosTm] at hres
        refine ⟨t, ht, ?_, res, hres, rfl⟩
        rw [← decode_cmosTm, ← htime]
  | done =>
      have hsame : s.advance = s := by rw [TimeInit.advance, hpc]
      rw [hsame]
      exact h

theorem Consistent.run (h : s.Consistent) (events : List Event) : (s.run events).Consistent := by
  induction events generalizing s with
  | nil => exact h
  | cons event events ih =>
      cases event with
      | clock => exact ih h.tick
      | program => exact ih h.advance

end TimeInit

open TimeInit in
/-- The fields are those of one second of the last pass if the pass takes less
than a minute, and so is the time that is computed from them, as the program's
next step does. -/
theorem time_init_consistent {s : TimeInit} (hstart : s.pc = .select 0) (events : List Event)
    (hpass : (s.run events).pass.length ≤ 60) :
    ((s.run events).pc = .convert →
        (∃ t ∈ (s.run events).pass, (s.run events).time = cmosTm t) ∧
          (s.run events).advance.pc = .done) ∧
      ((s.run events).pc = .done → ∃ t ∈ (s.run events).pass, (s.run events).time = clockTm t ∧
        ∃ res, kernelMktime (clockTm t) = some res ∧
          (s.run events).startupTime = BitVec.ofInt 32 res) := by
  have hs : s.Consistent := by
    rw [Consistent, hstart]
    exact Or.inl rfl
  have hrun := hs.run events
  constructor
  · intro hpc
    rw [Consistent, hpc] at hrun
    obtain ⟨t, ht, htime⟩ := hrun hpass
    obtain ⟨res, hres⟩ := kernelMktime_clockTm t
    refine ⟨⟨t, ht, htime⟩, ?_⟩
    rw [advance, hpc]
    simp only [htime, decode_cmosTm, hres]
  · intro hpc
    rw [Consistent, hpc] at hrun
    exact hrun hpass

/-- Before the first access, in the last second of 1991. -/
def newYearsEve : TimeInit where
  now := ⟨1991, 11, 31, 23, 59, 59, by decide, by decide, by decide, by decide, by decide,
    by decide⟩
  index := 0
  pc := .select 0
  time := ⟨0, 0, 0, 0, 0, 0⟩
  startupTime := 0
  pass := []

/-- A tick after the first read makes the program read everything again. -/
def tickAfterSeconds : List TimeInit.Event :=
  List.replicate 2 .program ++ [.clock] ++ List.replicate 27 .program

theorem time_init_consistent_new_year :
    ∃ t ∈ (newYearsEve.run tickAfterSeconds).pass,
      (newYearsEve.run tickAfterSeconds).time = clockTm t ∧
        ∃ res, kernelMktime (clockTm t) = some res ∧
          (newYearsEve.run tickAfterSeconds).startupTime = BitVec.ofInt 32 res :=
  (time_init_consistent (s := newYearsEve) rfl tickAfterSeconds (by decide)).2 (by rfl)

/-! ## A clock that stands still -/

/-- `time_init` without a tick. -/
def timeInit (s : TimeInit) : TimeInit := s.run (List.replicate 15 .program)

theorem timeInit_eq {s : TimeInit} (hstart : s.pc = .select 0) {res : Int}
    (hres : kernelMktime (clockTm s.now) = some res) :
    (timeInit s).pc = .done ∧ (timeInit s).startupTime = BitVec.ofInt 32 res := by
  obtain ⟨now, index, pc, time, startupTime, pass⟩ := s
  obtain rfl : pc = .select 0 := hstart
  have hloop : timeInit ⟨now, index, .select 0, time, startupTime, pass⟩ =
      TimeInit.advance (TimeInit.advance ⟨now, 0, .fetch 6, cmosTm now, startupTime, [now]⟩) := rfl
  have hexit : TimeInit.advance ⟨now, 0, .fetch 6, cmosTm now, startupTime, [now]⟩ =
      ⟨now, 0, .convert, cmosTm now, startupTime, [now]⟩ := if_neg (not_not.mpr rfl)
  rw [hloop, hexit, TimeInit.advance]
  simp only [decode_cmosTm, show kernelMktime (clockTm now) = some res from hres, and_self]

/-- Time runs out in January 2038. -/
theorem year_le_2038 {t : Instant} (h : t.seconds 1970 ≤ 2 ^ 31 - 1) : t.year ≤ 2038 := by
  by_contra hyear
  have hyears := Gregorian.daysOfYears_mono 1970 (show 69 ≤ t.year - 1970 by omega)
  rw [daysOfYears_eq (show 69 ≤ 130 by decide)] at hyears
  rw [Instant.seconds, Instant.days] at h
  omega

theorem clockTm_of {t : Instant} (hlo : 1970 ≤ t.year) (hhi : t.year < 2000) :
    clockTm t = Tm.of t := by
  have hyear : ((t.year % 100 : Nat) : Int) = (t.year : Int) - 1900 := by omega
  rw [clockTm, Tm.of, hyear]

/-- A century makes no difference for the fourth years. -/
theorem leapExcess_clockTm (t : Instant) : leapExcess (clockTm t) = leapExcess (Tm.of t) := by
  have hleap : (((t.year % 100 : Nat) : Int) - 70 + 2).tmod 4 ≠ 0 ↔
      ((t.year : Int) - 1900 - 70 + 2).tmod 4 ≠ 0 := by
    rw [Ne, Ne, ← Int.dvd_iff_tmod_eq_zero, ← Int.dvd_iff_tmod_eq_zero]
    omega
  exact if_congr (and_congr Iff.rfl hleap) rfl rfl

/-- From 2000 on some seconds are missing, fewer than a word can count. -/
theorem mktimeValue_clockTm {t : Instant} (hlo : 2000 ≤ t.year) (hhi : t.year < 2100) (m : Int) :
    mktimeValue (clockTm t) m < mktimeValue (Tm.of t) m ∧
      mktimeValue (Tm.of t) m < mktimeValue (clockTm t) m + 2 ^ 32 := by
  have hyear : ((t.year % 100 : Nat) : Int) = (t.year : Int) - 2000 := by omega
  have hsince : sinceMonth (clockTm t) = sinceMonth (Tm.of t) := rfl
  rw [mktimeValue, mktimeValue, hsince, leapExcess_clockTm, monthStart, monthStart]
  simp only [clockTm, Tm.of, hyear, YEAR, DAY, HOUR, MINUTE]
  have htruncated := Int.mul_tdiv_add_tmod ((t.year : Int) - 2000 - 70 + 1) 4
  have hexact := Int.mul_tdiv_add_tmod ((t.year : Int) - 1900 - 70 + 1) 4
  have := Int.tmod_lt_of_pos ((t.year : Int) - 2000 - 70 + 1) (show (0 : Int) < 4 by decide)
  have := Int.tmod_lt_of_pos ((t.year : Int) - 1900 - 70 + 1) (show (0 : Int) < 4 by decide)
  have := Int.lt_tmod_of_pos ((t.year : Int) - 2000 - 70 + 1) (show (0 : Int) < 4 by decide)
  have := Int.lt_tmod_of_pos ((t.year : Int) - 1900 - 70 + 1) (show (0 : Int) < 4 by decide)
  omega

/-- A word keeps a result modulo 2^32. -/
theorem ofInt_int32_eq {v : Int} {n : Nat} (h : BitVec.ofInt 32 (int32 v) = Word.of n) :
    v % 2 ^ 32 = (n : Int) % 2 ^ 32 := by
  have hint := congrArg BitVec.toInt (h.trans (BitVec.ofInt_natCast 32 n).symm)
  rw [BitVec.toInt_ofInt, BitVec.toInt_ofInt, int32, Int.bmod_bmod] at hint
  have hmod := congrArg (· % ((2 ^ 32 : Nat) : Int)) hint
  simp only [Int.bmod_emod] at hmod
  exact hmod

/-- `startup_time` is the Unix time up to the end of 1999. -/
theorem time_init_unix {s : TimeInit} (hstart : s.pc = .select 0) (hlo : 1970 ≤ s.now.year)
    (hhi : s.now.seconds 1970 ≤ 2 ^ 31 - 1) :
    (timeInit s).pc = .done ∧
      ((timeInit s).startupTime = Word.of (s.now.seconds 1970) ↔ s.now.year < 2000) := by
  have hlast := year_le_2038 hhi
  obtain ⟨m, hmonth, -, -, -, hmonths⟩ := month_eq s.now.year s.now.mon_lt
  have hvalue := mktimeValue_of hlo (by omega) hmonths
  have hres : kernelMktime (clockTm s.now) = some (int32 (mktimeValue (clockTm s.now) m)) := by
    have hmonth' : month (clockTm s.now).tmMon = some m := hmonth
    apply kernelMktime_eq hmonth'
    have := Nat.mod_lt s.now.year (show 0 < 100 by decide)
    show -2 ^ 30 < ((s.now.year % 100 : Nat) : Int) ∧ ((s.now.year % 100 : Nat) : Int) < 2 ^ 30
    omega
  obtain ⟨hdone, hstartup⟩ := timeInit_eq hstart hres
  refine ⟨hdone, ?_, ?_⟩
  · intro hequal
    by_contra hyear
    obtain ⟨hless, hnear⟩ := mktimeValue_clockTm (t := s.now) (by omega) (by omega) m
    rw [hvalue] at hless hnear
    have hmod := ofInt_int32_eq (hstartup.symm.trans hequal)
    omega
  · intro hyear
    rw [hstartup, clockTm_of hlo hyear, hvalue, int32_eq (by omega) (by omega)]
    exact BitVec.ofInt_natCast ..

/-- In 1991 the time is right. -/
theorem time_init_unix_1991 :
    (timeInit newYearsEve).startupTime = Word.of (newYearsEve.now.seconds 1970) :=
  (time_init_unix (s := newYearsEve) rfl (by decide) (by decide)).2.mpr (by decide)

/-- The initial clock in `debuglog`, 26 May 2016 at 07:35:28. -/
def initialClock : TimeInit :=
  { newYearsEve with
    now := ⟨2016, 4, 26, 7, 35, 28, by decide, by decide, by decide, by decide, by decide,
      by decide⟩ }

/-- It is taken for a day of 1916. -/
theorem time_init_2016 :
    initialClock.pc = .select 0 ∧ initialClock.now.seconds 1970 = 1464248128 ∧
      (timeInit initialClock).pc = .done ∧
      (timeInit initialClock).startupTime = 2603541824 ∧
      (timeInit initialClock).startupTime ≠ Word.of (initialClock.now.seconds 1970) := by
  refine ⟨rfl, by decide, rfl, by decide, by decide⟩

end MySystem
