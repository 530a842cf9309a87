import Mathlib.Tactic.IntervalCases
import BleSpeaker.Lib.Calendar

/-!
# `gmtime_r` and `mktime`

`time.c` of the C library layer, with `time_t` and `int` unbounded. The two loops of `gmtime_r` and
the normalising loop of `mktime` are as in the source; the first and the last have a bound on their
turns, which the callers here never reach.

`gmtimeR_mktime` is the round trip for the years of the clock, 1970 to 2099: in these years every
fourth one is a leap year, which is what the day count of `mktime` goes by.
-/

namespace BleSpeaker.Kernel
open Lib

structure Tm where
  tmSec : Int
  tmMin : Int
  tmHour : Int
  tmMday : Int
  tmMon : Int
  tmYear : Int
  tmWday : Int
  tmYday : Int
  deriving DecidableEq

def spm (i : Int) : Int :=
  [0, 31, 59, 90, 120, 151, 181, 212, 243, 273, 304, 334, 365].getD i.toNat 0

def spd : Int := 24 * 60 * 60

theorem spd_eq : spd = 86400 := rfl

def isleap (year : Int) : Bool := year.tmod 4 = 0 ∧ (year.tmod 100 ≠ 0 ∨ year.tmod 400 = 0)

def yearLength (i : Int) : Int := if isleap i then 366 else 365

/-- `for (i = 1970;; ++i)`, from `i` on. -/
def yearLoop : Nat → Int → Int → Int × Int
  | 0, i, work => (i, work)
  | turns + 1, i, work =>
    if work ≥ yearLength i then yearLoop turns (i + 1) (work - yearLength i) else (i, work)

/-- `for (i = 11; i && (__spm[i] > work); --i)`, from `i` on. -/
def monthLoop (work : Int) : Nat → Nat
  | 0 => 0
  | i + 1 => if spm (i + 1) > work then monthLoop work i else i + 1

def monthDay (leap : Bool) (yday : Int) : Int × Int :=
  let mday : Int := if leap ∧ yday > 58 ∧ yday = 59 then 2 else 1
  let work := if leap ∧ yday > 58 then yday - 1 else yday
  let i := monthLoop work 11
  (i, mday + (work - spm i))

def gmtimeR (timep : Int) : Tm :=
  let work := timep.tmod spd
  let days := timep.tdiv spd
  let years := yearLoop (days.toNat + 1) 1970 days
  let date := monthDay (isleap years.1) years.2
  { tmSec := work.tmod 60
    tmMin := (work.tdiv 60).tmod 60
    tmHour := (work.tdiv 60).tdiv 60
    tmWday := (4 + days).tmod 7
    tmYear := years.1 - 1900
    tmYday := years.2
    tmMon := date.1
    tmMday := date.2 }

def localtimeR (t : Int) : Tm := gmtimeR t

/-! ### `mktime` -/

def carrySec (t : Tm) : Tm :=
  if t.tmSec > 60 then { t with tmMin := t.tmMin + t.tmSec.tdiv 60, tmSec := t.tmSec.tmod 60 } else t

def carryMin (t : Tm) : Tm :=
  if t.tmMin > 60 then { t with tmHour := t.tmHour + t.tmMin.tdiv 60, tmMin := t.tmMin.tmod 60 } else t

def carryHour (t : Tm) : Tm :=
  if t.tmHour > 24 then { t with tmMday := t.tmMday + t.tmHour.tdiv 24, tmHour := t.tmHour.tmod 24 }
  else t

def carryMon (t : Tm) : Tm :=
  if t.tmMon > 12 then { t with tmYear := t.tmYear + t.tmMon.tdiv 12, tmMon := t.tmMon.tmod 12 } else t

/-- `while (t->tm_mday > __spm[1 + t->tm_mon])` -/
def mdayLoop : Nat → Tm → Tm
  | 0, t => t
  | turns + 1, t =>
    if t.tmMday > spm (1 + t.tmMon) then
      let mday := if t.tmMon = 1 ∧ isleap (t.tmYear + 1900) then t.tmMday - 1 else t.tmMday
      let t := { t with tmMday := mday - spm t.tmMon, tmMon := t.tmMon + 1 }
      mdayLoop turns (if t.tmMon > 11 then { t with tmMon := 0, tmYear := t.tmYear + 1 } else t)
    else t

/-- The days of whole years, with the correction from 2101 on. -/
def yearDays (years : Int) : Int :=
  let day := years * 365 + (years + 1).tdiv 4
  if years ≥ 131 then
    let centuries := ((years - 131).tdiv 100).toNat
    let day := day - ((centuries >>> 2 : Nat) * 3 + 1)
    let rest := centuries &&& 3
    day - (if rest = 3 then rest - 1 else rest : Nat)
  else day

def mktime (t : Tm) : Int × Tm :=
  let years := t.tmYear - 70
  let t := carryMon (carryHour (carryMin (carrySec t)))
  let t := mdayLoop (2 * t.tmMday.toNat + 2) t
  if t.tmYear < 70 then (-1, t)
  else
    let yday := spm t.tmMon + t.tmMday - 1 +
      (if isleap (t.tmYear + 1900) ∧ t.tmMon > 1 then 1 else 0)
    let day := yearDays years + yday
    (((day * 24 + t.tmHour) * 60 + t.tmMin) * 60 + t.tmSec,
      { t with tmYday := yday, tmWday := (day + 4).tmod 7 })

/-! ### Years -/

theorem isleap_natCast (y : Nat) : isleap y = leapYear y := by
  unfold isleap leapYear
  rw [Int.tmod_eq_emod_of_nonneg (by omega), Int.tmod_eq_emod_of_nonneg (by omega),
    Int.tmod_eq_emod_of_nonneg (by omega)]
  simp only [decide_eq_decide]
  omega

theorem yearLength_pos (i : Int) : 365 ≤ yearLength i ∧ yearLength i ≤ 366 := by
  unfold yearLength
  split <;> omega

theorem yearLoop_inside {turns : Nat} (i : Int) {work : Int} (nonneg : 0 ≤ work) (enough : work.toNat < turns) :
    i ≤ (yearLoop turns i work).1 ∧ 0 ≤ (yearLoop turns i work).2 ∧
      (yearLoop turns i work).2 < yearLength (yearLoop turns i work).1 := by
  induction turns generalizing i work with
  | zero => omega
  | succ turns ih =>
    have positive := yearLength_pos i
    unfold yearLoop
    split
    · rename_i whole
      have later := ih (i + 1) (show 0 ≤ work - yearLength i by omega) (by omega)
      omega
    · rename_i inside
      exact ⟨Int.le_refl _, nonneg, Int.not_le.mp inside⟩

def daysFrom (i : Int) : Nat → Int
  | 0 => 0
  | n + 1 => yearLength i + daysFrom (i + 1) n

theorem daysFrom_bounds (i : Int) (n : Nat) : (n : Int) ≤ daysFrom i n := by
  induction n generalizing i with
  | zero => simp [daysFrom]
  | succ n ih =>
    have positive := yearLength_pos i
    have later := ih (i + 1)
    simp only [daysFrom]
    omega

theorem yearLoop_skips (turns n : Nat) (i : Int) {w : Int} (nonneg : 0 ≤ w) :
    yearLoop (n + turns) i (daysFrom i n + w) = yearLoop turns (i + n) w := by
  induction n generalizing i with
  | zero => simp [daysFrom]
  | succ n ih =>
    have later := daysFrom_bounds (i + 1) n
    rw [Nat.add_right_comm, yearLoop, daysFrom, if_pos (by omega)]
    rw [show yearLength i + daysFrom (i + 1) n + w - yearLength i = daysFrom (i + 1) n + w by omega, ih]
    congr 1
    omega

theorem daysFrom_snoc (i : Int) (n : Nat) : daysFrom i (n + 1) = daysFrom i n + yearLength (i + n) := by
  induction n generalizing i with
  | zero => simp [daysFrom]
  | succ n ih =>
    rw [daysFrom, ih (i + 1), daysFrom, show i + 1 + (n : Int) = i + ((n + 1 : Nat) : Int) by omega]
    omega

/-- The leap years from 1970 to 2099 are every fourth, and the quarter that `mktime` counts goes up behind
each of them. -/
theorem yearDays_succ {n : Nat} (early : n < 130) : yearDays (n + 1 : Nat) = yearDays n + yearLength (1970 + n) := by
  have leap : isleap (1970 + (n : Int)) = leapYear (1970 + n) := isleap_natCast (1970 + n)
  unfold yearDays yearLength
  rw [leap, leapYear, if_neg (by omega), if_neg (by omega), Int.tdiv_eq_ediv_of_nonneg (by omega),
    Int.tdiv_eq_ediv_of_nonneg (by omega)]
  split
  · rename_i fourth
    simp only [decide_eq_true_eq] at fourth
    omega
  · rename_i common
    simp only [decide_eq_true_eq] at common
    omega

/-- Up to 2100 the day count of `mktime` is the number of days in the years before. -/
theorem daysFrom_eq_yearDays {n : Nat} (early : n ≤ 130) : daysFrom 1970 n = yearDays n := by
  induction n with
  | zero => rfl
  | succ n ih => rw [daysFrom_snoc, ih (by omega), yearDays_succ (by omega)]

theorem yearLoop_yearDays {n : Nat} (early : n ≤ 130) {w : Int} (nonneg : 0 ≤ w)
    (inside : w < yearLength (1970 + n)) :
    yearLoop ((yearDays n + w).toNat + 1) 1970 (yearDays n + w) = (1970 + (n : Int), w) := by
  have count := daysFrom_bounds 1970 n
  rw [← daysFrom_eq_yearDays early]
  obtain ⟨turns, more⟩ : ∃ turns, (daysFrom 1970 n + w).toNat + 1 = n + (turns + 1) :=
    ⟨(daysFrom 1970 n + w).toNat - n, by omega⟩
  rw [more, yearLoop_skips _ _ _ nonneg, yearLoop, if_neg (by omega)]

/-! ### Months -/

def yearDay (leap : Bool) (mon mday : Int) : Int :=
  spm mon + mday - 1 + (if leap ∧ mon > 1 then 1 else 0)

theorem toNat_lt_yearLength {leap : Bool} {w : Int} (nonneg : 0 ≤ w)
    (inside : w < if leap then 366 else 365) : w.toNat < if leap then 366 else 365 := by
  cases leap <;> simp only [if_true, if_false, Bool.false_eq_true] at inside ⊢ <;> omega

theorem monthDay_exists {leap : Bool} {w : Int} (nonneg : 0 ≤ w)
    (inside : w < if leap then 366 else 365) :
    ∃ month day : Nat, monthDay leap w = ((month : Int) - 1, (day : Int)) ∧ 1 ≤ month ∧ month ≤ 12 ∧
      1 ≤ day ∧ day ≤ daysInMonth leap month ∧ yearDay leap (month - 1) day = w := by
  have all : ∀ leap : Bool, ∀ w : Fin (if leap then 366 else 365),
      0 ≤ (monthDay leap (w : Nat)).1 ∧ (monthDay leap (w : Nat)).1 ≤ 11 ∧
        1 ≤ (monthDay leap (w : Nat)).2 ∧
        (monthDay leap (w : Nat)).2.toNat ≤ daysInMonth leap ((monthDay leap (w : Nat)).1.toNat + 1) ∧
        yearDay leap (monthDay leap (w : Nat)).1 (monthDay leap (w : Nat)).2 = ((w : Nat) : Int) := by
    decide +kernel
  have here := all leap ⟨w.toNat, toNat_lt_yearLength nonneg inside⟩
  dsimp only at here
  rw [Int.toNat_of_nonneg nonneg] at here
  obtain ⟨mon, mon_le, mday, mday_le, back⟩ := here
  refine ⟨(monthDay leap w).1.toNat + 1, (monthDay leap w).2.toNat, ?_, by omega, by omega, by omega, mday_le, ?_⟩
  · apply Prod.ext <;> dsimp only <;> omega
  · rw [show (((monthDay leap w).1.toNat + 1 : Nat) : Int) - 1 = (monthDay leap w).1 by omega,
      show (((monthDay leap w).2.toNat : Nat) : Int) = (monthDay leap w).2 by omega, back]

theorem monthDay_bounds {leap : Bool} {w : Int} (nonneg : 0 ≤ w)
    (inside : w < if leap then 366 else 365) :
    0 ≤ (monthDay leap w).1 ∧ (monthDay leap w).1 ≤ 11 ∧ 1 ≤ (monthDay leap w).2 ∧
      (monthDay leap w).2 ≤ 31 := by
  obtain ⟨month, day, date, month_pos, month_le, day_pos, day_le, -⟩ := monthDay_exists nonneg inside
  have short := daysInMonth_le leap month
  rw [date]
  dsimp only
  omega

theorem monthDay_yearDay {leap : Bool} {month day : Nat} (month_pos : 1 ≤ month) (month_le : month ≤ 12)
    (day_pos : 1 ≤ day) (day_le : day ≤ daysInMonth leap month) :
    monthDay leap (yearDay leap (month - 1) day) = ((month : Int) - 1, (day : Int)) ∧
      0 ≤ yearDay leap (month - 1) day ∧
      yearDay leap (month - 1) day < if leap then 366 else 365 := by
  have all : ∀ leap : Bool, ∀ month : Fin 13, ∀ day : Fin 32, 1 ≤ month.val → 1 ≤ day.val →
      day.val ≤ daysInMonth leap month →
      monthDay leap (yearDay leap ((month : Nat) - 1) (day : Nat)) =
          (((month : Nat) : Int) - 1, ((day : Nat) : Int)) ∧
        0 ≤ yearDay leap ((month : Nat) - 1) (day : Nat) ∧
        yearDay leap ((month : Nat) - 1) (day : Nat) < if leap then 366 else 365 := by
    decide +kernel
  have short := daysInMonth_le leap month
  exact all leap ⟨month, by omega⟩ ⟨day, by omega⟩ month_pos day_pos day_le

/-! ### The round trip -/

/-- Fields that `mktime` takes as they are: no carry, and at most 31 days. -/
structure Tm.Normal (t : Tm) : Prop where
  sec_lt : t.tmSec < 60
  min_lt : t.tmMin < 60
  hour_lt : t.tmHour < 24
  mon_nonneg : 0 ≤ t.tmMon
  mon_le : t.tmMon ≤ 11
  mday_le : t.tmMday ≤ 31
  year_ge : 70 ≤ t.tmYear

theorem spm_ge {mon : Int} (nonneg : 0 ≤ mon) (le : mon ≤ 11) : 31 ≤ spm (1 + mon) := by
  interval_cases mon <;> decide

theorem mktime_normal {t : Tm} (normal : t.Normal) :
    (mktime t).1 = (((yearDays (t.tmYear - 70) + yearDay (isleap (t.tmYear + 1900)) t.tmMon t.tmMday) * 24 +
      t.tmHour) * 60 + t.tmMin) * 60 + t.tmSec := by
  obtain ⟨sec, min, hour, nonneg, mon, mday, year⟩ := normal
  have month := spm_ge nonneg mon
  have carried : carryMon (carryHour (carryMin (carrySec t))) = t := by
    rw [carrySec, if_neg (by omega), carryMin, if_neg (by omega), carryHour, if_neg (by omega), carryMon,
      if_neg (by omega)]
  have looped : ∀ turns, mdayLoop (turns + 1) t = t := by
    intro turns
    rw [mdayLoop, if_neg (by omega)]
  unfold mktime
  simp only [carried, looped, if_neg (show ¬ t.tmYear < 70 by omega)]
  rfl

theorem yearDays_nonneg {years : Int} (nonneg : 0 ≤ years) : 0 ≤ yearDays years := by
  unfold yearDays
  have quarter : 0 ≤ (years + 1).tdiv 4 := Int.tdiv_nonneg (by omega) (by omega)
  split
  · rename_i late
    have centuries : ((years - 131).tdiv 100).toNat ≤ years - 131 := by
      rw [Int.tdiv_eq_ediv_of_nonneg (by omega)]
      omega
    have shifted : ((years - 131).tdiv 100).toNat >>> 2 ≤ ((years - 131).tdiv 100).toNat := by
      rw [Nat.shiftRight_eq_div_pow]
      exact Nat.div_le_self _ _
    have masked : ((years - 131).tdiv 100).toNat &&& 3 ≤ 3 := Nat.and_le_right
    dsimp only
    split <;> omega
  · dsimp only
    omega

theorem gmtimeR_parts {days hour min sec : Int} (nonneg : 0 ≤ days)
    (hour_nonneg : 0 ≤ hour) (hour_lt : hour < 24) (min_nonneg : 0 ≤ min) (min_lt : min < 60)
    (sec_nonneg : 0 ≤ sec) (sec_lt : sec < 60) :
    gmtimeR (((days * 24 + hour) * 60 + min) * 60 + sec) =
      { tmSec := sec
        tmMin := min
        tmHour := hour
        tmWday := (4 + days).tmod 7
        tmYear := (yearLoop (days.toNat + 1) 1970 days).1 - 1900
        tmYday := (yearLoop (days.toNat + 1) 1970 days).2
        tmMon := (monthDay (isleap (yearLoop (days.toNat + 1) 1970 days).1)
          (yearLoop (days.toNat + 1) 1970 days).2).1
        tmMday := (monthDay (isleap (yearLoop (days.toNat + 1) 1970 days).1)
          (yearLoop (days.toNat + 1) 1970 days).2).2 } := by
  have positive : 0 ≤ ((days * 24 + hour) * 60 + min) * 60 + sec := by omega
  have rest : (((days * 24 + hour) * 60 + min) * 60 + sec).tmod spd = (hour * 60 + min) * 60 + sec := by
    rw [Int.tmod_eq_emod_of_nonneg positive, spd]
    omega
  have whole : (((days * 24 + hour) * 60 + min) * 60 + sec).tdiv spd = days := by
    rw [Int.tdiv_eq_ediv_of_nonneg positive, spd]
    omega
  have second : ((hour * 60 + min) * 60 + sec).tmod 60 = sec := by
    rw [Int.tmod_eq_emod_of_nonneg (by omega)]
    omega
  have minutes : ((hour * 60 + min) * 60 + sec).tdiv 60 = hour * 60 + min := by
    rw [Int.tdiv_eq_ediv_of_nonneg (by omega)]
    omega
  have minute : (hour * 60 + min).tmod 60 = min := by
    rw [Int.tmod_eq_emod_of_nonneg (by omega)]
    omega
  have hours : (hour * 60 + min).tdiv 60 = hour := by
    rw [Int.tdiv_eq_ediv_of_nonneg (by omega)]
    omega
  unfold gmtimeR
  simp only [rest, whole, second, minutes, minute, hours]

theorem gmtimeR_date {timep : Int} (days : 0 ≤ timep.tdiv spd) :
    70 ≤ (gmtimeR timep).tmYear ∧ 0 ≤ (gmtimeR timep).tmMon ∧ (gmtimeR timep).tmMon ≤ 11 ∧
      1 ≤ (gmtimeR timep).tmMday ∧ (gmtimeR timep).tmMday ≤ 31 := by
  obtain ⟨year, work, inside⟩ := yearLoop_inside 1970 days (Nat.lt_add_one _)
  obtain ⟨mon, mon_le, mday, mday_le⟩ := monthDay_bounds work inside
  refine ⟨?_, mon, mon_le, mday, mday_le⟩
  show 70 ≤ (yearLoop _ 1970 _).1 - 1900
  omega

structure Tm.Shows (t : Tm) (d : DateTime) : Prop where
  year : t.tmYear = d.year - 1900
  mon : t.tmMon = d.month - 1
  mday : t.tmMday = d.day
  hour : t.tmHour = d.hour
  min : t.tmMin = d.minute
  sec : t.tmSec = d.second

variable {t : Tm} {d : DateTime}

theorem yearDay_nonneg (leap : Bool) {mon mday : Int} (nonneg : 0 ≤ mon) (le : mon ≤ 11) (pos : 1 ≤ mday) :
    0 ≤ yearDay leap mon mday := by
  have month : 0 ≤ spm mon := by interval_cases mon <;> decide
  unfold yearDay
  split <;> omega

theorem gmtimeR_mktime_time (normal : t.Normal) (mday : 1 ≤ t.tmMday) (hour : 0 ≤ t.tmHour)
    (min : 0 ≤ t.tmMin) (sec : 0 ≤ t.tmSec) :
    0 ≤ (mktime t).1 ∧ (gmtimeR (mktime t).1).tmHour = t.tmHour ∧
      (gmtimeR (mktime t).1).tmMin = t.tmMin ∧ (gmtimeR (mktime t).1).tmSec = t.tmSec := by
  have years := yearDays_nonneg (show 0 ≤ t.tmYear - 70 by have := normal.year_ge; omega)
  have days := yearDay_nonneg (isleap (t.tmYear + 1900)) normal.mon_nonneg normal.mon_le mday
  rw [mktime_normal normal,
    gmtimeR_parts (by omega) hour normal.hour_lt min normal.min_lt sec normal.sec_lt]
  exact ⟨by omega, rfl, rfl, rfl⟩

theorem Tm.Shows.normal (shows : t.Shows d) (late : 1970 ≤ d.year) : t.Normal := by
  have month_pos := d.month_pos
  obtain ⟨month, day, hour, minute, second⟩ := d.bounds
  obtain ⟨year, mon, mday, hours, min, sec⟩ := shows
  constructor <;> omega

/-- `gmtime_r` inverts `mktime` on every date-time from 1970 to 2099. -/
theorem gmtimeR_mktime (shows : t.Shows d) (late : 1970 ≤ d.year) (early : d.year ≤ 2099) :
    (gmtimeR (mktime t).1).Shows d := by
  have normal := shows.normal late
  obtain ⟨n, years, small⟩ : ∃ n : Nat, d.year = 1970 + n ∧ n ≤ 130 := ⟨d.year - 1970, by omega, by omega⟩
  obtain ⟨date, nonneg, inside⟩ := monthDay_yearDay d.month_pos d.month_le d.day_pos d.day_le
  have leap : isleap (t.tmYear + 1900) = leapYear d.year := by
    rw [shows.year, ← isleap_natCast]
    congr 1
    omega
  have length : (if leapYear d.year then 366 else 365) = yearLength (1970 + (n : Int)) := by
    rw [yearLength, ← isleap_natCast, years]
    rfl
  have seconds := mktime_normal normal
  rw [leap, shows.mon, shows.mday, shows.hour, shows.min, shows.sec,
    show t.tmYear - 70 = n by rw [shows.year]; omega] at seconds
  rw [length] at inside
  have found := yearLoop_yearDays small nonneg inside
  have days := yearDays_nonneg (show 0 ≤ (n : Int) by omega)
  obtain ⟨-, -, hour, minute, second⟩ := d.bounds
  have month : isleap (1970 + (n : Int)) = leapYear d.year := by
    rw [← isleap_natCast, years]
    rfl
  rw [seconds, gmtimeR_parts (by omega) (by omega) (by omega) (by omega) (by omega) (by omega) (by omega),
    found]
  simp only [month, date]
  constructor <;> simp only
  omega

end BleSpeaker.Kernel
