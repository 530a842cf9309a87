import BleSpeaker.Kernel.Time

/-!
# Days and the time of day

`mktime` counts days and adds the time of day; `gmtime_r` takes the two apart again, each rounding
towards zero. The facts here are about all values of the clock, before 1970 too, and about the dates
that `mktime` takes without a look at the month, the thirty-first of each.
-/

namespace BleSpeaker.Kernel
open Lib

variable {t : Tm} {timep : Int}

def dayNumber (year mon mday : Int) : Int := yearDays (year - 70) + yearDay (isleap (year + 1900)) mon mday

def timeOfDay (hour min sec : Int) : Int := (hour * 60 + min) * 60 + sec

theorem mktime_days (normal : t.Normal) :
    (mktime t).1 = dayNumber t.tmYear t.tmMon t.tmMday * spd + timeOfDay t.tmHour t.tmMin t.tmSec := by
  rw [mktime_normal normal, dayNumber, timeOfDay, spd]
  omega

theorem gmtimeR_timeOfDay (timep : Int) :
    timeOfDay (gmtimeR timep).tmHour (gmtimeR timep).tmMin (gmtimeR timep).tmSec = timep.tmod spd := by
  have seconds := Int.tmod_add_tdiv_mul (timep.tmod spd) 60
  have minutes := Int.tmod_add_tdiv_mul ((timep.tmod spd).tdiv 60) 60
  show (((timep.tmod spd).tdiv 60).tdiv 60 * 60 + ((timep.tmod spd).tdiv 60).tmod 60) * 60 +
    (timep.tmod spd).tmod 60 = timep.tmod spd
  omega

theorem gmtimeR_time_lt (timep : Int) :
    (gmtimeR timep).tmHour < 24 ∧ (gmtimeR timep).tmMin < 60 ∧ (gmtimeR timep).tmSec < 60 := by
  have work : timep.tmod spd < 86400 := Int.tmod_lt_of_pos _ (by decide)
  have second : (timep.tmod spd).tmod 60 < 60 := Int.tmod_lt_of_pos _ (by decide)
  have minute : ((timep.tmod spd).tdiv 60).tmod 60 < 60 := Int.tmod_lt_of_pos _ (by decide)
  have minutes : (timep.tmod spd).tdiv 60 ≤ 1439 :=
    Int.tdiv_le_tdiv (b := 86399) (by decide) (Int.lt_add_one_iff.mp work)
  have hours : ((timep.tmod spd).tdiv 60).tdiv 60 ≤ 23 := Int.tdiv_le_tdiv (by decide) minutes
  exact ⟨Int.lt_add_one_iff.mpr hours, minute, second⟩

theorem spm_bounds (i : Int) : 0 ≤ spm i ∧ spm i ≤ 365 := by
  unfold spm
  rw [List.getD_eq_getElem?_getD]
  cases found : ([0, 31, 59, 90, 120, 151, 181, 212, 243, 273, 304, 334, 365] : List Int)[i.toNat]? with
  | none => decide
  | some days =>
    have all : ([0, 31, 59, 90, 120, 151, 181, 212, 243, 273, 304, 334, 365] : List Int).all
        (fun days => 0 ≤ days ∧ days ≤ 365) := by
      decide
    have here := List.all_eq_true.mp all days (List.mem_of_getElem? found)
    simpa using here

theorem monthLoop_negative {work : Int} (negative : work < 0) (i : Nat) : monthLoop work i = 0 := by
  induction i with
  | zero => rfl
  | succ i ih =>
    have days := (spm_bounds (i + 1)).1
    rw [monthLoop, if_pos (by omega), ih]

theorem gmtimeR_before (before : timep.tdiv spd < 0) :
    (gmtimeR timep).tmYear = 70 ∧ (gmtimeR timep).tmMon = 0 ∧
      (gmtimeR timep).tmMday = 1 + timep.tdiv spd := by
  have years : yearLoop ((timep.tdiv spd).toNat + 1) 1970 (timep.tdiv spd) = (1970, timep.tdiv spd) := by
    have length := yearLength_pos 1970
    rw [yearLoop, if_neg (by omega)]
  have months : monthDay (isleap 1970) (timep.tdiv spd) = (0, 1 + timep.tdiv spd) := by
    have common : isleap 1970 = false := by decide
    have first : spm 0 = 0 := by decide
    simp [monthDay, common, monthLoop_negative before, first]
  unfold gmtimeR
  simp only [years, months]
  decide

/-! ### From 1970 on -/

theorem yearDays_natCast {n : Nat} (early : n ≤ 130) : yearDays n = daysBeforeYear (1970 + n) := by
  induction n with
  | zero => rfl
  | succ n ih =>
    have leap : isleap (1970 + (n : Int)) = leapYear (1970 + n) := isleap_natCast (1970 + n)
    rw [yearDays_succ (by omega), ih (by omega), daysBeforeYear_succ, yearLength, leap]
    push_cast
    rfl

theorem yearDays_eq {year : Nat} (late : 1970 ≤ year) (early : year ≤ 2100) :
    yearDays (year - 1970) = daysBeforeYear year := by
  obtain ⟨n, rfl⟩ := Nat.exists_eq_add_of_le late
  rw [show ((1970 + n : Nat) : Int) - 1970 = n by omega, yearDays_natCast (by omega)]

theorem yearDay_eq (leap : Bool) {month day : Nat} (month_pos : 1 ≤ month) (month_le : month ≤ 12)
    (day_pos : 1 ≤ day) : yearDay leap (month - 1) day = (daysBeforeMonth leap month + (day - 1) : Nat) := by
  have all : ∀ leap : Bool, ∀ n : Fin 12, spm (n : Nat) + (if leap ∧ ((n : Nat) : Int) > 1 then 1 else 0) =
      daysBeforeMonth leap (n + 1) := by
    decide
  have here := all leap ⟨month - 1, by omega⟩
  dsimp only at here
  rw [Nat.sub_add_cancel month_pos, Int.natCast_sub month_pos, Int.natCast_one] at here
  rw [yearDay, Int.natCast_add, ← here, Int.natCast_sub day_pos]
  omega

theorem dayNumber_eq {year month day hour minute second : Nat} (late : 1970 ≤ year) (early : year ≤ 2100)
    (month_pos : 1 ≤ month) (month_le : month ≤ 12) (day_pos : 1 ≤ day) :
    dayNumber (year - 1900) (month - 1) day * spd + timeOfDay hour minute second =
      secondsAt year month day hour minute second := by
  have years := yearDays_eq late early
  have days := yearDay_eq (leapYear year) month_pos month_le day_pos
  rw [dayNumber, show (year : Int) - 1900 - 70 = year - 1970 by omega,
    show (year : Int) - 1900 + 1900 = year by omega, isleap_natCast, years, days, timeOfDay, secondsAt, spd]
  push_cast
  omega

/-! ### Any time with a new time of day, or a new date -/

theorem gmtimeR_normal (timep : Int) {hour min sec : Int} (hour_lt : hour < 24) (min_lt : min < 60)
    (sec_lt : sec < 60) :
    ({ gmtimeR timep with tmHour := hour, tmMin := min, tmSec := sec } : Tm).Normal := by
  rcases Int.lt_or_le (timep.tdiv spd) 0 with before | days
  · obtain ⟨year, mon, mday⟩ := gmtimeR_before before
    constructor <;> dsimp only <;> omega
  · obtain ⟨year, mon, mon_le, mday, mday_le⟩ := gmtimeR_date days
    exact ⟨sec_lt, min_lt, hour_lt, mon, mon_le, mday_le, year⟩

theorem mktime_newTime (timep : Int) {hour min sec : Int} (hour_lt : hour < 24) (min_lt : min < 60)
    (sec_lt : sec < 60) :
    (mktime { gmtimeR timep with tmHour := hour, tmMin := min, tmSec := sec }).1 =
      dayNumber (gmtimeR timep).tmYear (gmtimeR timep).tmMon (gmtimeR timep).tmMday * spd +
        timeOfDay hour min sec :=
  mktime_days (gmtimeR_normal timep hour_lt min_lt sec_lt)

theorem mktime_newDate (timep : Int) {year mon mday : Int} (late : 70 ≤ year) (mon_nonneg : 0 ≤ mon)
    (mon_le : mon ≤ 11) (mday_le : mday ≤ 31) :
    (mktime { gmtimeR timep with tmYear := year, tmMon := mon, tmMday := mday }).1 =
      dayNumber year mon mday * spd + timep.tmod spd := by
  obtain ⟨hour, min, sec⟩ := gmtimeR_time_lt timep
  have normal : ({ gmtimeR timep with tmYear := year, tmMon := mon, tmMday := mday } : Tm).Normal :=
    ⟨sec, min, hour, mon_nonneg, mon_le, mday_le, late⟩
  rw [mktime_days normal, ← gmtimeR_timeOfDay timep]

theorem dayNumber_nonneg (days : 0 ≤ timep.tdiv spd) :
    0 ≤ dayNumber (gmtimeR timep).tmYear (gmtimeR timep).tmMon (gmtimeR timep).tmMday := by
  obtain ⟨year, mon, mon_le, mday, -⟩ := gmtimeR_date days
  have years := yearDays_nonneg (show 0 ≤ (gmtimeR timep).tmYear - 70 by omega)
  have inYear := yearDay_nonneg (isleap ((gmtimeR timep).tmYear + 1900)) mon mon_le mday
  rw [dayNumber]
  omega

theorem dayNumber_before (before : timep.tdiv spd < 0) :
    dayNumber (gmtimeR timep).tmYear (gmtimeR timep).tmMon (gmtimeR timep).tmMday = timep.tdiv spd := by
  obtain ⟨year, mon, mday⟩ := gmtimeR_before before
  have none : yearDays (70 - 70) = 0 := by decide
  have first : spm 0 = 0 := by decide
  rw [year, mon, mday, dayNumber, none, yearDay, first, if_neg (by decide)]
  omega

end BleSpeaker.Kernel
