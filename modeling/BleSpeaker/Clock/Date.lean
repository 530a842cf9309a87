import BleSpeaker.Kernel.Rtc
import BleSpeaker.Lib.Tokens

/-!
# Setting and showing the clock

`date`, `num2str` and `getStrTime` of `oled_btn.cpp`. `date` reads six numbers, narrows each to its
variable, checks ranges and sets first the time and then the date. `getStrTime` writes the clock as
`YYYY-MM-DD HH:MM:SS`.
-/

namespace BleSpeaker.Clock
open Kernel Lib

structure DateTicks where
  time : Access
  date : Access

/-- An `int` stored into an unsigned variable of `w` bits. -/
def narrow (w : Nat) (x : Int) : Nat := (x % 2 ^ w).toNat

/-- The clock, or what is printed instead of setting it. -/
def date (rtc : SoftRtc) (ticks : DateTicks) (argv : Fin 6 → List UInt8) : Except String SoftRtc :=
  let year := narrow 16 (atoi (argv 0))
  let month := narrow 8 (atoi (argv 1))
  let day := narrow 8 (atoi (argv 2))
  let hour := narrow 8 (atoi (argv 3))
  let min := narrow 8 (atoi (argv 4))
  let sec := narrow 8 (atoi (argv 5))
  if year > 2099 ∨ year < 2000 then .error "year is out of range [2000-2099]\n"
  else if month = 0 ∨ month > 12 then .error "month is out of range [1-12]\n"
  else if day = 0 ∨ day > 31 then .error "day is out of range [1-31]\n"
  else if hour > 23 then .error "hour is out of range [0-23]\n"
  else if min > 59 then .error "minute is out of range [0-59]\n"
  else if sec > 59 then .error "second is out of range [0-59]\n"
  else .ok ((rtc.setTime ticks.time hour min sec).setDate ticks.date year month day)

def num2str (i : Int) : List UInt8 := [UInt8.ofInt (i.tdiv 10 + 48), UInt8.ofInt (i.tmod 10 + 48)]

/-- 45 is `-`, 58 is `:`. -/
def getStrTime (rtc : SoftRtc) (tick : UInt32) : List UInt8 :=
  let t := localtimeR (rtc.getTime tick)
  num2str ((t.tmYear + 1900).tdiv 100) ++ num2str ((t.tmYear + 1900).tmod 100) ++ [45] ++
    num2str (t.tmMon + 1) ++ [45] ++ num2str t.tmMday ++ [32] ++ num2str t.tmHour ++ [58] ++
    num2str t.tmMin ++ [58] ++ num2str t.tmSec ++ [0]

/-! ### The text of a date-time -/

def yearDigits (year : Nat) : List UInt8 := twoDigits (year / 100) ++ twoDigits (year % 100)

/-- `YYYY-MM-DD HH:MM:SS` -/
def timeText (d : DateTime) : List UInt8 :=
  yearDigits d.year ++ [45] ++ twoDigits d.month ++ [45] ++ twoDigits d.day ++ [32] ++
    twoDigits d.hour ++ [58] ++ twoDigits d.minute ++ [58] ++ twoDigits d.second

variable {d : DateTime} {rtc : SoftRtc} {tick : UInt32} {ticks : DateTicks} {argv : Fin 6 → List UInt8}

theorem num2str_eq {i : Int} {n : Nat} (same : i = n) (small : n < 100) : num2str i = twoDigits n := by
  have all : ∀ n : Fin 100, num2str ((n : Nat) : Int) = twoDigits n := by decide +kernel
  rw [same]
  exact all ⟨n, small⟩

theorem getStrTime_eq (shows : (localtimeR (rtc.getTime tick)).Shows d) (early : d.year ≤ 2099) :
    getStrTime rtc tick = timeText d ++ [0] := by
  obtain ⟨month, day, hour, minute, second⟩ := d.bounds
  have year : (localtimeR (rtc.getTime tick)).tmYear + 1900 = d.year := by
    rw [shows.year]
    omega
  have century : ((d.year : Int)).tdiv 100 = ((d.year / 100 : Nat) : Int) := by
    rw [Int.tdiv_eq_ediv_of_nonneg (by omega)]
    omega
  have rest : ((d.year : Int)).tmod 100 = ((d.year % 100 : Nat) : Int) := by
    rw [Int.tmod_eq_emod_of_nonneg (by omega)]
    omega
  unfold getStrTime timeText yearDigits
  dsimp only
  rw [year, num2str_eq century (by omega), num2str_eq rest (by omega),
    num2str_eq (n := d.month) (by rw [shows.mon]; omega) (by omega),
    num2str_eq shows.mday (by omega), num2str_eq shows.hour (by omega), num2str_eq shows.min (by omega),
    num2str_eq shows.sec (by omega)]

/-! ### Setting it -/

def fields (d : DateTime) : List (List UInt8) :=
  [yearDigits d.year, twoDigits d.month, twoDigits d.day, twoDigits d.hour, twoDigits d.minute,
    twoDigits d.second]

theorem narrow_atoi {w n : Nat} {s : List UInt8} (value : atoi s = n) (small : n < 2 ^ w) :
    narrow w (atoi s) = n := by
  rw [narrow, value]
  norm_cast
  exact Nat.mod_eq_of_lt small

theorem atoi_yearDigits {year : Nat} (late : 2000 ≤ year) (early : year ≤ 2099) :
    atoi (yearDigits year) = year := by
  have all : ∀ n : Fin 100, atoi (yearDigits (2000 + n)) = ((2000 + n : Nat) : Int) := by decide +kernel
  have here := all ⟨year - 2000, by omega⟩
  rwa [Nat.add_sub_cancel' late] at here

theorem date_fields (late : 2000 ≤ d.year) (early : d.year ≤ 2099)
    (args : ∀ i : Fin 6, (fields d)[i.val]? = some (argv i)) :
    date rtc ticks argv = .ok ((rtc.setTime ticks.time d.hour d.minute d.second).setDate ticks.date
      d.year d.month d.day) := by
  have month_pos := d.month_pos
  have day_pos := d.day_pos
  obtain ⟨month, day, hour, minute, second⟩ := d.bounds
  have yearValue : narrow 16 (atoi (argv 0)) = d.year := by
    rw [← Option.some.inj (args 0)]
    exact narrow_atoi (atoi_yearDigits late early) (by omega)
  have field : ∀ (i : Fin 6) (n : Nat), (fields d)[i.val]? = some (twoDigits n) → n < 100 →
      narrow 8 (atoi (argv i)) = n := by
    intro i n here small
    rw [← Option.some.inj (here.symm.trans (args i))]
    exact narrow_atoi (atoi_twoDigits small) (by omega)
  unfold date
  rw [yearValue, field 1 d.month rfl (by omega), field 2 d.day rfl (by omega), field 3 d.hour rfl (by omega),
    field 4 d.minute rfl (by omega), field 5 d.second rfl (by omega)]
  dsimp only
  rw [if_neg (by omega), if_neg (by omega), if_neg (by omega), if_neg (by omega), if_neg (by omega),
    if_neg (by omega)]

/-- All accesses of one call of `date`, and the reading at `tick` after it, are in the same second. -/
structure SameSecond (rtc : SoftRtc) (ticks : DateTicks) (tick : UInt32) : Prop where
  timeWrite : rtc.elapsed ticks.time.write = rtc.elapsed tick
  dateRead : rtc.elapsed ticks.date.read = rtc.elapsed tick
  dateWrite : rtc.elapsed ticks.date.write = rtc.elapsed tick

theorem getStrTime_date (late : 2000 ≤ d.year) (early : d.year ≤ 2099)
    (clock : 0 ≤ rtc.getTime ticks.time.read) (still : SameSecond rtc ticks tick) :
    getStrTime ((rtc.setTime ticks.time d.hour d.minute d.second).setDate ticks.date d.year d.month d.day)
      tick = timeText d ++ [0] := by
  obtain ⟨-, hour, min, sec⟩ := SoftRtc.setTime_reads (d := d) clock
    (still.dateRead.trans still.timeWrite.symm)
  have shows := SoftRtc.setDate_reads (d := d) (by omega) early hour min sec still.dateWrite.symm
  exact getStrTime_eq shows early

end BleSpeaker.Clock
