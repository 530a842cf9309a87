import BleSpeaker.Clock.Accept

/-!
# The end of a 32-bit `time_t`

`date` takes the years to 2099, and `mktime` counts in `time_t`. `mktimeResults` has every sum and every
product that `mktime` computes on its way, without a bound, to be held against 2147483647. The greatest
one is the last or the one before it, so it is a matter of the two times that `mktime` is asked for: the new
time of day on the old date, and the new date with the time of day read back. The clock itself goes on to
count in 32 bits, and whoever reads it behind 03:14:07 on the nineteenth of January 2038 reads a time before
1970: `represented_iff` says that this must not happen to `getStrTime` either.
-/

namespace BleSpeaker.Clock
open Kernel Lib

/-! ### What `mktime` computes -/

variable {t : Tm}

/-- What `set_time` hands to `mktime`. -/
def newTime (rtc : SoftRtc) (ticks : Access) (hour minute second : Nat) : Tm :=
  { localtimeR (rtc.getTime ticks.read) with tmHour := hour, tmMin := minute, tmSec := second }

/-- What `set_date` hands to `mktime`. -/
def newDate (rtc : SoftRtc) (ticks : Access) (year month day : Nat) : Tm :=
  { localtimeR (rtc.getTime ticks.read) with tmYear := year - 1900, tmMon := month - 1, tmMday := day }

/-- The clock as it is at `tick` for a `time_t` of 32 bits. -/
def at32 (rtc : SoftRtc) (tick : UInt32) : SoftRtc :=
  { rtc with initTime := (rtc.getTime tick).bmod 4294967296 - rtc.elapsed tick }

def setTime32 (rtc : SoftRtc) (ticks : Access) (hour minute second : Nat) : SoftRtc :=
  (at32 rtc ticks.read).setTime ticks hour minute second

def setDate32 (rtc : SoftRtc) (ticks : Access) (year month day : Nat) : SoftRtc :=
  (at32 rtc ticks.read).setDate ticks year month day

variable {rtc : SoftRtc} {ticks : DateTicks} {argv : Fin 6 → List UInt8} {tick : UInt32}
  {year month day hour minute second : Nat}

theorem bmod_small {x : Int} (low : -2147483648 ≤ x) (high : x ≤ 2147483647) : x.bmod 4294967296 = x := by
  rw [Int.bmod_def]
  split <;> omega

theorem at32_small (low : -2147483648 ≤ rtc.getTime tick) (high : rtc.getTime tick ≤ 2147483647) :
    at32 rtc tick = rtc := by
  have same : rtc.getTime tick - rtc.elapsed tick = rtc.initTime := by
    rw [SoftRtc.getTime]
    omega
  rw [at32, bmod_small low high, same]

/-- Where 32 bits are enough for what it reads, this is `date`. -/
theorem date_eq_setDate32 {set : SoftRtc} (ranges : ∀ i, InRange i (assigned argv i))
    (time : set = setTime32 rtc ticks.time (assigned argv 3) (assigned argv 4) (assigned argv 5))
    (first : -2147483648 ≤ rtc.getTime ticks.time.read ∧ rtc.getTime ticks.time.read ≤ 2147483647)
    (second : -2147483648 ≤ set.getTime ticks.date.read ∧ set.getTime ticks.date.read ≤ 2147483647) :
    date rtc ticks argv =
      .ok (setDate32 set ticks.date (assigned argv 0) (assigned argv 1) (assigned argv 2)) := by
  rw [date_accepts ranges, setDate32, at32_small second.1 second.2, time, setTime32, at32_small first.1 first.2]

theorem setTime_newTime (rtc : SoftRtc) (ticks : Access) (hour minute second : Nat) :
    rtc.setTime ticks hour minute second =
      rtc.putTime ticks.write (mktime (newTime rtc ticks hour minute second)).1 := rfl

theorem setDate_newDate (rtc : SoftRtc) (ticks : Access) (year month day : Nat) :
    rtc.setDate ticks year month day = rtc.putTime ticks.write (mktime (newDate rtc ticks year month day)).1 :=
  rfl

end BleSpeaker.Clock
