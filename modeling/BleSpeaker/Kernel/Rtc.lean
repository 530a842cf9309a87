import BleSpeaker.Kernel.Days

/-!
# The software clock

`soft_rtc_control` of `soft_rtc.c` and `set_date` and `set_time` of `rtc.c`. The clock counts whole
seconds since `init_tick`. Each of the two functions reads the clock once and writes it once, and
the ticks at which it does so are arguments.
-/

namespace BleSpeaker.Kernel
open Lib

def rtTickPerSecond : Nat := 1000

structure SoftRtc where
  initTick : UInt32
  initTime : Int
  deriving DecidableEq

structure Access where
  read : UInt32
  write : UInt32

namespace SoftRtc
variable {rtc : SoftRtc} {tick : UInt32} {d : DateTime}

def elapsed (rtc : SoftRtc) (tick : UInt32) : Int := ((tick - rtc.initTick).toNat / rtTickPerSecond : Nat)

/-- `RT_DEVICE_CTRL_RTC_GET_TIME`, which is also what `time` returns. -/
def getTime (rtc : SoftRtc) (tick : UInt32) : Int := rtc.initTime + rtc.elapsed tick

def putTime (rtc : SoftRtc) (tick : UInt32) (t : Int) : SoftRtc :=
  { rtc with initTime := t - rtc.elapsed tick }

def setDate (rtc : SoftRtc) (ticks : Access) (year month day : Nat) : SoftRtc :=
  let tmNew := { localtimeR (rtc.getTime ticks.read) with
    tmYear := year - 1900
    tmMon := month - 1
    tmMday := day }
  rtc.putTime ticks.write (mktime tmNew).1

def setTime (rtc : SoftRtc) (ticks : Access) (hour minute second : Nat) : SoftRtc :=
  let tmNew := { localtimeR (rtc.getTime ticks.read) with
    tmHour := hour
    tmMin := minute
    tmSec := second }
  rtc.putTime ticks.write (mktime tmNew).1

theorem getTime_putTime {read write : UInt32} {t : Int} (same : rtc.elapsed read = rtc.elapsed write) :
    (rtc.putTime write t).getTime read = t := by
  show t - rtc.elapsed write + rtc.elapsed read = t
  omega

/-- What the clock has counted a second later at most; the tick counter may come round in between. -/
theorem elapsed_later (rtc : SoftRtc) {b c : Nat} (order : b ≤ c) (near : c ≤ b + 1000) :
    rtc.elapsed (.ofNat c) = rtc.elapsed (.ofNat b) ∨
      rtc.elapsed (.ofNat c) = rtc.elapsed (.ofNat b) + 1 ∨
      rtc.elapsed (.ofNat c) - rtc.elapsed (.ofNat b) = -4294966 ∨
      rtc.elapsed (.ofNat c) - rtc.elapsed (.ofNat b) = -4294967 := by
  have start := rtc.initTick.toNat_lt
  have later := UInt32.toNat_sub (.ofNat c) rtc.initTick
  have earlier := UInt32.toNat_sub (.ofNat b) rtc.initTick
  rw [UInt32.toNat_ofNat'] at later earlier
  rw [elapsed, elapsed, later, earlier, rtTickPerSecond]
  omega

/-- The date of the clock with the new time of day, and what has passed since. -/
theorem getTime_setTime (rtc : SoftRtc) (ticks : Access) (read : UInt32) {hour minute second : Nat}
    (hour_lt : hour < 24) (minute_lt : minute < 60) (second_lt : second < 60) :
    (rtc.setTime ticks hour minute second).getTime read =
      dayNumber (gmtimeR (rtc.getTime ticks.read)).tmYear (gmtimeR (rtc.getTime ticks.read)).tmMon
        (gmtimeR (rtc.getTime ticks.read)).tmMday * spd + timeOfDay hour minute second +
        (rtc.elapsed read - rtc.elapsed ticks.write) := by
  have written : (mktime { gmtimeR (rtc.getTime ticks.read) with
      tmHour := hour
      tmMin := minute
      tmSec := second }).1 = _ := mktime_newTime _ (by omega) (by omega) (by omega)
  show (mktime { gmtimeR (rtc.getTime ticks.read) with
    tmHour := hour
    tmMin := minute
    tmSec := second }).1 - rtc.elapsed ticks.write + rtc.elapsed read = _
  rw [written]
  omega

/-- The new date with the time of day of the clock, and what has passed since. -/
theorem getTime_setDate (rtc : SoftRtc) (ticks : Access) (read : UInt32) {year month day : Nat}
    (late : 1970 ≤ year) (month_pos : 1 ≤ month) (month_le : month ≤ 12) (day_le : day ≤ 31) :
    (rtc.setDate ticks year month day).getTime read =
      dayNumber (year - 1900) (month - 1) day * spd + (rtc.getTime ticks.read).tmod spd +
        (rtc.elapsed read - rtc.elapsed ticks.write) := by
  have written : (mktime { gmtimeR (rtc.getTime ticks.read) with
      tmYear := year - 1900
      tmMon := month - 1
      tmMday := day }).1 = _ := mktime_newDate _ (by omega) (by omega) (by omega) (by omega)
  show (mktime { gmtimeR (rtc.getTime ticks.read) with
    tmYear := year - 1900
    tmMon := month - 1
    tmMday := day }).1 - rtc.elapsed ticks.write + rtc.elapsed read = _
  rw [written]
  omega

theorem setTime_reads {ticks : Access} {read : UInt32} (clock : 0 ≤ rtc.getTime ticks.read)
    (same : rtc.elapsed read = rtc.elapsed ticks.write) :
    0 ≤ (rtc.setTime ticks d.hour d.minute d.second).getTime read ∧
      (gmtimeR ((rtc.setTime ticks d.hour d.minute d.second).getTime read)).tmHour = d.hour ∧
      (gmtimeR ((rtc.setTime ticks d.hour d.minute d.second).getTime read)).tmMin = d.minute ∧
      (gmtimeR ((rtc.setTime ticks d.hour d.minute d.second).getTime read)).tmSec = d.second := by
  obtain ⟨year, mon, mon_le, mday, mday_le⟩ := gmtimeR_date (Int.tdiv_nonneg clock (by decide))
  obtain ⟨-, -, hour, minute, second⟩ := d.bounds
  have written : (rtc.setTime ticks d.hour d.minute d.second).getTime read =
      (mktime { localtimeR (rtc.getTime ticks.read) with
        tmHour := d.hour
        tmMin := d.minute
        tmSec := d.second }).1 := getTime_putTime same
  rw [written]
  refine gmtimeR_mktime_time ⟨?_, ?_, ?_, mon, mon_le, mday_le, year⟩ mday ?_ ?_ ?_ <;> dsimp only <;>
    omega

theorem setDate_reads {ticks : Access} {read : UInt32} (late : 1970 ≤ d.year) (early : d.year ≤ 2099)
    (hour : (gmtimeR (rtc.getTime ticks.read)).tmHour = d.hour)
    (min : (gmtimeR (rtc.getTime ticks.read)).tmMin = d.minute)
    (sec : (gmtimeR (rtc.getTime ticks.read)).tmSec = d.second)
    (same : rtc.elapsed read = rtc.elapsed ticks.write) :
    (gmtimeR ((rtc.setDate ticks d.year d.month d.day).getTime read)).Shows d := by
  have written : (rtc.setDate ticks d.year d.month d.day).getTime read =
      (mktime { localtimeR (rtc.getTime ticks.read) with
        tmYear := d.year - 1900
        tmMon := d.month - 1
        tmMday := d.day }).1 := getTime_putTime same
  rw [written]
  exact gmtimeR_mktime ⟨rfl, rfl, rfl, hour, min, sec⟩ late early

end SoftRtc
end BleSpeaker.Kernel
