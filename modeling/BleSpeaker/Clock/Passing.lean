import BleSpeaker.Clock.Accept
import BleSpeaker.Clock.ChangeTime

/-!
# Setting a clock that runs

`date` sets the time of day on the old date and then the date on the time of day that it reads back, and
the clock runs in between. `date_within_iff` says when the clock ends within a second of what was asked
for: a second may pass between the two, but not midnight. A clock more than a day before 1970 counts its
time of day downwards, and takes only midnight over. `time_t` is wide enough for 2099 here; where its 32 bits
end is a matter of `Clock.Horizon`.
-/

namespace BleSpeaker.Clock
open Kernel Lib

/-- The ticks of the four accesses of one call, before they are cut to 32 bits. -/
structure Moments where
  timeRead : Nat
  timeWrite : Nat
  dateRead : Nat
  dateWrite : Nat
  time_order : timeRead ≤ timeWrite
  between : timeWrite ≤ dateRead
  date_order : dateRead ≤ dateWrite
  within : dateWrite ≤ timeRead + rtTickPerSecond

def Moments.ticks (m : Moments) : DateTicks :=
  ⟨⟨.ofNat m.timeRead, .ofNat m.timeWrite⟩, ⟨.ofNat m.dateRead, .ofNat m.dateWrite⟩⟩

def numbers (d : DateTime) : Fin 6 → Nat
  | 0 => d.year
  | 1 => d.month
  | 2 => d.day
  | 3 => d.hour
  | 4 => d.minute
  | 5 => d.second

/-- The clock is set, and right after that it is at most a second from `d`. -/
def Within (rtc : SoftRtc) (m : Moments) (argv : Fin 6 → List UInt8) (d : DateTime) : Prop :=
  ∃ done, date rtc m.ticks argv = .ok done ∧
    d.seconds - 1 ≤ done.getTime m.ticks.date.write ∧ done.getTime m.ticks.date.write ≤ d.seconds + 1

variable {d : DateTime} {rtc : SoftRtc} {m : Moments} {argv : Fin 6 → List UInt8}

theorem numbers_inRange (late : 2000 ≤ d.year) (early : d.year ≤ 2099) (i : Fin 6) :
    InRange i (numbers d i) := by
  obtain ⟨month, day, hour, minute, second⟩ := d.bounds
  match i with
  | 0 => exact ⟨late, early⟩
  | 1 => exact ⟨d.month_pos, month⟩
  | 2 => exact ⟨d.day_pos, day⟩
  | 3 => exact Nat.lt_succ_iff.mp hour
  | 4 => exact Nat.lt_succ_iff.mp minute
  | 5 => exact Nat.lt_succ_iff.mp second

/-- The clock after the call: the day that was asked for, with the time of day that was read back. -/
theorem date_clock (late : 2000 ≤ d.year) (early : d.year ≤ 2099)
    (args : ∀ i, assigned argv i = numbers d i) (ticks : DateTicks) :
    ∃ done, date rtc ticks argv = .ok done ∧
      done.getTime ticks.date.write = d.seconds - timeOfDay d.hour d.minute d.second +
        ((rtc.setTime ticks.time d.hour d.minute d.second).getTime ticks.date.read).tmod spd := by
  obtain ⟨month, day, hour, minute, second⟩ := d.bounds
  have seconds : dayNumber (d.year - 1900) (d.month - 1) d.day * spd + timeOfDay d.hour d.minute d.second =
      d.seconds := dayNumber_eq (by omega) (by omega) d.month_pos month d.day_pos
  refine ⟨_, date_accepts fun i => by rw [args]; exact numbers_inRange late early i, ?_⟩
  rw [args, args, args, args, args, args]
  simp only [numbers]
  rw [SoftRtc.getTime_setDate _ _ _ (by omega) d.month_pos month day, ← seconds]
  omega

/-- Of a time of day read back `delta` seconds after it was set. A tick counter that comes round in
between takes it back by 49 days and 17 hours. -/
theorem tmod_near_iff {day tod delta : Int} (nonneg : 0 ≤ tod) (small : tod < 86400)
    (passed : delta = 0 ∨ delta = 1 ∨ delta = -4294966 ∨ delta = -4294967) :
    (tod - 1 ≤ (day * spd + tod + delta).tmod spd ∧ (day * spd + tod + delta).tmod spd ≤ tod + 1) ↔
      (delta = 0 ∨ delta = 1 ∧ tod ≠ 86399) ∧ (0 ≤ day ∨ tod = 0 ∧ delta = 0) := by
  have parts := Int.tmod_add_tdiv_mul (day * spd + tod + delta) spd
  have below := Int.tmod_lt_of_pos (day * spd + tod + delta) (show 0 < spd by decide)
  have above := Int.lt_tmod_of_pos (day * spd + tod + delta) (show 0 < spd by decide)
  have sign : 0 ≤ day * spd + tod + delta → 0 ≤ (day * spd + tod + delta).tmod spd :=
    fun positive => Int.tmod_nonneg _ positive
  have sign' : day * spd + tod + delta ≤ 0 → (day * spd + tod + delta).tmod spd ≤ 0 := by
    intro negative
    have opposite := Int.tmod_nonneg spd (show 0 ≤ -(day * spd + tod + delta) by omega)
    rw [Int.neg_tmod] at opposite
    omega
  generalize (day * spd + tod + delta).tmod spd = r at *
  generalize (day * spd + tod + delta).tdiv spd = q at *
  rw [spd_eq] at *
  rcases passed with rfl | rfl | rfl | rfl
  · omega
  · omega
  · omega
  · omega

theorem dayNumber_nonneg_iff (timep : Int) :
    0 ≤ dayNumber (gmtimeR timep).tmYear (gmtimeR timep).tmMon (gmtimeR timep).tmMday ↔ -86400 < timep := by
  have parts := Int.tmod_add_tdiv_mul timep spd
  have above := Int.lt_tmod_of_pos timep (show 0 < spd by decide)
  rcases Int.lt_or_le (timep.tdiv spd) 0 with before | days
  · have negative : timep < 0 := by
      by_contra positive
      exact absurd (Int.tdiv_nonneg (Int.not_lt.mp positive) (show 0 ≤ spd by decide)) (by omega)
    have opposite := Int.tmod_nonneg spd (show 0 ≤ -timep by omega)
    rw [Int.neg_tmod] at opposite
    rw [dayNumber_before before]
    rw [spd_eq] at *
    omega
  · have nonneg := dayNumber_nonneg days
    rw [spd_eq] at *
    omega

/-- After `date` the clock is within a second of `d` exactly if no second passed between its two
halves, or one that did not end the day, and the clock was not more than a day before 1970, where only
midnight with no second passing comes out right. -/
theorem date_within_iff (d : DateTime) (late : 2000 ≤ d.year) (early : d.year ≤ 2099)
    (args : ∀ i, assigned argv i = numbers d i) (rtc : SoftRtc) (m : Moments) :
    Within rtc m argv d ↔
      (rtc.elapsed m.ticks.date.read = rtc.elapsed m.ticks.time.write ∨
        rtc.elapsed m.ticks.date.read = rtc.elapsed m.ticks.time.write + 1 ∧
          ¬ (d.hour = 23 ∧ d.minute = 59 ∧ d.second = 59)) ∧
      (-86400 < rtc.getTime m.ticks.time.read ∨
        (d.hour = 0 ∧ d.minute = 0 ∧ d.second = 0) ∧
          rtc.elapsed m.ticks.date.read = rtc.elapsed m.ticks.time.write) := by
  obtain ⟨-, -, hour, minute, second⟩ := d.bounds
  obtain ⟨done, accepted, clock⟩ : ∃ done, date rtc m.ticks argv = .ok done ∧ _ :=
    date_clock late early args m.ticks
  have near : m.dateRead ≤ m.timeWrite + 1000 := by
    have := m.time_order
    have := m.date_order
    have within := m.within
    rw [rtTickPerSecond] at within
    omega
  have passed := rtc.elapsed_later m.between near
  change rtc.elapsed m.ticks.date.read = rtc.elapsed m.ticks.time.write ∨
    rtc.elapsed m.ticks.date.read = rtc.elapsed m.ticks.time.write + 1 ∨
    rtc.elapsed m.ticks.date.read - rtc.elapsed m.ticks.time.write = -4294966 ∨
    rtc.elapsed m.ticks.date.read - rtc.elapsed m.ticks.time.write = -4294967 at passed
  have time := rtc.getTime_setTime m.ticks.time m.ticks.date.read hour minute second
  have tod : timeOfDay d.hour d.minute d.second = (d.hour * 60 + d.minute) * 60 + d.second := rfl
  have sign := dayNumber_nonneg_iff (rtc.getTime m.ticks.time.read)
  have reads : Within rtc m argv d ↔ timeOfDay d.hour d.minute d.second - 1 ≤
        ((rtc.setTime m.ticks.time d.hour d.minute d.second).getTime m.ticks.date.read).tmod spd ∧
      ((rtc.setTime m.ticks.time d.hour d.minute d.second).getTime m.ticks.date.read).tmod spd ≤
        timeOfDay d.hour d.minute d.second + 1 := by
    constructor
    · rintro ⟨done', accepted', lower, upper⟩
      rw [accepted] at accepted'
      obtain rfl := Except.ok.inj accepted'
      omega
    · intro bounds
      exact ⟨done, accepted, by omega, by omega⟩
  rw [reads, time, tmod_near_iff (by omega) (by omega) (by omega), sign]
  omega

/-- The last but one second of a leap day, with a second passing between the two halves. -/
theorem date_within_leap_day :
    Within ⟨0, 1514764800⟩ ⟨998, 999, 1000, 1001, by decide, by decide, by decide, by decide⟩
      (texts (fields leapDay)) leapDay :=
  (date_within_iff leapDay (by decide) (by decide) (by decide) ⟨0, 1514764800⟩
    ⟨998, 999, 1000, 1001, by decide, by decide, by decide, by decide⟩).mpr
    ⟨Or.inr ⟨by decide, by decide⟩, Or.inl (by decide)⟩

/-- 2022-12-31 23:59:59 -/
def yearEndTexts : Fin 6 → List UInt8 :=
  texts [[50, 48, 50, 50], [49, 50], [51, 49], [50, 51], [53, 57], [53, 57]]

/-- The last second of 2022, with the same ticks: the clock is set to the start of its day. -/
theorem date_not_within_yearEnd : ¬ ∀ d : DateTime, 2000 ≤ d.year → d.year ≤ 2099 → ∀ argv : Fin 6 → List UInt8,
    (∀ i, assigned argv i = numbers d i) → ∀ (rtc : SoftRtc) (m : Moments), Within rtc m argv d := by
  intro always
  obtain ⟨done, accepted, lower, -⟩ := always
    ⟨2022, 12, 31, 23, 59, 59, by decide, by decide, by decide, by decide, by decide, by decide, by decide⟩
    (by decide) (by decide) yearEndTexts (by decide) ⟨0, 1514764800⟩
    ⟨998, 999, 1000, 1001, by decide, by decide, by decide, by decide⟩
  have value : (date ⟨0, 1514764800⟩ ⟨⟨998, 999⟩, ⟨1000, 1001⟩⟩ yearEndTexts).toOption.map (·.getTime 1001) =
      some 1672444800 := by
    decide +kernel
  rw [show date ⟨0, 1514764800⟩ ⟨⟨998, 999⟩, ⟨1000, 1001⟩⟩ yearEndTexts = .ok done from accepted] at value
  have clock : done.getTime 1001 = 1672444800 := Option.some.inj value
  have seconds : secondsAt 2022 12 31 23 59 59 = 1672531199 := by decide +kernel
  change ((secondsAt 2022 12 31 23 59 59 : Nat) : Int) - 1 ≤ done.getTime 1001 at lower
  rw [clock, seconds] at lower
  exact absurd lower (by decide)

end BleSpeaker.Clock
