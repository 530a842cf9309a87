import Mathlib.Init

/-!
# Gregorian date-times

A date-time that exists. The fields carry their bounds, so that the thirtieth of February cannot be
written down.
-/

namespace BleSpeaker.Lib

def leapYear (year : Nat) : Bool := year % 4 = 0 ∧ (year % 100 ≠ 0 ∨ year % 400 = 0)

/-- Months count from 1. -/
def daysInMonth (leap : Bool) (month : Nat) : Nat :=
  match month with
  | 2 => if leap then 29 else 28
  | 4 | 6 | 9 | 11 => 30
  | _ => 31

structure DateTime where
  year : Nat
  month : Nat
  day : Nat
  hour : Nat
  minute : Nat
  second : Nat
  month_pos : 1 ≤ month
  month_le : month ≤ 12
  day_pos : 1 ≤ day
  day_le : day ≤ daysInMonth (leapYear year) month
  hour_lt : hour < 24
  minute_lt : minute < 60
  second_lt : second < 60

theorem daysInMonth_le (leap : Bool) (month : Nat) : daysInMonth leap month ≤ 31 := by
  unfold daysInMonth
  split
  · split <;> decide
  all_goals decide

theorem DateTime.bounds (d : DateTime) :
    d.month ≤ 12 ∧ d.day ≤ 31 ∧ d.hour < 24 ∧ d.minute < 60 ∧ d.second < 60 :=
  ⟨d.month_le, Nat.le_trans d.day_le (daysInMonth_le _ _), d.hour_lt, d.minute_lt, d.second_lt⟩

/-! ### Counting from 1970 -/

def daysBeforeYear (year : Nat) : Nat :=
  (List.range (year - 1970)).foldl (fun days k => days + if leapYear (1970 + k) then 366 else 365) 0

theorem daysBeforeYear_succ (n : Nat) :
    daysBeforeYear (1970 + (n + 1)) = daysBeforeYear (1970 + n) + if leapYear (1970 + n) then 366 else 365 := by
  unfold daysBeforeYear
  rw [Nat.add_sub_cancel_left, Nat.add_sub_cancel_left, List.range_succ, List.foldl_append]
  rfl

def daysBeforeMonth (leap : Bool) (month : Nat) : Nat :=
  (List.range (month - 1)).foldl (fun days k => days + daysInMonth leap (k + 1)) 0

/-- The seconds from the start of 1970. A day behind the last one of its month is counted on. -/
def secondsAt (year month day hour minute second : Nat) : Nat :=
  (((daysBeforeYear year + daysBeforeMonth (leapYear year) month + (day - 1)) * 24 + hour) * 60 + minute) * 60 +
    second

def DateTime.seconds (d : DateTime) : Nat := secondsAt d.year d.month d.day d.hour d.minute d.second

end BleSpeaker.Lib
