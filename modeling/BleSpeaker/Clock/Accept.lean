import BleSpeaker.Clock.Date

/-!
# What `date` accepts

`date` checks each of its six variables for a range of its own, and no check looks at two of them: the
day is held against 31 in every month. The variables have 16 and 8 bits, so a check sees what is left
of the number in the text.
-/

namespace BleSpeaker.Clock
open Kernel Lib

/-- The fields are in the order of `argv`: year, month, day, hour, minute, second. -/
def fieldBits : Fin 6 → Nat
  | 0 => 16
  | _ => 8

def InRange : Fin 6 → Nat → Prop
  | 0, n => 2000 ≤ n ∧ n ≤ 2099
  | 1, n => 1 ≤ n ∧ n ≤ 12
  | 2, n => 1 ≤ n ∧ n ≤ 31
  | 3, n => n ≤ 23
  | 4, n => n ≤ 59
  | 5, n => n ≤ 59

instance : ∀ (i : Fin 6) (n : Nat), Decidable (InRange i n)
  | 0, n => inferInstanceAs (Decidable (2000 ≤ n ∧ n ≤ 2099))
  | 1, n => inferInstanceAs (Decidable (1 ≤ n ∧ n ≤ 12))
  | 2, n => inferInstanceAs (Decidable (1 ≤ n ∧ n ≤ 31))
  | 3, n => inferInstanceAs (Decidable (n ≤ 23))
  | 4, n => inferInstanceAs (Decidable (n ≤ 59))
  | 5, n => inferInstanceAs (Decidable (n ≤ 59))

/-- What the check of a field sees. -/
def assigned (argv : Fin 6 → List UInt8) (i : Fin 6) : Nat := narrow (fieldBits i) (atoi (argv i))

variable {rtc : SoftRtc} {ticks : DateTicks} {argv : Fin 6 → List UInt8} {v : Fin 6 → Nat}

theorem forall_inRange (ranges : ∀ i, InRange i (v i)) :
    (2000 ≤ v 0 ∧ v 0 ≤ 2099) ∧ (1 ≤ v 1 ∧ v 1 ≤ 12) ∧ (1 ≤ v 2 ∧ v 2 ≤ 31) ∧ v 3 ≤ 23 ∧ v 4 ≤ 59 ∧
      v 5 ≤ 59 :=
  ⟨ranges 0, ranges 1, ranges 2, ranges 3, ranges 4, ranges 5⟩

theorem date_accepts (ranges : ∀ i, InRange i (assigned argv i)) :
    date rtc ticks argv =
      .ok ((rtc.setTime ticks.time (assigned argv 3) (assigned argv 4) (assigned argv 5)).setDate ticks.date
        (assigned argv 0) (assigned argv 1) (assigned argv 2)) := by
  obtain ⟨year, month, day, hour, min, sec⟩ := forall_inRange ranges
  simp only [assigned, fieldBits] at year month day hour min sec
  unfold date
  dsimp only
  rw [if_neg (by omega), if_neg (by omega), if_neg (by omega), if_neg (by omega), if_neg (by omega),
    if_neg (by omega)]
  rfl

theorem date_rejects {i : Fin 6} (out : ¬ InRange i (assigned argv i)) :
    ∃ message, date rtc ticks argv = .error message := by
  unfold date
  dsimp only
  iterate 6
    split
    · exact ⟨_, rfl⟩
  rename_i year month day hour min sec
  refine absurd ?_ out
  match i with
  | 0 => exact ⟨by simp [assigned, fieldBits]; omega, by simp [assigned, fieldBits]; omega⟩
  | 1 => exact ⟨by simp [assigned, fieldBits]; omega, by simp [assigned, fieldBits]; omega⟩
  | 2 => exact ⟨by simp [assigned, fieldBits]; omega, by simp [assigned, fieldBits]; omega⟩
  | 3 => exact Nat.not_lt.mp hour
  | 4 => exact Nat.not_lt.mp min
  | 5 => exact Nat.not_lt.mp sec

/-! ### Texts of digits -/

structure Digits (argv : Fin 6 → List UInt8) : Prop where
  digit : ∀ i, (argv i).all isDigit = true
  fits : ∀ i, digitsValue (argv i) ≤ 2147483647

def denoted (argv : Fin 6 → List UInt8) (i : Fin 6) : Nat := digitsValue (argv i)

/-- The clock is set, with the numbers of the texts, in exactly this case. -/
structure SetsWhen (argv : Fin 6 → List UInt8) (admitted : Prop) : Prop where
  sets : admitted → ∀ rtc ticks, date rtc ticks argv =
    .ok ((rtc.setTime ticks.time (denoted argv 3) (denoted argv 4) (denoted argv 5)).setDate ticks.date
      (denoted argv 0) (denoted argv 1) (denoted argv 2))
  leaves : ¬ admitted → ∀ rtc ticks, ∃ message, date rtc ticks argv = .error message

theorem assigned_digits (digits : Digits argv) (i : Fin 6) :
    assigned argv i = denoted argv i % 2 ^ fieldBits i := by
  rw [assigned, narrow, atoi_digits (List.all_eq_true.mp (digits.digit i))]
  norm_cast

theorem inRange_lt {i : Fin 6} {n : Nat} (range : InRange i n) : n < 2 ^ fieldBits i := by
  match i with
  | 0 => exact Nat.lt_of_le_of_lt range.2 (by decide)
  | 1 => exact Nat.lt_of_le_of_lt range.2 (by decide)
  | 2 => exact Nat.lt_of_le_of_lt range.2 (by decide)
  | 3 => exact Nat.lt_of_le_of_lt range (by decide)
  | 4 => exact Nat.lt_of_le_of_lt range (by decide)
  | 5 => exact Nat.lt_of_le_of_lt range (by decide)

/-- With numbers that do not all come into their ranges by losing their upper bits only, `date` sets the clock
exactly if each is in its range. -/
theorem date_sets_when_inRange (digits : Digits argv)
    (whole : (∀ i, InRange i (denoted argv i % 2 ^ fieldBits i)) → ∀ i, InRange i (denoted argv i)) :
    SetsWhen argv (∀ i, InRange i (denoted argv i)) := by
  constructor
  · intro ranges rtc ticks
    have same : ∀ i, assigned argv i = denoted argv i := by
      intro i
      rw [assigned_digits digits]
      exact Nat.mod_eq_of_lt (inRange_lt (ranges i))
    rw [date_accepts fun i => by rw [same]; exact ranges i, same, same, same, same, same, same]
  · intro outside rtc ticks
    obtain ⟨i, out⟩ := not_forall.mp (mt whole outside)
    apply date_rejects (i := i)
    rw [assigned_digits digits]
    exact out

def texts (fields : List (List UInt8)) (i : Fin 6) : List UInt8 := fields.getD i []

/-- 2022-05-15 12:00:00 -/
def may : Fin 6 → List UInt8 :=
  texts [[50, 48, 50, 50], [48, 53], [49, 53], [49, 50], [48, 48], [48, 48]]

theorem date_sets_may : SetsWhen may (∀ i, InRange i (denoted may i)) := by
  apply date_sets_when_inRange
  · exact ⟨by decide, by decide⟩
  · decide

/-! ### Dates that do not exist -/

/-- An existing date-time of the years 2000 to 2099. -/
structure Existing (v : Fin 6 → Nat) : Prop where
  year : 2000 ≤ v 0 ∧ v 0 ≤ 2099
  month : 1 ≤ v 1 ∧ v 1 ≤ 12
  day : 1 ≤ v 2 ∧ v 2 ≤ daysInMonth (leapYear (v 0)) (v 1)
  hour : v 3 ≤ 23
  minute : v 4 ≤ 59
  second : v 5 ≤ 59

/-- 2022-02-31 12:00:00 -/
def february : Fin 6 → List UInt8 :=
  texts [[50, 48, 50, 50], [48, 50], [51, 49], [49, 50], [48, 48], [48, 48]]

/-- The thirty-first of February is accepted. -/
theorem date_sets_february :
    ¬ ∀ argv, Digits argv → SetsWhen argv (Existing (denoted argv)) := by
  intro always
  have exact := always february ⟨by decide, by decide⟩
  have missing : ¬ Existing (denoted february) := by
    intro exists'
    exact absurd exists'.day.2 (by decide)
  obtain ⟨message, rejected⟩ := exact.leaves missing ⟨0, 0⟩ ⟨⟨0, 0⟩, ⟨0, 0⟩⟩
  rw [date_accepts (by decide)] at rejected
  cases rejected

end BleSpeaker.Clock
