import BleSpeaker.Ble.Board
import BleSpeaker.Clock.Date
import BleSpeaker.Lib.CString

/-!
# A time message

`changeTime` of `oled_btn.cpp`. Each call allocates six blocks for the fields; the pointers that
`malloc` returned are an argument here. With a mail in the box it copies the message behind its `T`
into `time_get`, copies each token into its block and calls `date`. A null pointer, or a seventh
token, ends the run: `none`.

`mem` is the heap as bytes, and a pointer is an index into it.
-/

namespace BleSpeaker.Clock
open Ble Kernel Lib

structure TimeTask where
  mem : List UInt8
  timeParse : List (Option Nat)
  rtc : SoftRtc

/-- `"- :"` -/
def spl (b : UInt8) : Bool := b = 45 ∨ b = 32 ∨ b = 58

/-- `while(token!=NULL)`, with `cnt` for the next slot. -/
def copyTokens (timeParse : List (Option Nat)) (mem : List UInt8) (cnt : Nat) :
    List (List UInt8) → Option (List UInt8)
  | [] => some mem
  | token :: rest =>
    match timeParse[cnt]? with
    | some (some p) => copyTokens timeParse (strcpy mem p token) (cnt + 1) rest
    | _ => none

def dateArgs (timeParse : List (Option Nat)) (mem : List UInt8) : Option (Fin 6 → List UInt8) :=
  match timeParse with
  | [some a, some b, some c, some d, some e, some f] =>
    some fun i => stringAt mem ([a, b, c, d, e, f].getD i 0)
  | _ => none

def changeTime (task : TimeTask) (malloced : List (Option Nat)) (mail : Option (List UInt8))
    (ticks : DateTicks) : Option TimeTask :=
  let task := { task with timeParse := malloced }
  match mail with
  | none => some task
  | some timeInput =>
    let timeGet := rtStrncpy maxStr (timeInput.drop 1)
    match copyTokens task.timeParse task.mem 0 (tokens spl (cstr timeGet)) with
    | none => none
    | some mem =>
      match dateArgs task.timeParse mem with
      | none => none
      | some argv =>
        match date task.rtc ticks argv with
        | .ok rtc => some { task with mem, rtc }
        | .error _ => some { task with mem }

/-! ### Six blocks -/

/-- Blocks of 12 bytes, the least that `rt_malloc` hands out, that do not overlap. -/
structure Blocks (size : Nat) (slots : List Nat) : Prop where
  inside : ∀ p ∈ slots, p + 12 ≤ size
  apart : slots.Pairwise fun p q => p + 12 ≤ q ∨ q + 12 ≤ p

def copyAll (mem : List UInt8) (pairs : List (Nat × List UInt8)) : List UInt8 :=
  pairs.foldl (fun mem x => strcpy mem x.1 x.2) mem

variable {mem : List UInt8} {slots : List Nat} {pairs : List (Nat × List UInt8)}

theorem length_strcpy (mem : List UInt8) (p : Nat) (s : List UInt8) :
    (strcpy mem p s).length = mem.length := length_splice _ _ _

theorem stringAt_copyAll {p : Nat} (inside : p + 12 ≤ mem.length) (short : (stringAt mem p).length < 12)
    (fits : ∀ x ∈ pairs, x.1 + 12 ≤ mem.length ∧ x.2.length < 12)
    (apart : ∀ x ∈ pairs, p + 12 ≤ x.1 ∨ x.1 + 12 ≤ p) :
    stringAt (copyAll mem pairs) p = stringAt mem p := by
  induction pairs generalizing mem with
  | nil => rfl
  | cons x pairs ih =>
    obtain ⟨room, small⟩ := fits x List.mem_cons_self
    have same : stringAt (strcpy mem x.1 x.2) p = stringAt mem p := by
      apply stringAt_strcpy_other (by omega) (by omega)
      rcases apart x List.mem_cons_self with behind | before
      · left
        omega
      · right
        omega
    show stringAt (copyAll (strcpy mem x.1 x.2) pairs) p = _
    rw [ih, same]
    · rw [length_strcpy]
      exact inside
    · rw [same]
      exact short
    · rw [length_strcpy]
      exact fun y member => fits y (List.mem_cons_of_mem _ member)
    · exact fun y member => apart y (List.mem_cons_of_mem _ member)

theorem stringAt_copyAll_own (fits : ∀ x ∈ pairs, x.1 + 12 ≤ mem.length ∧ x.2.length < 12)
    (nulFree : ∀ x ∈ pairs, 0 ∉ x.2)
    (apart : pairs.Pairwise fun x y => x.1 + 12 ≤ y.1 ∨ y.1 + 12 ≤ x.1) :
    ∀ x ∈ pairs, stringAt (copyAll mem pairs) x.1 = x.2 := by
  induction pairs generalizing mem with
  | nil => simp
  | cons x pairs ih =>
    obtain ⟨others, later⟩ := List.pairwise_cons.mp apart
    obtain ⟨room, small⟩ := fits x List.mem_cons_self
    have copied : stringAt (strcpy mem x.1 x.2) x.1 = x.2 :=
      stringAt_strcpy (nulFree x List.mem_cons_self) (by omega)
    have rest : ∀ y ∈ pairs, y.1 + 12 ≤ (strcpy mem x.1 x.2).length ∧ y.2.length < 12 := by
      rw [length_strcpy]
      exact fun y member => fits y (List.mem_cons_of_mem _ member)
    show ∀ y ∈ x :: pairs, stringAt (copyAll (strcpy mem x.1 x.2) pairs) y.1 = y.2
    intro y member
    rcases List.mem_cons.mp member with rfl | member
    · rw [stringAt_copyAll _ _ rest others, copied]
      · rw [length_strcpy]
        exact room
      · rw [copied]
        exact small
    · exact ih rest (fun z member => nulFree z (List.mem_cons_of_mem _ member)) later y member

theorem copyTokens_eq {toks : List (List UInt8)} {cnt : Nat} (few : cnt + toks.length ≤ slots.length) :
    copyTokens (slots.map some) mem cnt toks = some (copyAll mem ((slots.drop cnt).zip toks)) := by
  induction toks generalizing mem cnt with
  | nil => simp [copyTokens, copyAll]
  | cons token toks ih =>
    rw [List.length_cons] at few
    have here : (slots.map some)[cnt]? = some (some slots[cnt]) := by
      rw [List.getElem?_map, List.getElem?_eq_getElem (by omega)]
      rfl
    rw [copyTokens, here]
    dsimp only
    rw [ih (by omega), List.drop_eq_getElem_cons (show cnt < slots.length by omega), List.zip_cons_cons]
    rfl

/-- What `strtok` is given: `time_get` holds all of a message that `data_parsing` delivers. -/
theorem timeGet_eq {p : List UInt8} (rest : List UInt8) (free : 0 ∉ p) (short : p.length ≤ 29) :
    cstr (rtStrncpy maxStr (p ++ 0 :: rest)) = p := by
  apply cstr_rtStrncpy rest free
  rw [maxStr]
  omega

theorem six_slots (six : slots.length = 6) : ∃ a b c d e f, slots = [a, b, c, d, e, f] := by
  match slots, six with
  | [a, b, c, d, e, f], _ => exact ⟨a, b, c, d, e, f, rfl⟩

/-! ### The message of a date-time -/

variable {d : DateTime}

theorem twoDigits_plain {n : Nat} (small : n < 100) : ∀ b ∈ twoDigits n, spl b = false := by
  intro b member
  have digit := twoDigits_digit small b member
  simp only [isDigit, decide_eq_true_eq] at digit
  rw [spl, decide_eq_false_iff_not]
  rintro (rfl | rfl | rfl) <;> exact absurd digit (by decide)

theorem timeText_length (d : DateTime) : (timeText d).length = 19 := by
  simp [timeText, yearDigits, twoDigits]

theorem tokens_timeText (d : DateTime) (early : d.year ≤ 2099) : tokens spl (timeText d) = fields d := by
  obtain ⟨month, day, hour, minute, second⟩ := d.bounds
  have year : ∀ b ∈ yearDigits d.year, spl b = false := by
    unfold yearDigits
    rw [List.forall_mem_append]
    exact ⟨twoDigits_plain (by omega), twoDigits_plain (by omega)⟩
  have spelled : timeText d = yearDigits d.year ++ 45 :: (twoDigits d.month ++ 45 ::
      (twoDigits d.day ++ 32 :: (twoDigits d.hour ++ 58 :: (twoDigits d.minute ++ 58 ::
        twoDigits d.second)))) := by
    simp [timeText]
  rw [tokens, timeText_length, spelled, tokensUpTo_word (by simp [yearDigits, twoDigits]) year rfl,
    tokensUpTo_word (by simp [twoDigits]) (twoDigits_plain (by omega)) rfl,
    tokensUpTo_word (by simp [twoDigits]) (twoDigits_plain (by omega)) rfl,
    tokensUpTo_word (by simp [twoDigits]) (twoDigits_plain (by omega)) rfl,
    tokensUpTo_word (by simp [twoDigits]) (twoDigits_plain (by omega)) rfl,
    tokensUpTo_last (by simp [twoDigits]) (twoDigits_plain (by omega))]
  rfl

theorem twoDigits_nul_free {n : Nat} (small : n < 100) : 0 ∉ twoDigits n := by
  intro nul
  have digit := twoDigits_digit small 0 nul
  exact absurd digit (by decide)

theorem fields_short {d : DateTime} (early : d.year ≤ 2099) :
    ∀ s ∈ fields d, s.length < 12 ∧ 0 ∉ s := by
  obtain ⟨month, day, hour, minute, second⟩ := d.bounds
  have two : ∀ n : Nat, n < 100 → (twoDigits n).length < 12 ∧ 0 ∉ twoDigits n := by
    intro n small
    exact ⟨by simp [twoDigits], twoDigits_nul_free small⟩
  have year : (yearDigits d.year).length < 12 ∧ 0 ∉ yearDigits d.year := by
    refine ⟨by simp [yearDigits, twoDigits], ?_⟩
    unfold yearDigits
    rw [List.mem_append, not_or]
    exact ⟨twoDigits_nul_free (by omega), twoDigits_nul_free (by omega)⟩
  simp only [fields, List.forall_mem_cons, List.not_mem_nil, false_implies, implies_true, and_true]
  exact ⟨year, two _ (by omega), two _ (by omega), two _ (by omega), two _ (by omega), two _ (by omega)⟩

theorem timeText_nul_free {d : DateTime} (early : d.year ≤ 2099) : 0 ∉ timeText d := by
  have free : ∀ s ∈ fields d, 0 ∉ s := fun s member => (fields_short early s member).2
  simp only [fields, List.forall_mem_cons, List.not_mem_nil, false_implies, implies_true, and_true] at free
  obtain ⟨year, month, day, hour, minute, second⟩ := free
  simp [timeText, year, month, day, hour, minute, second]

theorem dateArgs_copyAll {toks : List (List UInt8)} (six : slots.length = 6) (full : toks.length = 6)
    (blocks : Blocks mem.length slots) (short : ∀ s ∈ toks, s.length < 12 ∧ 0 ∉ s) :
    ∃ argv, dateArgs (slots.map some) (copyAll mem (slots.zip toks)) = some argv ∧
      ∀ i : Fin 6, toks[i.val]? = some (argv i) := by
  have strings : ∀ x ∈ slots.zip toks, stringAt (copyAll mem (slots.zip toks)) x.1 = x.2 := by
    apply stringAt_copyAll_own
    · intro x member
      obtain ⟨slot, token⟩ := List.of_mem_zip member
      exact ⟨blocks.inside _ slot, (short _ token).1⟩
    · intro x member
      exact (short _ (List.of_mem_zip member).2).2
    · have firsts : (slots.zip toks).map Prod.fst = slots := List.map_fst_zip (by omega)
      have apart := blocks.apart
      rw [← firsts] at apart
      exact List.pairwise_map.mp apart
  obtain ⟨a, b, c, d, e, f, rfl⟩ := six_slots six
  refine ⟨_, rfl, fun i => ?_⟩
  have bound := i.isLt
  have own := strings ([a, b, c, d, e, f].getD i 0, toks.getD i []) ?_
  · dsimp only at own ⊢
    rw [own]
    simp [List.getElem?_eq_getElem (show i.val < toks.length by omega)]
  · apply List.mem_iff_getElem.mpr
    refine ⟨i, by simp; omega, ?_⟩
    simp [List.getElem?_eq_getElem (show i.val < toks.length by omega)]

/-- A message with the text of an existing date-time sets the clock to it: with six blocks to copy
into, on a clock at any time from 1970 on, and read in the same second, it is shown as it was sent. -/
theorem getStrTime_changeTime (d : DateTime) (late : 2000 ≤ d.year) (early : d.year ≤ 2099)
    (task : TimeTask) (slots : List Nat) (six : slots.length = 6) (blocks : Blocks task.mem.length slots)
    (rest : List UInt8) (ticks : DateTicks) (tick : UInt32)
    (clock : 0 ≤ task.rtc.getTime ticks.time.read) (still : SameSecond task.rtc ticks tick) :
    ∃ done, changeTime task (slots.map some) (some (84 :: timeText d ++ 0 :: rest)) ticks = some done ∧
      getStrTime done.rtc tick = timeText d ++ [0] := by
  have string : cstr (rtStrncpy maxStr (timeText d ++ 0 :: rest)) = timeText d :=
    timeGet_eq rest (timeText_nul_free early) (by rw [timeText_length]; decide)
  have full : (fields d).length = 6 := rfl
  obtain ⟨argv, found, args⟩ := dateArgs_copyAll six full blocks (fields_short early)
  have copied : copyTokens (slots.map some) task.mem 0 (fields d) =
      some (copyAll task.mem (slots.zip (fields d))) := copyTokens_eq (by omega)
  refine ⟨{ task with timeParse := slots.map some
                      mem := copyAll task.mem (slots.zip (fields d))
                      rtc := (task.rtc.setTime ticks.time d.hour d.minute d.second).setDate ticks.date
                        d.year d.month d.day }, ?_, getStrTime_date late early clock still⟩
  unfold changeTime
  simp only [List.cons_append, List.drop_succ_cons, List.drop_zero, string, tokens_timeText d early, copied,
    found, date_fields late early args]

def leapDay : DateTime :=
  ⟨2024, 2, 29, 23, 59, 58, by decide, by decide, by decide, by decide, by decide, by decide, by decide⟩

/-- The leap day set over a clock that stood at 2018-01-01, with blocks as `rt_malloc` lays them out. -/
theorem getStrTime_changeTime_leap_day :
    ∃ done, changeTime ⟨List.replicate 200 255, [], ⟨0, 1514764800⟩⟩ ([12, 36, 60, 84, 108, 132].map some)
        (some (84 :: timeText leapDay ++ [0])) ⟨⟨5000, 5001⟩, ⟨5002, 5003⟩⟩ = some done ∧
      getStrTime done.rtc 5999 =
        [50, 48, 50, 52, 45, 48, 50, 45, 50, 57, 32, 50, 51, 58, 53, 57, 58, 53, 56, 0] := by
  have text : timeText leapDay ++ [0] =
      [50, 48, 50, 52, 45, 48, 50, 45, 50, 57, 32, 50, 51, 58, 53, 57, 58, 53, 56, 0] := by decide
  rw [← text]
  exact getStrTime_changeTime leapDay (by decide) (by decide) ⟨List.replicate 200 255, [], ⟨0, 1514764800⟩⟩
    [12, 36, 60, 84, 108, 132] rfl ⟨by rw [List.length_replicate]; decide, by decide⟩ []
    ⟨⟨5000, 5001⟩, ⟨5002, 5003⟩⟩ 5999 (by decide) ⟨by decide, by decide, by decide⟩

end BleSpeaker.Clock
