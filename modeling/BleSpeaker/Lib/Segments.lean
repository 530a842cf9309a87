import Mathlib.Data.List.Basic
import Mathlib.Data.List.Induction

/-!
# Terminated segments of a stream

`completed sep s` are the runs of `s` that a separator ends, in order, and `unfinished sep s` is
the run after the last separator. The lemmas say how both grow as the stream grows at its end,
which is the order in which a reader sees it.
-/

namespace BleSpeaker.Lib
variable {α : Type} [DecidableEq α] {sep b : α} {s : List α}

def completed (sep : α) (s : List α) : List (List α) := (s.splitOn sep).dropLast

def unfinished (sep : α) (s : List α) : List α := (s.splitOn sep).getLastD []

@[simp] theorem completed_nil : completed sep [] = [] := rfl

@[simp] theorem unfinished_nil : unfinished sep [] = [] := rfl

theorem completed_append_unfinished (sep : α) (s : List α) :
    completed sep s ++ [unfinished sep s] = s.splitOn sep := by
  unfold completed unfinished
  rw [List.getLastD_eq_getLast?, List.getLast?_eq_getLast_of_ne_nil (List.splitOn_ne_nil sep s)]
  exact List.dropLast_append_getLast (List.splitOn_ne_nil sep s)

theorem completed_eq {done : List (List α)} {last : List α} (split : s.splitOn sep = done ++ [last]) :
    completed sep s = done := by
  rw [completed, split, List.dropLast_concat]

theorem unfinished_eq {done : List (List α)} {last : List α} (split : s.splitOn sep = done ++ [last]) :
    unfinished sep s = last := by
  rw [unfinished, split, List.getLastD_eq_getLast?, List.getLast?_concat, Option.getD_some]

theorem splitOn_snoc_sep (sep : α) (s : List α) :
    (s ++ [sep]).splitOn sep = (completed sep s ++ [unfinished sep s]) ++ [[]] := by
  rw [completed_append_unfinished]
  simpa using List.splitOn_append_cons_self (a := sep) s []

@[simp] theorem completed_snoc_sep :
    completed sep (s ++ [sep]) = completed sep s ++ [unfinished sep s] :=
  completed_eq (splitOn_snoc_sep sep s)

@[simp] theorem unfinished_snoc_sep : unfinished sep (s ++ [sep]) = [] :=
  unfinished_eq (splitOn_snoc_sep sep s)

theorem splitOn_snoc_ne (differs : b ≠ sep) :
    (s ++ [b]).splitOn sep = completed sep s ++ [unfinished sep s ++ [b]] := by
  induction s with
  | nil => simp [List.splitOn_cons_eq_if_modifyHead, differs]
  | cons c s ih =>
    have whole : (c :: s).splitOn sep = if c == sep then [] :: s.splitOn sep
        else (s.splitOn sep).modifyHead (c :: ·) := List.splitOn_cons_eq_if_modifyHead ..
    rw [← completed_append_unfinished sep s] at whole
    rw [List.cons_append, List.splitOn_cons_eq_if_modifyHead, ih]
    by_cases ends : (c == sep) = true
    · rw [if_pos ends, ← List.cons_append] at whole
      rw [completed_eq whole, unfinished_eq whole, if_pos ends, List.cons_append]
    · rw [if_neg ends] at whole
      rw [if_neg ends]
      -- The element joins the first run, which is the last one too when nothing is completed.
      cases done : completed sep s with
      | nil =>
        simp only [done, List.nil_append, List.modifyHead_cons] at whole
        change _ = [] ++ [c :: unfinished sep s] at whole
        rw [completed_eq whole, unfinished_eq whole]
        rfl
      | cons first rest =>
        simp only [done, List.cons_append, List.modifyHead_cons] at whole
        rw [← List.cons_append] at whole
        rw [completed_eq whole, unfinished_eq whole]
        rfl

theorem completed_snoc_ne (differs : b ≠ sep) : completed sep (s ++ [b]) = completed sep s :=
  completed_eq (splitOn_snoc_ne differs)

theorem unfinished_snoc_ne (differs : b ≠ sep) :
    unfinished sep (s ++ [b]) = unfinished sep s ++ [b] :=
  unfinished_eq (splitOn_snoc_ne differs)

theorem completed_append_initial (sep : α) (s later : List α) :
    completed sep s <+: completed sep (s ++ later) := by
  induction later using List.reverseRecOn with
  | nil => exact ⟨[], by simp⟩
  | append_singleton later b ih =>
    rw [← List.append_assoc]
    by_cases ends : b = sep
    · subst ends
      rw [completed_snoc_sep]
      exact ih.trans (List.prefix_append _ _)
    · rwa [completed_snoc_ne ends]

end BleSpeaker.Lib
