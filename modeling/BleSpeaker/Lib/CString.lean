import Mathlib.Data.List.TakeWhile

/-!
# C strings

A byte array seen through a `char *`: the string is what stands before the first NUL. `splice` is
a run of stores into an array; a store past the end of the array is not in the result, so a
caller that cares about bounds keeps the indices apart.
-/

namespace BleSpeaker.Lib
variable {m s : List UInt8} {b c : UInt8}

def cstr (m : List UInt8) : List UInt8 := m.takeWhile (· != 0)

def strlen (m : List UInt8) : Nat := (cstr m).length

/-- The position of the first `c` of the string, as `strchr` finds it for `c` other than NUL. -/
def strchr (m : List UInt8) (c : UInt8) : Option Nat := (cstr m).idxOf? c

@[simp] theorem cstr_nil : cstr [] = [] := rfl

@[simp] theorem cstr_zero : cstr (0 :: m) = [] := rfl

@[simp] theorem cstr_cons (present : b ≠ 0) : cstr (b :: m) = b :: cstr m := by
  simp [cstr, present]

theorem cstr_nul_free (m : List UInt8) : (0 : UInt8) ∉ cstr m := by
  intro member
  have := List.mem_takeWhile_imp member
  simp at this

theorem cstr_of_nul_free (free : (0 : UInt8) ∉ s) : cstr s = s := by
  apply List.takeWhile_eq_self_iff.mpr
  intro b member
  simp only [bne_iff_ne, ne_eq]
  rintro rfl
  exact free member

@[simp] theorem cstr_append_zero (s rest : List UInt8) : cstr (s ++ 0 :: rest) = cstr s := by
  induction s with
  | nil => rfl
  | cons b s ih =>
    by_cases nul : b = 0
    · simp [nul]
    · simp [nul, ih]

theorem take_strlen (m : List UInt8) : m.take (strlen m) = cstr m := by
  have front : cstr m <+: m := List.takeWhile_prefix _
  exact (List.prefix_iff_eq_take.mp front).symm

theorem strlen_le (m : List UInt8) : strlen m ≤ m.length := (List.takeWhile_sublist _).length_le

theorem cstr_subset : ∀ b ∈ cstr m, b ∈ m := fun _ member => List.takeWhile_subset _ member

theorem strchr_eq_none : strchr m c = none ↔ c ∉ cstr m := by
  simp [strchr, List.idxOf?_eq_none_iff]

/-! ### Stores -/

def splice (m : List UInt8) (start : Nat) : List UInt8 → List UInt8
  | [] => m
  | b :: bytes => splice (m.set start b) (start + 1) bytes

@[simp] theorem length_splice (m : List UInt8) (start : Nat) (bytes : List UInt8) :
    (splice m start bytes).length = m.length := by
  induction bytes generalizing m start with
  | nil => rfl
  | cons b bytes ih => simp [splice, ih]

theorem splice_eq {m bytes : List UInt8} {start : Nat} (fits : start + bytes.length ≤ m.length) :
    splice m start bytes = m.take start ++ bytes ++ m.drop (start + bytes.length) := by
  induction bytes generalizing m start with
  | nil => simp [splice]
  | cons b bytes ih =>
    rw [List.length_cons] at fits ⊢
    have front : (m.take start).length = start := List.length_take_of_le (by omega)
    have taken : (m.set start b).take (start + 1) = m.take start ++ [b] := by
      rw [List.set_eq_take_append_cons_drop, if_pos (by omega), List.take_append, front,
        Nat.add_sub_cancel_left, List.take_of_length_le (by omega)]
      rfl
    have dropped : (m.set start b).drop (start + 1 + bytes.length) = m.drop (start + (bytes.length + 1)) := by
      rw [List.drop_set_of_lt (by omega)]
      congr 1
      omega
    rw [splice, ih (by rw [List.length_set]; omega), taken, dropped]
    simp

/-! ### Strings in a larger memory -/

def stringAt (m : List UInt8) (p : Nat) : List UInt8 := cstr (m.drop p)

def strcpy (m : List UInt8) (p : Nat) (src : List UInt8) : List UInt8 := splice m p (src ++ [0])

theorem stringAt_strcpy {p : Nat} (free : (0 : UInt8) ∉ s) (fits : p + s.length < m.length) :
    stringAt (strcpy m p s) p = s := by
  have front : (m.take p).length = p := List.length_take_of_le (by omega)
  rw [stringAt, strcpy, splice_eq (by simp; omega), List.append_assoc, List.drop_append, front,
    Nat.sub_self, List.drop_eq_nil_of_le (by omega), List.drop_zero, List.nil_append,
    List.append_assoc]
  show cstr (s ++ 0 :: _) = s
  rw [cstr_append_zero, cstr_of_nul_free free]

theorem exists_nul {p : Nat} (inside : p + (stringAt m p).length < m.length) :
    ∃ rest, m.drop p = stringAt m p ++ 0 :: rest := by
  have bound : (stringAt m p).length < (m.drop p).length := by
    rw [List.length_drop]
    omega
  have split := List.takeWhile_append_dropWhile (p := (· != (0 : UInt8))) (l := m.drop p)
  cases rest : (m.drop p).dropWhile (· != 0) with
  | nil =>
    rw [rest, List.append_nil] at split
    have whole := congrArg List.length split
    exact absurd whole (Nat.ne_of_lt bound)
  | cons b rest' =>
    have nul : b = 0 := by
      have stops := List.head?_dropWhile_not (· != (0 : UInt8)) (m.drop p)
      rw [rest] at stops
      simpa using stops
    rw [rest, nul] at split
    exact ⟨rest', split.symm⟩

theorem stringAt_strcpy_other {p q : Nat} (inside : p + (stringAt m p).length < m.length)
    (fits : q + s.length < m.length)
    (apart : p + (stringAt m p).length < q ∨ q + s.length < p) :
    stringAt (strcpy m q s) p = stringAt m p := by
  have front : (m.take q).length = q := List.length_take_of_le (by omega)
  have spliced : strcpy m q s = m.take q ++ (s ++ [0] ++ m.drop (q + (s.length + 1))) := by
    rw [strcpy, splice_eq (by simp; omega), List.append_assoc, List.length_append]
    rfl
  rcases apart with behind | before
  · obtain ⟨rest, string⟩ := exists_nul inside
    have kept : (m.take q).drop p = stringAt m p ++ 0 :: rest.take (q - p - (stringAt m p).length - 1) := by
      rw [List.drop_take, string, List.take_append, List.take_of_length_le (by omega),
        show q - p - (stringAt m p).length = (q - p - (stringAt m p).length - 1) + 1 by omega]
      rfl
    unfold stringAt at kept ⊢
    rw [spliced, List.drop_append_of_le_length (by omega), kept, List.append_assoc, List.cons_append,
      cstr_append_zero, cstr_of_nul_free (cstr_nul_free _)]
  · have gap : (s ++ [0] ++ m.drop (q + (s.length + 1))).drop (p - q) = m.drop p := by
      rw [List.drop_append, List.drop_eq_nil_of_le (by simp; omega), List.nil_append, List.drop_drop]
      congr 1
      simp
      omega
    unfold stringAt
    rw [spliced, List.drop_append, List.drop_eq_nil_of_le (by omega), List.nil_append, front, gap]

/-! ### Two memories with one string -/

theorem getElem?_splice (m bytes : List UInt8) (start i : Nat) :
    (splice m start bytes)[i]? =
      if start ≤ i ∧ i < start + bytes.length ∧ i < m.length then bytes[i - start]? else m[i]? := by
  induction bytes generalizing m start with
  | nil =>
    rw [splice, if_neg]
    rw [List.length_nil]
    omega
  | cons b bytes ih =>
    rw [splice, ih, List.length_set, List.length_cons]
    rcases Nat.lt_trichotomy i start with before | same | behind
    · rw [if_neg (by omega), if_neg (by omega), List.getElem?_set_ne (by omega)]
    · subst same
      rw [if_neg (by omega)]
      by_cases inside : i < m.length
      · rw [if_pos (by omega), List.getElem?_set_self inside, Nat.sub_self]
        rfl
      · rw [if_neg (by omega), List.getElem?_eq_none (by rw [List.length_set]; omega),
          List.getElem?_eq_none (by omega)]
    · rw [List.getElem?_set_ne (by omega)]
      by_cases inside : i < start + 1 + bytes.length ∧ i < m.length
      · rw [if_pos (by omega), if_pos (by omega), show i - start = i - (start + 1) + 1 by omega]
        rfl
      · rw [if_neg (by omega), if_neg (by omega)]

variable {m' : List UInt8} {a p : Nat}

theorem getElem?_strcpy (m s : List UInt8) (p i : Nat) :
    (strcpy m p s)[i]? =
      if p ≤ i ∧ i ≤ p + s.length ∧ i < m.length then (s ++ [0])[i - p]? else m[i]? := by
  rw [strcpy, getElem?_splice, List.length_append, List.length_singleton]
  simp only [← Nat.lt_succ_iff, Nat.succ_eq_add_one, Nat.add_assoc]

end BleSpeaker.Lib
