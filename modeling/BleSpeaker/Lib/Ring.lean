import Mathlib.Data.List.Basic

/-!
# Circular buffers

A fixed pool and a window of `count` slots that starts at `first` and wraps at the end of the
pool. `bump` is the wrap that a C program writes as an increment and a comparison; `window` is
the content in order, read through the wrap; `span` is the number of slots between two indices.
-/

namespace BleSpeaker.Lib
variable {α : Type} {pool : List α} {first count i n : Nat} {v : α}

/-- `++i; if (i >= n) i = 0;` -/
def bump (n i : Nat) : Nat := if i + 1 ≥ n then 0 else i + 1

theorem bump_eq_mod (inside : i < n) : bump n i = (i + 1) % n := by
  unfold bump
  split
  · rw [show i + 1 = n by omega, Nat.mod_self]
  · rw [Nat.mod_eq_of_lt (by omega)]

theorem bump_lt (inside : i < n) : bump n i < n := by
  rw [bump_eq_mod inside]
  exact Nat.mod_lt _ (by omega)

def window (pool : List α) (first : Nat) : Nat → List α
  | 0 => []
  | count + 1 => (pool[first % pool.length]?).toList ++ window pool (first + 1) count

theorem window_first_mod (pool : List α) (first count : Nat) :
    window pool (first % pool.length) count = window pool first count := by
  induction count generalizing first with
  | zero => rfl
  | succ count ih =>
    rw [window, window, Nat.mod_mod, ← ih (first % pool.length + 1), ← ih (first + 1), Nat.mod_add_mod]

theorem window_snoc (pool : List α) (first count : Nat) :
    window pool first (count + 1) =
      window pool first count ++ (pool[(first + count) % pool.length]?).toList := by
  induction count generalizing first with
  | zero => simp [window]
  | succ count ih =>
    rw [window, ih, window, List.append_assoc, show first + 1 + count = first + (count + 1) by omega]

theorem window_length (nonempty : 0 < pool.length) : (window pool first count).length = count := by
  induction count generalizing first with
  | zero => rfl
  | succ count ih =>
    have inside := Nat.mod_lt first nonempty
    rw [window, List.length_append, ih, List.getElem?_eq_getElem inside]
    simp [Nat.add_comm]

theorem window_set (outside : ∀ j < count, (first + j) % pool.length ≠ i) :
    window (pool.set i v) first count = window pool first count := by
  induction count generalizing first with
  | zero => rfl
  | succ count ih =>
    have here := outside 0 (by omega)
    rw [Nat.add_zero] at here
    have rest : ∀ j < count, (first + 1 + j) % pool.length ≠ i := by
      intro j bound
      have := outside (j + 1) (by omega)
      rwa [show first + (j + 1) = first + 1 + j by omega] at this
    rw [window, window, ih rest, List.length_set, List.getElem?_set_ne (Ne.symm here)]

theorem window_push (room : count < pool.length) :
    window (pool.set ((first + count) % pool.length) v) first (count + 1) =
      window pool first count ++ [v] := by
  have nonempty : 0 < pool.length := by omega
  have inside := Nat.mod_lt (first + count) nonempty
  have outside : ∀ j < count, (first + j) % pool.length ≠ (first + count) % pool.length := by
    intro j bound same
    have apart : (first + count - (first + j)) % pool.length = 0 := Nat.sub_mod_eq_zero_of_mod_eq same.symm
    rw [show first + count - (first + j) = count - j by omega, Nat.mod_eq_of_lt (by omega)] at apart
    omega
  rw [window_snoc, window_set outside, List.length_set, List.getElem?_set_self inside]
  rfl

theorem window_pop (inside : first < pool.length) :
    window pool first (count + 1) = pool.get ⟨first, inside⟩ :: window pool (bump pool.length first) count := by
  rw [bump_eq_mod inside, window_first_mod, window, Nat.mod_eq_of_lt inside,
    List.getElem?_eq_getElem inside]
  rfl

/-! ### The distance between two indices -/

def span (n first next : Nat) : Nat := if next ≥ first then next - first else n - (first - next)

variable {next : Nat}

theorem bump_cases (inside : i < n) : i + 1 = n ∧ bump n i = 0 ∨ i + 1 < n ∧ bump n i = i + 1 := by
  unfold bump
  split <;> omega

theorem span_lt (first_lt : first < n) (next_lt : next < n) : span n first next < n := by
  unfold span
  split <;> omega

theorem next_eq_mod (first_lt : first < n) (next_lt : next < n) : next = (first + span n first next) % n := by
  unfold span
  split
  · rw [Nat.mod_eq_of_lt (by omega)]
    omega
  · rw [show first + (n - (first - next)) = next + n by omega, Nat.add_mod_right, Nat.mod_eq_of_lt next_lt]

theorem span_bump_next (first_lt : first < n) (next_lt : next < n) (apart : bump n next ≠ first) :
    span n first (bump n next) = span n first next + 1 := by
  rcases bump_cases next_lt with ⟨wraps, same⟩ | ⟨goes, same⟩
  · rw [same] at apart ⊢
    unfold span
    split <;> split <;> omega
  · rw [same] at apart ⊢
    unfold span
    split <;> split <;> omega

theorem span_bump_first (first_lt : first < n) (next_lt : next < n) (apart : first ≠ next) :
    span n first next = span n (bump n first) next + 1 := by
  rcases bump_cases first_lt with ⟨wraps, same⟩ | ⟨goes, same⟩
  · rw [same]
    unfold span
    split <;> split <;> omega
  · rw [same]
    unfold span
    split <;> split <;> omega

/-- The window is as large as it gets, and both of its ends move on. -/
theorem span_bump_both (large : 2 ≤ n) (next_lt : next < n) (meets : bump n next = first) :
    span n (bump n first) (bump n next) = span n first next := by
  rcases bump_cases next_lt with ⟨wraps, same⟩ | ⟨goes, same⟩
  · rw [← meets, same]
    unfold span bump
    split <;> split <;> split <;> omega
  · rw [← meets, same]
    unfold span bump
    split <;> split <;> split <;> omega

end BleSpeaker.Lib
