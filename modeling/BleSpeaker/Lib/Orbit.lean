import Mathlib.Tactic.Ring

/-!
# Steps around a circle

A walk on the numbers below `n` that goes on by the same step and comes round at `n`. A step that is not
a multiple of `n` leads out of the lower half sooner or later: a short one cannot jump over the upper
half, and a long one goes backwards by what it is short of `n`.
-/

namespace BleSpeaker.Lib
variable {n s : Nat}

theorem exists_upper_of_short (short : 2 * s ≤ n) (moves : 0 < s) {x : Nat} (inside : x < n) :
    ∃ k, n ≤ 2 * ((x + k * s) % n) := by
  induction gap : n - x using Nat.strong_induction_on generalizing x with
  | _ gap ih =>
    rcases Nat.lt_or_ge (2 * x) n with lower | upper
    · obtain ⟨k, upper⟩ := ih (n - (x + s)) (by omega) (x := x + s) (by omega) rfl
      refine ⟨k + 1, ?_⟩
      rwa [show x + (k + 1) * s = x + s + k * s by ring]
    · refine ⟨0, ?_⟩
      rwa [Nat.zero_mul, Nat.add_zero, Nat.mod_eq_of_lt inside]

theorem exists_upper_of_long (long : n < 2 * s) (small : s < n) {x : Nat} (inside : x < n) :
    ∃ k, n ≤ 2 * ((x + k * s) % n) := by
  induction x using Nat.strong_induction_on with
  | _ x ih =>
    rcases Nat.lt_or_ge (2 * x) n with lower | upper
    · rcases Nat.lt_or_ge (x + s) n with before | round
      · refine ⟨1, ?_⟩
        rw [Nat.one_mul, Nat.mod_eq_of_lt before]
        omega
      · obtain ⟨k, upper⟩ := ih (x + s - n) (by omega) (by omega)
        refine ⟨k + 1, ?_⟩
        rwa [show x + (k + 1) * s = x + s - n + k * s + n by
          rw [show x + s - n + k * s + n = x + s - n + n + k * s by ring, Nat.sub_add_cancel round]
          ring, Nat.add_mod_right]
    · refine ⟨0, ?_⟩
      rwa [Nat.zero_mul, Nat.add_zero, Nat.mod_eq_of_lt inside]

/-- From anywhere, at least one step on. -/
theorem exists_upper (moves : s % n ≠ 0) (positive : 0 < n) (x : Nat) :
    ∃ k, n ≤ 2 * ((x + (k + 1) * s) % n) := by
  have small := Nat.mod_lt s positive
  have start := Nat.mod_lt (x + s) positive
  obtain ⟨k, upper⟩ : ∃ k, n ≤ 2 * (((x + s) % n + k * (s % n)) % n) := by
    rcases Nat.lt_or_ge n (2 * (s % n)) with long | short
    · exact exists_upper_of_long long small start
    · exact exists_upper_of_short short (by omega) start
  have same : (x + (k + 1) * s) % n = ((x + s) % n + k * (s % n)) % n := by
    rw [show x + (k + 1) * s = x + s + k * s by ring]
    simp only [Nat.add_mod, Nat.mul_mod, Nat.mod_mod]
  exact ⟨k, by rw [same]; exact upper⟩

end BleSpeaker.Lib
