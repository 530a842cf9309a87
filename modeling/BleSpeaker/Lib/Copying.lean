import Mathlib.Logic.Function.Basic
import Mathlib.Order.Fin.Basic

/-!
# A string copy, one memory access at a time

`memset` of a buffer to 0 and then `strncpy` into the whole buffer: the way a thread replaces a text
that others may be reading or writing. Every load and every store is a step, and `read` is what the
source has when it is looked at.

`Written` is what the buffer keeps in any case: once the copy is finished, everything behind the
first NUL is NUL. `Matches` is what it keeps while the source does not change and has this form
itself: the finished buffer equals the source.
-/

namespace BleSpeaker.Lib
variable {n : Nat}

inductive Copying (n : Nat) where
  | clearing (i : Fin n)
  | loading (i : Fin n)
  | storing (i : Fin n) (c : UInt8)
  | padding (i : Fin n)
  | finished
  deriving DecidableEq

namespace Copying

def after (phase : Fin n → Copying n) (last : Copying n) (i : Fin n) : Copying n :=
  if inside : i.val + 1 < n then phase ⟨i.val + 1, inside⟩ else last

def step (read : Fin n → UInt8) (buf : Fin n → UInt8) : Copying n → Copying n × (Fin n → UInt8)
  | .clearing i => (after .clearing (.loading ⟨0, i.pos⟩) i, Function.update buf i 0)
  | .loading i => (.storing i (read i), buf)
  | .storing i c => (after (if c = 0 then .padding else .loading) .finished i, Function.update buf i c)
  | .padding i => (after .padding .finished i, Function.update buf i 0)
  | .finished => (.finished, buf)

variable {buf src read : Fin n → UInt8} {i : Fin n} {c : UInt8} {phase : Fin n → Copying n}
  {last copying : Copying n}

theorem after_of {P : Copying n → Prop} (going : ∀ next : Fin n, next.val = i.val + 1 → P (phase next))
    (final : i.val + 1 = n → P last) : P (after phase last i) := by
  unfold after
  split
  · rename_i inside
    exact going ⟨i.val + 1, inside⟩ rfl
  · exact final (by omega)

theorem forall_lt_next {P : Fin n → Prop} {next : Fin n} (index : next.val = i.val + 1)
    (below : ∀ j < i, P j) (here : P i) : ∀ j < next, P j := by
  intro j less
  rcases lt_or_eq_of_le (show j ≤ i by omega) with before | rfl
  · exact below j before
  · exact here

theorem update_below {b : UInt8} {j : Fin n} (less : j < i) : Function.update buf i b j = buf j :=
  Function.update_of_ne (ne_of_lt less) _ _

/-! ### Any source -/

def Padded (buf : Fin n → UInt8) : Prop := ∀ j k, j ≤ k → buf j = 0 → buf k = 0

def PaddedTo (buf : Fin n → UInt8) (k i : Fin n) : Prop :=
  (∀ j < k, buf j ≠ 0) ∧ ∀ j, k ≤ j → j < i → buf j = 0

def Written (buf : Fin n → UInt8) : Copying n → Prop
  | .clearing _ => True
  | .loading i | .storing i _ => ∀ j < i, buf j ≠ 0
  | .padding i => ∃ k < i, PaddedTo buf k i
  | .finished => Padded buf

theorem padded_of_first {k : Fin n} (front : ∀ j < k, buf j ≠ 0) (back : ∀ j, k ≤ j → buf j = 0) :
    Padded buf := by
  intro j l le nul
  rcases lt_or_ge j k with before | behind
  · exact absurd nul (front j before)
  · exact back l (le_trans behind le)

theorem Written.store_nul {k : Fin n} (le : k ≤ i) (front : ∀ j < k, buf j ≠ 0)
    (middle : ∀ j, k ≤ j → j < i → buf j = 0) :
    Written (Function.update buf i 0) (after .padding .finished i) := by
  have kept : ∀ j < k, Function.update buf i 0 j ≠ 0 := by
    intro j before
    rw [update_below (lt_of_lt_of_le before le)]
    exact front j before
  have zero : ∀ j, k ≤ j → j < i ∨ j = i → Function.update buf i 0 j = 0 := by
    rintro j behind (before | rfl)
    · rw [update_below before]
      exact middle j behind before
    · exact Function.update_self _ _ _
  apply after_of (P := Written _)
  · intro next index
    exact ⟨k, by omega, kept, fun j behind before => zero j behind (by omega)⟩
  · intro final
    exact padded_of_first kept fun j behind => zero j behind (by omega)

theorem Written.step (written : Written buf copying) (read : Fin n → UInt8) :
    Written (copying.step read buf).2 (copying.step read buf).1 := by
  cases copying with
  | clearing i =>
    apply after_of (P := Written _)
    · exact fun _ _ => trivial
    · exact fun _ j less => absurd less (Nat.not_lt_zero _)
  | loading i => exact written
  | storing i c =>
    by_cases nul : c = 0
    · subst nul
      exact Written.store_nul le_rfl written fun j behind before => absurd before (not_lt_of_ge behind)
    · have kept : ∀ j < i, Function.update buf i c j ≠ 0 := by
        intro j before
        rw [update_below before]
        exact written j before
      have here : Function.update buf i c i ≠ 0 := by rwa [Function.update_self]
      show Written _ (after (if c = 0 then .padding else .loading) .finished i)
      rw [if_neg nul]
      apply after_of (P := Written _)
      · exact fun next index => forall_lt_next index kept here
      · intro final j k _ zero
        rcases lt_or_eq_of_le (show j ≤ i by omega) with before | rfl
        · exact absurd zero (kept j before)
        · exact absurd zero here
  | padding i =>
    obtain ⟨k, before, front, middle⟩ := written
    exact Written.store_nul (le_of_lt before) front middle
  | finished => exact written

/-! ### A source at rest -/

def Matches (src buf : Fin n → UInt8) : Copying n → Prop
  | .clearing _ => True
  | .loading i => ∀ j < i, buf j = src j
  | .storing i c => (∀ j < i, buf j = src j) ∧ c = src i
  | .padding i => (∀ j < i, buf j = src j) ∧ ∀ j, i ≤ j → src j = 0
  | .finished => buf = src

theorem Matches.store (equal : ∀ j < i, buf j = src j) (here : c = src i)
    (going : ∀ next : Fin n, next.val = i.val + 1 →
      (∀ j < next, Function.update buf i c j = src j) → Matches src (Function.update buf i c) (phase next)) :
    Matches src (Function.update buf i c) (after phase .finished i) := by
  have kept : ∀ j < i, Function.update buf i c j = src j := by
    intro j before
    rw [update_below before]
    exact equal j before
  have stored : Function.update buf i c i = src i := by rwa [Function.update_self]
  apply after_of (P := Matches src _)
  · exact fun next index => going next index (forall_lt_next index kept stored)
  · intro final
    funext j
    rcases lt_or_eq_of_le (show j ≤ i by omega) with before | rfl
    · exact kept j before
    · exact stored

theorem Matches.step (copies : Matches src buf copying) (padded : Padded src) :
    Matches src (copying.step src buf).2 (copying.step src buf).1 := by
  cases copying with
  | clearing i =>
    apply after_of (P := Matches src _)
    · exact fun _ _ => trivial
    · exact fun _ j less => absurd less (Nat.not_lt_zero _)
  | loading i => exact ⟨copies, rfl⟩
  | storing i c =>
    obtain ⟨equal, here⟩ := copies
    refine Matches.store equal here fun next index below => ?_
    by_cases nul : c = 0
    · rw [if_pos nul]
      -- The byte just copied was the first NUL of the source.
      exact ⟨below, fun j behind => padded i j (by omega) (here.symm.trans nul)⟩
    · rw [if_neg nul]
      exact below
  | padding i =>
    obtain ⟨equal, zero⟩ := copies
    refine Matches.store equal (zero i le_rfl).symm fun next index below => ?_
    exact ⟨below, fun j behind => zero j (by omega)⟩
  | finished => exact copies

end Copying
end BleSpeaker.Lib
