import Mathlib.Logic.Function.Basic

/-!
# Guarded runs

A deterministic labelled transition system: the label says which party moves, and `next` is the
move it makes, or `none` when it cannot move. Every interleaving of the parties is a list of
labels. `Guarded guard` are the states of the runs whose every step meets `guard` in the state
before it; `Reachable` is the case without a guard.
-/

namespace BleSpeaker.Lib

structure System (σ α : Type) where
  start : σ
  next : σ → α → Option σ

namespace System
variable {σ α : Type} {sys : System σ α} {guard : σ → α → Prop} {s t : σ}

inductive Guarded (sys : System σ α) (guard : σ → α → Prop) : σ → Prop where
  | start : Guarded sys guard sys.start
  | step {s t : σ} (a : α) : Guarded sys guard s → guard s a → sys.next s a = some t →
      Guarded sys guard t

def Reachable (sys : System σ α) : σ → Prop := sys.Guarded fun _ _ => True

/-- What holds at the start and survives every step that meets the guard holds along every run. -/
theorem Guarded.invariant {P : σ → Prop} (reached : sys.Guarded guard s) (start : P sys.start)
    (step : ∀ s a t, P s → guard s a → sys.next s a = some t → P t) : P s := by
  induction reached with
  | start => exact start
  | step a _ allowed moved ih => exact step _ a _ ih allowed moved

theorem Guarded.mono {weaker : σ → α → Prop} (imp : ∀ s a, guard s a → weaker s a)
    (reached : sys.Guarded guard s) : sys.Guarded weaker s :=
  reached.invariant .start fun _ a _ ih allowed moved => .step a ih (imp _ a allowed) moved

theorem Guarded.reachable (reached : sys.Guarded guard s) : sys.Reachable s :=
  reached.mono fun _ _ _ => trivial

theorem Reachable.invariant {P : σ → Prop} (reached : sys.Reachable s) (start : P sys.start)
    (step : ∀ s a t, P s → sys.next s a = some t → P t) : P s :=
  Guarded.invariant reached start fun s a t holds _ moved => step s a t holds moved

/-! ### Running a schedule -/

def run (sys : System σ α) : List α → σ → Option σ
  | [], s => some s
  | a :: rest, s => (sys.next s a).bind (sys.run rest)

def Meets (sys : System σ α) (guard : σ → α → Prop) : List α → σ → Prop
  | [], _ => True
  | a :: rest, s => guard s a ∧ ∀ t ∈ sys.next s a, sys.Meets guard rest t

instance decidableMeets [∀ s a, Decidable (guard s a)] :
    ∀ (acts : List α) (s : σ), Decidable (sys.Meets guard acts s)
  | [], _ => .isTrue trivial
  | a :: rest, s =>
    have : Decidable (∀ t ∈ sys.next s a, sys.Meets guard rest t) :=
      match h : sys.next s a with
      | none => .isTrue (by simp)
      | some t =>
        match decidableMeets rest t with
        | .isTrue holds => .isTrue (by simpa using holds)
        | .isFalse fails => .isFalse (by simpa using fails)
    inferInstanceAs (Decidable (guard s a ∧ ∀ t ∈ sys.next s a, sys.Meets guard rest t))

theorem guarded_of_run {acts : List α} (reached : sys.Guarded guard s)
    (meets : sys.Meets guard acts s) (ran : sys.run acts s = some t) : sys.Guarded guard t := by
  induction acts generalizing s with
  | nil =>
    obtain rfl : s = t := by simpa [run] using ran
    exact reached
  | cons a rest ih =>
    obtain ⟨u, moved, ran⟩ := Option.bind_eq_some_iff.mp ran
    exact ih (.step a reached meets.1 moved) (meets.2 u moved) ran

theorem meets_true (acts : List α) (s : σ) : sys.Meets (fun _ _ => True) acts s := by
  induction acts generalizing s with
  | nil => trivial
  | cons a rest ih => exact ⟨trivial, fun t _ => ih t⟩

theorem reachable_of_run {acts : List α} (ran : sys.run acts sys.start = some t) :
    sys.Reachable t :=
  guarded_of_run .start (meets_true _ _) ran

theorem run_append (acts more : List α) (s : σ) :
    sys.run (acts ++ more) s = (sys.run acts s).bind (sys.run more) := by
  induction acts generalizing s with
  | nil => rfl
  | cons a rest ih =>
    rw [List.cons_append, run, run]
    cases sys.next s a with
    | none => rfl
    | some t => exact ih t

theorem Meets.append {acts more : List α} (meets : sys.Meets guard (acts ++ more) s) :
    sys.Meets guard acts s ∧ ∀ t ∈ sys.run acts s, sys.Meets guard more t := by
  induction acts generalizing s with
  | nil =>
    refine ⟨trivial, ?_⟩
    rintro t ⟨⟩
    exact meets
  | cons a rest ih =>
    obtain ⟨allowed, later⟩ := meets
    refine ⟨⟨allowed, fun t moved => (ih (later t moved)).1⟩, ?_⟩
    intro u ran
    obtain ⟨t, moved, ran⟩ := Option.bind_eq_some_iff.mp ran
    exact (ih (later t moved)).2 u ran

/-! ### Runs that come to an end

A rank that falls with every counted label bounds how many of them a schedule can have. The other
labels may go on for ever. -/

/-- No counted label can move any more. -/
def Exhausted (sys : System σ α) (guard : σ → α → Prop) (counted : α → Bool) (s : σ) : Prop :=
  ∀ a, counted a → guard s a → sys.next s a = none

def Falls (sys : System σ α) (counted : α → Bool) (rank : σ → Nat) : Prop :=
  ∀ s a t, sys.next s a = some t → rank t + (if counted a then 1 else 0) ≤ rank s

theorem Falls.count_le {counted : α → Bool} {rank : σ → Nat} (falls : sys.Falls counted rank)
    {acts : List α} (ran : sys.run acts s = some t) : acts.countP counted + rank t ≤ rank s := by
  induction acts generalizing s with
  | nil =>
    obtain rfl : s = t := by simpa [run] using ran
    simp
  | cons a rest ih =>
    obtain ⟨u, moved, ran⟩ := Option.bind_eq_some_iff.mp ran
    have first := falls s a u moved
    have later := ih ran
    rw [List.countP_cons]
    omega

/-- Every state can go on to one in which the counted labels are exhausted. -/
theorem Falls.exists_exhausted {counted : α → Bool} {rank : σ → Nat}
    (falls : sys.Falls counted rank) (guard : σ → α → Prop) (s : σ) :
    ∃ more t, sys.Meets guard more s ∧ sys.run more s = some t ∧ sys.Exhausted guard counted t := by
  by_cases done : sys.Exhausted guard counted s
  · exact ⟨[], s, trivial, rfl, done⟩
  · obtain ⟨a, counts, allowed, moves⟩ : ∃ a, counted a = true ∧ guard s a ∧ sys.next s a ≠ none := by
      simpa [Exhausted] using done
    obtain ⟨u, moved⟩ := Option.ne_none_iff_exists'.mp moves
    have lower : rank u + 1 ≤ rank s := by simpa [counts] using falls s a u moved
    obtain ⟨more, t, meets, ran, finished⟩ := falls.exists_exhausted guard u
    refine ⟨a :: more, t, ⟨allowed, ?_⟩, ?_, finished⟩
    · intro v same
      obtain rfl : u = v := Option.some.inj (moved.symm.trans same)
      exact meets
    · rw [run, moved]
      exact ran
  termination_by rank s

end System
end BleSpeaker.Lib
