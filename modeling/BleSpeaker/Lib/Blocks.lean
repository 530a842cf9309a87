import Mathlib.Data.List.Basic
import Mathlib.Data.List.Chain

/-!
# An arena of blocks

An arena that is divided into blocks without a gap, each used or a hole. Of an allocator on such an
arena this has what does not depend on how the blocks are linked: where they start, first fit, one block
replaced by its pieces, and the merging of holes. `merge` joins all holes that lie side by side; an
allocator that keeps its arena tidy finds at most two of them beside the block it frees.
-/

namespace BleSpeaker.Lib

structure Block where
  used : Bool
  size : Nat
  deriving DecidableEq

def total : List Block → Nat
  | [] => 0
  | b :: bs => b.size + total bs

def usedSize : List Block → Nat
  | [] => 0
  | b :: bs => (if b.used then b.size else 0) + usedSize bs

/-- The blocks with their starts, the first one at `p`. -/
def spots (p : Nat) : List Block → List (Nat × Block)
  | [] => []
  | b :: bs => (p, b) :: spots (p + b.size) bs

/-- The start of the first hole, or the end. -/
def lowest (p : Nat) : List Block → Nat
  | [] => p
  | b :: bs => if b.used then lowest (p + b.size) bs else p

def Tidy (bs : List Block) : Prop := bs.IsChain fun b c => b.used = true ∨ c.used = true

variable {b c : Block} {bs cs xs ys : List Block} {p q n m : Nat}

@[simp] theorem total_append (xs ys : List Block) : total (xs ++ ys) = total xs + total ys := by
  induction xs with
  | nil => simp [total]
  | cons b xs ih =>
    simp only [List.cons_append, total, ih]
    omega

@[simp] theorem usedSize_append (xs ys : List Block) :
    usedSize (xs ++ ys) = usedSize xs + usedSize ys := by
  induction xs with
  | nil => simp [usedSize]
  | cons b xs ih =>
    simp only [List.cons_append, usedSize, ih]
    omega

theorem usedSize_le (bs : List Block) : usedSize bs ≤ total bs := by
  induction bs with
  | nil => exact Nat.le_refl 0
  | cons b bs ih =>
    simp only [usedSize, total]
    split <;> omega

/-! ### Where the blocks are -/

theorem spots_append (p : Nat) (xs ys : List Block) :
    spots p (xs ++ ys) = spots p xs ++ spots (p + total xs) ys := by
  induction xs generalizing p with
  | nil => rfl
  | cons b xs ih =>
    simp only [List.cons_append, spots, ih, total, Nat.add_assoc]

theorem mem_spots : (q, b) ∈ spots p bs ↔ ∃ xs ys, bs = xs ++ b :: ys ∧ q = p + total xs := by
  constructor
  · intro member
    induction bs generalizing p with
    | nil => cases member
    | cons c bs ih =>
      rcases List.mem_cons.mp member with same | later
      · obtain ⟨rfl, rfl⟩ := Prod.mk.inj same
        exact ⟨[], bs, rfl, rfl⟩
      · obtain ⟨xs, ys, rfl, rfl⟩ := ih later
        exact ⟨c :: xs, ys, rfl, by rw [total, Nat.add_assoc]⟩
  · rintro ⟨xs, ys, rfl, rfl⟩
    rw [spots_append]
    exact List.mem_append_right _ List.mem_cons_self

theorem spots_bounds (member : (q, b) ∈ spots p bs) : p ≤ q ∧ q + b.size ≤ p + total bs := by
  obtain ⟨xs, ys, rfl, rfl⟩ := mem_spots.mp member
  rw [total_append, total]
  omega

/-- Two blocks are the same one or lie apart. -/
theorem spots_apart {r : Nat} (first : (q, b) ∈ spots p bs) (second : (r, c) ∈ spots p bs) :
    (q = r ∧ b = c) ∨ q + b.size ≤ r ∨ r + c.size ≤ q := by
  induction bs generalizing p with
  | nil => cases first
  | cons d bs ih =>
    rcases List.mem_cons.mp first with here | later
    · obtain ⟨rfl, rfl⟩ := Prod.mk.inj here
      rcases List.mem_cons.mp second with here' | later'
      · obtain ⟨rfl, rfl⟩ := Prod.mk.inj here'
        exact Or.inl ⟨rfl, rfl⟩
      · exact Or.inr (Or.inl (spots_bounds later').1)
    · rcases List.mem_cons.mp second with here' | later'
      · obtain ⟨rfl, rfl⟩ := Prod.mk.inj here'
        exact Or.inr (Or.inr (spots_bounds later).1)
      · exact ih later later'

theorem lowest_append_used (used : ∀ b ∈ xs, b.used = true) :
    lowest p (xs ++ ys) = lowest (p + total xs) ys := by
  induction xs generalizing p with
  | nil => rfl
  | cons b xs ih =>
    rw [List.forall_mem_cons] at used
    rw [List.cons_append, lowest, if_pos used.1, ih used.2, total, Nat.add_assoc]

theorem lowest_bounds (p : Nat) (bs : List Block) : p ≤ lowest p bs ∧ lowest p bs ≤ p + total bs := by
  induction bs generalizing p with
  | nil => exact ⟨Nat.le_refl p, Nat.le_refl p⟩
  | cons b bs ih =>
    have later := ih (p + b.size)
    rw [lowest, total]
    split <;> omega

/-- All blocks before the first hole are used. -/
theorem exists_lowest (p : Nat) (bs : List Block) :
    ∃ xs ys, bs = xs ++ ys ∧ (∀ b ∈ xs, b.used = true) ∧ lowest p bs = p + total xs ∧
      ∀ b ∈ ys.head?, b.used = false := by
  induction bs generalizing p with
  | nil => exact ⟨[], [], rfl, by simp, rfl, by simp⟩
  | cons b bs ih =>
    cases used : b.used with
    | true =>
      obtain ⟨xs, ys, rfl, before, start, hole⟩ := ih (p + b.size)
      refine ⟨b :: xs, ys, rfl, ?_, ?_, hole⟩
      · rw [List.forall_mem_cons]
        exact ⟨used, before⟩
      · rw [lowest, if_pos used, start, total, Nat.add_assoc]
    | false =>
      refine ⟨[], b :: bs, rfl, by simp, ?_, ?_⟩
      · rw [lowest, if_neg (by rw [used]; exact Bool.false_ne_true), total, Nat.add_zero]
      · simpa using used

/-- A block that becomes a hole. -/
theorem lowest_unuse {n : Nat} (positive : 0 < n) (p : Nat) (xs ys : List Block) :
    lowest p (xs ++ ⟨false, n⟩ :: ys) =
      if p + total xs < lowest p (xs ++ ⟨true, n⟩ :: ys) then p + total xs
      else lowest p (xs ++ ⟨true, n⟩ :: ys) := by
  induction xs generalizing p with
  | nil =>
    have later := (lowest_bounds (p + n) ys).1
    simp only [List.nil_append, lowest, total, if_true, Bool.false_eq_true, if_false]
    rw [if_pos (by omega), Nat.add_zero]
  | cons b xs ih =>
    rw [List.cons_append, List.cons_append, lowest, lowest, total, ← Nat.add_assoc]
    split
    · exact ih _
    · rw [if_neg (by omega)]

/-- What lies behind a hole does not matter. -/
theorem lowest_hole (p n m : Nat) (xs ys zs : List Block) :
    lowest p (xs ++ ⟨false, n⟩ :: ys) = lowest p (xs ++ ⟨false, m⟩ :: zs) := by
  induction xs generalizing p with
  | nil => rfl
  | cons b xs ih => rw [List.cons_append, List.cons_append, lowest, lowest, ih]

theorem lowest_used (p n m : Nat) (xs ys : List Block) :
    lowest p (xs ++ ⟨true, n⟩ :: ⟨true, m⟩ :: ys) = lowest p (xs ++ ⟨true, n + m⟩ :: ys) := by
  induction xs generalizing p with
  | nil => simp only [List.nil_append, lowest, if_true, Nat.add_assoc]
  | cons b xs ih => rw [List.cons_append, List.cons_append, lowest, lowest, ih]

/-- Where a block starts or the arena ends. -/
def Boundary (a : Nat) : Nat → List Block → Prop
  | p, [] => a = p
  | p, b :: bs => a = p ∨ Boundary a (p + b.size) bs

theorem boundary_start (p : Nat) (bs : List Block) : Boundary p p bs := by
  cases bs with
  | nil => exact rfl
  | cons b bs => exact Or.inl rfl

theorem boundary_append {a : Nat} : Boundary a p (xs ++ ys) ↔ Boundary a p xs ∨ Boundary a (p + total xs) ys := by
  induction xs generalizing p with
  | nil =>
    constructor
    · exact Or.inr
    · rintro (rfl | later)
      · exact boundary_start _ _
      · exact later
  | cons b xs ih => rw [List.cons_append, Boundary, Boundary, ih, total, ← Nat.add_assoc, or_assoc]

theorem Boundary.bounds {a : Nat} (boundary : Boundary a p bs) : p ≤ a ∧ a ≤ p + total bs := by
  induction bs generalizing p with
  | nil =>
    obtain rfl := boundary
    exact ⟨Nat.le_refl _, Nat.le_add_right _ _⟩
  | cons b bs ih =>
    rw [total]
    rcases boundary with rfl | later
    · omega
    · have rest := ih later
      omega

/-- No boundary lies within a block. -/
theorem Boundary.outside {a : Nat} (boundary : Boundary a p bs) (member : (q, b) ∈ spots p bs) :
    a ≤ q ∨ q + b.size ≤ a := by
  obtain ⟨xs, ys, rfl, rfl⟩ := mem_spots.mp member
  rcases boundary_append.mp boundary with before | rfl | behind
  · exact Or.inl before.bounds.2
  · exact Or.inl (Nat.le_refl _)
  · exact Or.inr behind.bounds.1

/-! ### Merging holes -/

def join (b : Block) : List Block → List Block
  | [] => [b]
  | c :: cs => if b.used = false ∧ c.used = false then ⟨false, b.size + c.size⟩ :: cs else b :: c :: cs

def merge : List Block → List Block
  | [] => []
  | b :: bs => join b (merge bs)

theorem join_cases (b : Block) (cs : List Block) :
    join b cs = b :: cs ∨
      ∃ m ds, b.used = false ∧ cs = ⟨false, m⟩ :: ds ∧ join b cs = ⟨false, b.size + m⟩ :: ds := by
  cases cs with
  | nil => exact Or.inl rfl
  | cons c cs =>
    rw [join]
    split
    · rename_i holes
      right
      refine ⟨c.size, cs, holes.1, ?_, rfl⟩
      rw [← holes.2]
    · exact Or.inl rfl

theorem tidy_cons : Tidy (b :: cs) ↔ (∀ c ∈ cs.head?, b.used = true ∨ c.used = true) ∧ Tidy cs := by
  cases cs with
  | nil => simp [Tidy]
  | cons c cs => simp [Tidy]

theorem join_of_tidy (tidy : Tidy (b :: cs)) : join b cs = b :: cs := by
  rcases join_cases b cs with apart | ⟨m, ds, hole, rfl, -⟩
  · exact apart
  · obtain ⟨beside, -⟩ := tidy_cons.mp tidy
    rcases beside _ rfl with used | used
    · rw [hole] at used
      cases used
    · cases used

theorem tidy_join (tidy : Tidy cs) : Tidy (join b cs) := by
  cases cs with
  | nil =>
    exact List.isChain_singleton b
  | cons c cs =>
    rw [join]
    split
    · rename_i holes
      obtain ⟨beside, rest⟩ := tidy_cons.mp tidy
      refine tidy_cons.mpr ⟨?_, rest⟩
      intro d head
      rcases beside d head with used | used
      · rw [holes.2] at used
        cases used
      · exact Or.inr used
    · rename_i apart
      refine tidy_cons.mpr ⟨?_, tidy⟩
      rintro _ ⟨⟩
      cases first : b.used with
      | true => exact Or.inl rfl
      | false =>
        cases second : c.used with
        | true => exact Or.inr rfl
        | false => exact absurd ⟨first, second⟩ apart

theorem tidy_merge (bs : List Block) : Tidy (merge bs) := by
  induction bs with
  | nil => exact List.isChain_nil
  | cons b bs ih => exact tidy_join ih

theorem merge_of_tidy (tidy : Tidy bs) : merge bs = bs := by
  induction bs with
  | nil => rfl
  | cons b bs ih =>
    rw [merge, ih (tidy_cons.mp tidy).2, join_of_tidy tidy]

theorem merge_holes (xs ys : List Block) (n m : Nat) :
    merge (xs ++ ⟨false, n⟩ :: ⟨false, m⟩ :: ys) = merge (xs ++ ⟨false, n + m⟩ :: ys) := by
  induction xs with
  | nil =>
    simp only [List.nil_append, merge]
    rcases join_cases ⟨false, m⟩ (merge ys) with apart | ⟨k, ds, -, later, joined⟩
    · rw [apart]
      cases later : merge ys with
      | nil => simp [join]
      | cons c cs =>
        rw [later, join] at apart
        split at apart
        · cases cs <;> simp_all
        · rename_i used
          simp_all [join]
    · rw [joined, later]
      simp [join, Nat.add_assoc]
  | cons b xs ih => simp only [List.cons_append, merge, ih]

theorem total_join (b : Block) (cs : List Block) : total (join b cs) = b.size + total cs := by
  rcases join_cases b cs with apart | ⟨m, ds, -, rfl, joined⟩
  · rw [apart, total]
  · rw [joined, total, total, Nat.add_assoc]

@[simp] theorem total_merge (bs : List Block) : total (merge bs) = total bs := by
  induction bs with
  | nil => rfl
  | cons b bs ih => rw [merge, total_join, ih, total]

@[simp] theorem usedSize_merge (bs : List Block) : usedSize (merge bs) = usedSize bs := by
  induction bs with
  | nil => rfl
  | cons b bs ih =>
    rw [merge, usedSize, ← ih]
    rcases join_cases b (merge bs) with apart | ⟨m, ds, hole, later, joined⟩
    · rw [apart, usedSize]
    · rw [joined, later]
      simp [usedSize, hole]

theorem lowest_merge (p : Nat) (bs : List Block) : lowest p (merge bs) = lowest p bs := by
  induction bs generalizing p with
  | nil => rfl
  | cons b bs ih =>
    rw [merge, lowest, ← ih]
    rcases join_cases b (merge bs) with apart | ⟨m, ds, hole, later, joined⟩
    · rw [apart, lowest]
    · simp [joined, lowest, hole]

theorem boundary_join {a : Nat} (boundary : Boundary a p (join b cs)) : Boundary a p (b :: cs) := by
  rcases join_cases b cs with apart | ⟨m, ds, -, rfl, joined⟩
  · rw [apart] at boundary
    exact boundary
  · rw [joined] at boundary
    rcases boundary with here | later
    · exact Or.inl here
    · exact Or.inr (Or.inr (by rw [Nat.add_assoc]; exact later))

theorem boundary_merge {a : Nat} (boundary : Boundary a p (merge bs)) : Boundary a p bs := by
  induction bs generalizing p with
  | nil => exact boundary
  | cons b bs ih =>
    rcases boundary_join boundary with here | later
    · exact Or.inl here
    · exact Or.inr (ih later)

/-- A used block stays where it is. -/
theorem mem_spots_merge (used : b.used = true) : (q, b) ∈ spots p (merge bs) ↔ (q, b) ∈ spots p bs := by
  induction bs generalizing p with
  | nil => rfl
  | cons c bs ih =>
    rw [merge, spots, List.mem_cons, ← ih]
    rcases join_cases c (merge bs) with apart | ⟨m, ds, hole, later, joined⟩
    · rw [apart, spots, List.mem_cons]
    · rw [joined, later, spots, spots, List.mem_cons, List.mem_cons, Nat.add_assoc]
      have differs : ∀ k r, (q, b) ≠ (r, ⟨false, k⟩) := by
        intro k r same
        obtain ⟨-, rfl⟩ := Prod.mk.inj same
        cases used
      have differs' : (q, b) ≠ (p, c) := by
        intro same
        obtain ⟨-, rfl⟩ := Prod.mk.inj same
        rw [hole] at used
        cases used
      simp only [differs, differs', false_or]

/-- An arena without a used block is one hole. -/
theorem eq_singleton_of_unused (tidy : Tidy bs) (unused : ∀ b ∈ bs, b.used = false) (nonempty : bs ≠ []) :
    bs = [⟨false, total bs⟩] := by
  cases bs with
  | nil => exact absurd rfl nonempty
  | cons b bs =>
    obtain ⟨beside, -⟩ := tidy_cons.mp tidy
    rw [List.forall_mem_cons] at unused
    cases bs with
    | nil =>
      obtain ⟨used, size⟩ := b
      obtain rfl : used = false := unused.1
      rfl
    | cons c bs =>
      have next := unused.2 c List.mem_cons_self
      rcases beside c rfl with used | used
      · rw [unused.1] at used
        cases used
      · rw [next] at used
        cases used

/-! ### One block replaced -/

/-- The block that starts at `q` gives way to `pieces` of it. -/
def replace (pieces : Block → List Block) (q : Nat) : List Block → List Block
  | [] => []
  | b :: bs => if q = 0 then pieces b ++ bs else b :: replace pieces (q - b.size) bs

theorem replace_append {pieces : Block → List Block} (positive : ∀ c ∈ xs, 0 < c.size) (b : Block)
    (ys : List Block) : replace pieces (total xs) (xs ++ b :: ys) = xs ++ pieces b ++ ys := by
  induction xs with
  | nil => rfl
  | cons c xs ih =>
    rw [List.forall_mem_cons] at positive
    rw [List.cons_append, replace, total, if_neg (by omega), Nat.add_sub_cancel_left, ih positive.2]
    rfl

/-! ### First fit -/

/-- The first block that fits, and the arena with it carved up. -/
def firstFit (fits : Nat → Block → Bool) (carve : Block → List Block) (p : Nat) :
    List Block → Option (Nat × List Block)
  | [] => none
  | b :: bs =>
    if fits p b then some (p, carve b ++ bs)
    else (firstFit fits carve (p + b.size) bs).map fun x => (x.1, b :: x.2)

variable {fits : Nat → Block → Bool} {carve : Block → List Block}

theorem firstFit_none : firstFit fits carve p bs = none ↔ ∀ x ∈ spots p bs, fits x.1 x.2 = false := by
  induction bs generalizing p with
  | nil => simp [firstFit, spots]
  | cons b bs ih =>
    rw [firstFit, spots, List.forall_mem_cons, ← ih]
    cases fit : fits p b <;> simp

theorem firstFit_some (found : firstFit fits carve p bs = some (q, cs)) :
    ∃ xs b ys, bs = xs ++ b :: ys ∧ cs = xs ++ carve b ++ ys ∧ q = p + total xs ∧ fits q b = true ∧
      ∀ x ∈ spots p xs, fits x.1 x.2 = false := by
  induction bs generalizing p cs with
  | nil => cases found
  | cons b bs ih =>
    rw [firstFit] at found
    split at found
    · rename_i fit
      obtain ⟨rfl, rfl⟩ := Prod.mk.inj (Option.some.inj found)
      exact ⟨[], b, bs, rfl, rfl, rfl, fit, by simp [spots]⟩
    · rename_i unfit
      obtain ⟨⟨r, ds⟩, later, same⟩ := Option.map_eq_some_iff.mp found
      obtain ⟨rfl, rfl⟩ := Prod.mk.inj same
      obtain ⟨xs, c, ys, rfl, rfl, rfl, fit, before⟩ := ih later
      refine ⟨b :: xs, c, ys, rfl, rfl, by rw [total, Nat.add_assoc], fit, ?_⟩
      rw [spots, List.forall_mem_cons]
      exact ⟨Bool.eq_false_iff.mpr unfit, before⟩

theorem firstFit_skip (unfit : ∀ x ∈ spots p xs, fits x.1 x.2 = false) :
    firstFit fits carve p (xs ++ ys) =
      (firstFit fits carve (p + total xs) ys).map fun x => (x.1, xs ++ x.2) := by
  induction xs generalizing p with
  | nil => simp [total]
  | cons b xs ih =>
    rw [spots, List.forall_mem_cons] at unfit
    rw [List.cons_append, firstFit, if_neg (by rw [unfit.1]; exact Bool.false_ne_true), ih unfit.2, total,
      ← Nat.add_assoc, Option.map_map]
    rfl

end BleSpeaker.Lib
