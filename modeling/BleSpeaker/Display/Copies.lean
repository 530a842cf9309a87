import BleSpeaker.Lib.Orbit

/-!
# The copies of a scrolling text

The inner loop of dynamic mode in `u8g2_dst_thread` of `oled_btn.cpp`: the text is drawn at `offset` and
then every `width + 8` pixels, until the position is off the display. A position is an `u8g2_uint_t`, of 8
or 16 bits, and comes round; it is only ever compared with the width of the display.
-/

namespace BleSpeaker.Display
open Lib

def displayWidth : Nat := 128

/-- `do { drawUTF8(x, 48, text); x += (width+8); } while (x < u8g2.getDisplayWidth());`, as the positions
it draws at, if it ends within so many turns. -/
def drawCopies {b : Nat} (width : BitVec b) : Nat → BitVec b → Option (List (BitVec b))
  | 0, _ => none
  | turns + 1, x =>
    if (x + (width + 8)).toNat < displayWidth then (drawCopies width turns (x + (width + 8))).map (x :: ·)
    else some [x]

variable {b : Nat} {width offset x : BitVec b}

def Ends (width offset : BitVec b) : Prop := ∃ turns positions, drawCopies width turns offset = some positions

theorem toNat_next (width x : BitVec b) :
    (x + (width + 8)).toNat = (x.toNat + (width.toNat + 8)) % 2 ^ b := by
  have gap : (8 : BitVec b).toNat = 8 % 2 ^ b := BitVec.toNat_ofNat 8 b
  rw [BitVec.toNat_add, BitVec.toNat_add, gap, Nat.add_mod_mod, ← Nat.add_assoc, Nat.add_mod_mod, Nat.add_assoc]

theorem drawCopies_more {turns more : Nat} {positions : List (BitVec b)} (le : turns ≤ more)
    (ends : drawCopies width turns x = some positions) : drawCopies width more x = some positions := by
  induction turns generalizing x more positions with
  | zero => simp [drawCopies] at ends
  | succ turns ih =>
    obtain ⟨more, rfl⟩ := Nat.exists_eq_add_of_le' (Nat.le_trans (Nat.le_add_left 1 turns) le)
    rw [drawCopies] at ends ⊢
    split at ends
    · rename_i again
      obtain ⟨later, found, rfl⟩ := Option.map_eq_some_iff.mp ends
      rw [if_pos again, ih (by omega) found]
      rfl
    · rename_i last
      rw [if_neg last, ends]

/-! ### Whether it ends -/

theorem ends_of_exit {k : Nat} (exit : displayWidth ≤ (x.toNat + (k + 1) * (width.toNat + 8)) % 2 ^ b) :
    Ends width x := by
  induction k generalizing x with
  | zero =>
    refine ⟨1, [x], ?_⟩
    rw [drawCopies, toNat_next, if_neg]
    rw [Nat.zero_add, Nat.one_mul] at exit
    omega
  | succ k ih =>
    by_cases again : (x + (width + 8)).toNat < displayWidth
    · have later : Ends width (x + (width + 8)) := by
        apply ih
        rw [toNat_next, Nat.mod_add_mod]
        rwa [show x.toNat + (width.toNat + 8) + (k + 1) * (width.toNat + 8) =
          x.toNat + (k + 1 + 1) * (width.toNat + 8) by ring]
      obtain ⟨turns, positions, ends⟩ := later
      exact ⟨turns + 1, x :: positions, by rw [drawCopies, if_pos again, ends]; rfl⟩
    · exact ⟨1, [x], by rw [drawCopies, if_neg again]⟩

theorem drawCopies_stands (stands : (width.toNat + 8) % 2 ^ b = 0) (low : x.toNat < displayWidth) (turns : Nat) :
    drawCopies width turns x = none := by
  have next : x + (width + 8) = x := by
    apply BitVec.eq_of_toNat_eq
    rw [toNat_next, Nat.add_mod, stands, Nat.add_zero, Nat.mod_mod, Nat.mod_eq_of_lt x.isLt]
  induction turns with
  | zero => rfl
  | succ turns ih =>
    rw [drawCopies, next, if_pos low, ih]
    rfl

theorem ends_iff (wide : 8 ≤ b) (width offset : BitVec b) :
    Ends width offset ↔ (width.toNat + 8) % 2 ^ b ≠ 0 ∨ displayWidth ≤ offset.toNat := by
  constructor
  · rintro ⟨turns, positions, ends⟩
    by_contra neither
    obtain ⟨stands, low⟩ := not_or.mp neither
    rw [drawCopies_stands (not_not.mp stands) (Nat.not_le.mp low)] at ends
    cases ends
  · intro either
    have half : 2 * displayWidth ≤ 2 ^ b := by
      calc 2 * displayWidth = 2 ^ 8 := by decide
        _ ≤ 2 ^ b := Nat.pow_le_pow_right (by decide) wide
    by_cases moves : (width.toNat + 8) % 2 ^ b = 0
    · have high : displayWidth ≤ offset.toNat := by
        rcases either with moved | high
        · exact absurd moves moved
        · exact high
      apply ends_of_exit (k := 0)
      rw [Nat.zero_add, Nat.one_mul, Nat.add_mod, moves, Nat.add_zero, Nat.mod_mod,
        Nat.mod_eq_of_lt offset.isLt]
      exact high
    · obtain ⟨k, upper⟩ := exists_upper moves (Nat.two_pow_pos b) offset.toNat
      apply ends_of_exit (k := k)
      omega

/-! ### Where it draws -/

theorem toNat_ofInt_of_lt {p : Int} (nonneg : 0 ≤ p) (small : p < 65536) :
    (BitVec.ofInt 16 p).toNat = p.toNat := by
  rw [BitVec.toNat_ofInt]
  omega

theorem ofInt_next (width : BitVec 16) (p : Int) :
    BitVec.ofInt 16 p + (width + 8) = BitVec.ofInt 16 (p + (width.toNat + 8)) := by
  rw [BitVec.ofInt_add, BitVec.ofInt_add, BitVec.ofInt_natCast, BitVec.ofNat_toNat, BitVec.setWidth_eq]
  rfl

/-- The positions as numbers: the loop goes on for as long as they are on the display. -/
theorem drawCopies_ofInt {width : BitVec 16} (narrow : width.toNat < 32000) {n : Nat} {p : Int}
    (starts : 0 ≤ p + (width.toNat + 8)) (left : p < 128)
    (last : ∀ k : Nat, 1 ≤ k → (p + k * (width.toNat + 8) < 128 ↔ k ≤ n)) :
    drawCopies width (n + 1) (.ofInt 16 p) =
      some ((List.range (n + 1)).map fun k => .ofInt 16 (p + k * (width.toNat + 8))) := by
  induction n generalizing p with
  | zero =>
    have exits := last 1 (by decide)
    rw [drawCopies, ofInt_next, toNat_ofInt_of_lt starts (by omega), if_neg]
    · simp
    · rw [displayWidth]
      omega
  | succ n ih =>
    have again := (last 1 (by decide)).mpr (by omega)
    rw [drawCopies, ofInt_next, toNat_ofInt_of_lt starts (by omega), if_pos, ih]
    · have shifted : List.range (n + 1 + 1) = 0 :: (List.range (n + 1)).map Nat.succ := List.range_succ_eq_map
      rw [shifted, List.map_cons, List.map_map, Option.map_some]
      congr 2
      · simp
      · apply List.map_congr_left
        intro k _
        show BitVec.ofInt 16 _ = BitVec.ofInt 16 _
        congr 1
        push_cast
        ring
    · omega
    · omega
    · intro k positive
      have later := last (k + 1) (by omega)
      rw [show p + ((k + 1 : Nat) : Int) * (width.toNat + 8) =
        p + (width.toNat + 8) + k * (width.toNat + 8) by push_cast; ring] at later
      omega
    · rw [displayWidth]
      omega

/-- The loop ends, and these are the positions it draws at, as signed numbers. -/
def Draws (width offset : BitVec 16) (positions : List Int) : Prop :=
  ∃ turns drawn, drawCopies width turns offset = some drawn ∧ drawn.map BitVec.toInt = positions

theorem scrolled_bounds {width offset : BitVec 16} (narrow : width.toNat < 32000)
    (scrolled : offset = 0 ∨ 65536 - width.toNat ≤ offset.toNat) :
    -(width.toNat : Int) ≤ offset.toInt ∧ offset.toInt ≤ 0 := by
  have bound := offset.isLt
  rcases scrolled with rfl | far
  · simp
  · rw [BitVec.toInt_eq_toNat_cond, if_neg (by omega)]
    omega

/-- The place of the `k`-th copy, if no position came round. -/
def copyPlace (width offset : BitVec 16) (k : Nat) : Int := offset.toInt + k * (width.toNat + 8)

theorem copyPlace_lt (width offset : BitVec 16) {i j : Nat} (less : i < j) :
    copyPlace width offset i < copyPlace width offset j := by
  have steps : (i : Int) * (width.toNat + 8) < j * (width.toNat + 8) :=
    Int.mul_lt_mul_of_pos_right (by omega) (by omega)
  rw [copyPlace, copyPlace]
  omega

theorem draws_places {width offset : BitVec 16} (narrow : width.toNat < 32000)
    (scrolled : offset = 0 ∨ 65536 - width.toNat ≤ offset.toNat) :
    ∃ n : Nat, Draws width offset ((List.range (n + 1)).map (copyPlace width offset)) ∧
      ∀ k, 1 ≤ k → (copyPlace width offset k < 128 ↔ k ≤ n) := by
  obtain ⟨low, high⟩ := scrolled_bounds narrow scrolled
  have positive : (0 : Int) < width.toNat + 8 := by omega
  have last : ∀ k, 1 ≤ k → (copyPlace width offset k < 128 ↔
      k ≤ ((127 - offset.toInt) / (width.toNat + 8)).toNat) := by
    intro k _
    have quotient := Int.le_ediv_iff_mul_le (a := k) (b := 127 - offset.toInt) positive
    have nonneg : 0 ≤ (127 - offset.toInt) / (width.toNat + 8) := Int.ediv_nonneg (by omega) (by omega)
    rw [copyPlace]
    omega
  generalize ((127 - offset.toInt) / (width.toNat + 8)).toNat = n at last
  have drawn : drawCopies width (n + 1) (.ofInt 16 offset.toInt) = _ :=
    drawCopies_ofInt narrow (by omega) (by omega) last
  rw [BitVec.ofInt_toInt] at drawn
  refine ⟨n, ⟨n + 1, _, drawn, ?_⟩, last⟩
  rw [List.map_map]
  apply List.map_congr_left
  intro k member
  have start : copyPlace width offset 0 = offset.toInt := by simp [copyPlace]
  have bounds : -32000 ≤ copyPlace width offset k ∧ copyPlace width offset k < 128 := by
    cases k with
    | zero =>
      rw [start]
      omega
    | succ k =>
      have right := copyPlace_lt width offset (show 0 < k + 1 by omega)
      have left := (last (k + 1) (by omega)).mpr (by simpa using Nat.lt_succ_iff.mp (List.mem_range.mp member))
      omega
  show (BitVec.ofInt 16 (copyPlace width offset k)).toInt = copyPlace width offset k
  exact BitVec.toInt_ofInt_eq_self (by decide) (by omega) (by omega)

/-- The loop ends unless its step is zero and it starts on the display. With 16 bits, and scrolled by less
than a text of less than 32000 pixels, it draws the text at its offset and at each place behind that is on
the display, from left to right. -/
theorem drawCopies_spec :
    (∀ b, b = 8 ∨ b = 16 → ∀ width offset : BitVec b,
      Ends width offset ↔ (width.toNat + 8) % 2 ^ b ≠ 0 ∨ displayWidth ≤ offset.toNat) ∧
    ∀ width offset : BitVec 16, width.toNat < 32000 → (offset = 0 ∨ 65536 - width.toNat ≤ offset.toNat) →
      ∃ n : Nat, Draws width offset ((List.range (n + 1)).map (copyPlace width offset)) ∧
        ((List.range (n + 1)).map (copyPlace width offset)).Pairwise (· < ·) ∧
        ∀ k, 1 ≤ k → (copyPlace width offset k < 128 ↔ k ≤ n) := by
  constructor
  · intro b size width offset
    apply ends_iff
    omega
  · intro width offset narrow scrolled
    obtain ⟨n, draws, last⟩ := draws_places narrow scrolled
    refine ⟨n, draws, ?_, last⟩
    apply List.pairwise_map.mpr
    exact List.pairwise_lt_range.imp (copyPlace_lt width offset)

/-- A text of 30 pixels that is scrolled by 4 is drawn four times. -/
theorem drawCopies_spec_narrow : ∃ n : Nat, Draws 30 65532 ((List.range (n + 1)).map (copyPlace 30 65532)) ∧
    ((List.range (n + 1)).map (copyPlace 30 65532)).Pairwise (· < ·) ∧
    ∀ k, 1 ≤ k → (copyPlace 30 65532 k < 128 ↔ k ≤ n) :=
  drawCopies_spec.2 30 65532 (by decide) (Or.inr (by decide))

end BleSpeaker.Display
