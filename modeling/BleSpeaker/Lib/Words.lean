import Mathlib.Logic.Function.Basic

/-!
# Little-endian words

Halfwords and words in a memory of bytes: what is read after a write, and what a write leaves alone.

`moved` is what a copy is for: all bytes at once, as if through a buffer. A loop copies piece by piece, and
`moved_moved` and `moved_below` say when its pieces come together: going up, when the target does not lie
within what is still to be read, and going down, when the source does not.
-/

namespace BleSpeaker.Lib

def half (m : Nat → UInt8) (a : Nat) : Nat := (m a).toNat + 256 * (m (a + 1)).toNat

def word (m : Nat → UInt8) (a : Nat) : Nat := half m a + 65536 * half m (a + 2)

def setHalf (m : Nat → UInt8) (a v : Nat) : Nat → UInt8 :=
  Function.update (Function.update m a (UInt8.ofNat v)) (a + 1) (UInt8.ofNat (v / 256))

def setWord (m : Nat → UInt8) (a v : Nat) : Nat → UInt8 := setHalf (setHalf m a v) (a + 2) (v / 65536)

variable {m m' : Nat → UInt8} {a b v x : Nat}

theorem half_congr (first : m' a = m a) (second : m' (a + 1) = m (a + 1)) : half m' a = half m a := by
  rw [half, half, first, second]

theorem word_congr (same : ∀ i < 4, m' (a + i) = m (a + i)) : word m' a = word m a := by
  have low : half m' a = half m a := half_congr (same 0 (by decide)) (same 1 (by decide))
  have high : half m' (a + 2) = half m (a + 2) := half_congr (same 2 (by decide)) (same 3 (by decide))
  rw [word, word, low, high]

theorem setHalf_outside (outside : x < a ∨ a + 2 ≤ x) : setHalf m a v x = m x := by
  rw [setHalf, Function.update_of_ne (by omega), Function.update_of_ne (by omega)]

theorem setWord_outside (outside : x < a ∨ a + 4 ≤ x) : setWord m a v x = m x := by
  rw [setWord, setHalf_outside (by omega), setHalf_outside (by omega)]

theorem half_setHalf_mod (m : Nat → UInt8) (a v : Nat) : half (setHalf m a v) a = v % 65536 := by
  have low : (UInt8.ofNat v).toNat = v % 256 := UInt8.toNat_ofNat'
  have high : (UInt8.ofNat (v / 256)).toNat = v / 256 % 256 := UInt8.toNat_ofNat'
  rw [half, setHalf, Function.update_self, Function.update_of_ne (by omega), Function.update_self, low, high]
  omega

theorem half_setHalf (m : Nat → UInt8) (a : Nat) (small : v < 65536) : half (setHalf m a v) a = v := by
  rw [half_setHalf_mod, Nat.mod_eq_of_lt small]

theorem half_setHalf_apart (apart : a + 2 ≤ b ∨ b + 2 ≤ a) : half (setHalf m b v) a = half m a :=
  half_congr (setHalf_outside (by omega)) (setHalf_outside (by omega))

theorem word_setWord (m : Nat → UInt8) (a : Nat) (small : v < 4294967296) : word (setWord m a v) a = v := by
  rw [word, setWord, half_setHalf_apart (by omega), half_setHalf_mod, half_setHalf_mod]
  omega

theorem half_setWord_apart (apart : a + 2 ≤ b ∨ b + 4 ≤ a) : half (setWord m b v) a = half m a :=
  half_congr (setWord_outside (by omega)) (setWord_outside (by omega))

theorem word_setWord_apart (apart : a + 4 ≤ b ∨ b + 4 ≤ a) : word (setWord m b v) a = word m a :=
  word_congr fun _ _ => setWord_outside (by omega)

theorem word_setHalf_apart (apart : a + 4 ≤ b ∨ b + 2 ≤ a) : word (setHalf m b v) a = word m a :=
  word_congr fun _ _ => setHalf_outside (by omega)

/-! ### Moving and filling -/

def moved (m : Nat → UInt8) (d s n : Nat) : Nat → UInt8 :=
  fun x => if d ≤ x ∧ x < d + n then m (s + (x - d)) else m x

def filled (m : Nat → UInt8) (d : Nat) (c : UInt8) (n : Nat) : Nat → UInt8 :=
  fun x => if d ≤ x ∧ x < d + n then c else m x

variable {d s k n : Nat} {c : UInt8}

theorem moved_inside (inside : x < n) : moved m d s n (d + x) = m (s + x) := by
  rw [moved, if_pos (by omega), Nat.add_sub_cancel_left]

theorem moved_outside (outside : x < d ∨ d + n ≤ x) : moved m d s n x = m x := if_neg (by omega)

theorem moved_zero (m : Nat → UInt8) (d s : Nat) : moved m d s 0 = m := by
  funext x
  exact moved_outside (by omega)

theorem moved_moved (apart : d ≤ s ∨ s + k + n ≤ d) :
    moved (moved m d s k) (d + k) (s + k) n = moved m d s (k + n) := by
  funext x
  by_cases first : d ≤ x ∧ x < d + k
  · obtain ⟨i, rfl⟩ := Nat.exists_eq_add_of_le first.1
    rw [moved_outside (by omega), moved_inside (by omega), moved_inside (by omega)]
  · by_cases second : d + k ≤ x ∧ x < d + k + n
    · obtain ⟨i, rfl⟩ := Nat.exists_eq_add_of_le second.1
      rw [moved_inside (by omega), Nat.add_assoc d, moved_inside (by omega), moved_outside (by omega),
        Nat.add_assoc]
    · rw [moved_outside (by omega), moved_outside (by omega), moved_outside (by omega)]

theorem moved_below (apart : s ≤ d ∨ d + n + k ≤ s) :
    moved (moved m (d + n) (s + n) k) d s n = moved m d s (n + k) := by
  funext x
  by_cases first : d ≤ x ∧ x < d + n
  · obtain ⟨i, rfl⟩ := Nat.exists_eq_add_of_le first.1
    rw [moved_inside (by omega), moved_inside (by omega), moved_outside (by omega)]
  · by_cases second : d + n ≤ x ∧ x < d + n + k
    · obtain ⟨i, rfl⟩ := Nat.exists_eq_add_of_le second.1
      rw [moved_outside (by omega), moved_inside (by omega), Nat.add_assoc d, moved_inside (by omega),
        Nat.add_assoc]
    · rw [moved_outside (by omega), moved_outside (by omega), moved_outside (by omega)]

theorem moved_one (m : Nat → UInt8) (d s : Nat) : moved m d s 1 = Function.update m d (m s) := by
  funext x
  by_cases here : x = d
  · subst here
    rw [Function.update_self, moved, if_pos (by omega), Nat.sub_self, Nat.add_zero]
  · rw [moved_outside (by omega), Function.update_of_ne here]

theorem setHalf_half (m m' : Nat → UInt8) (d s : Nat) :
    setHalf m d (half m' s) = Function.update (Function.update m d (m' s)) (d + 1) (m' (s + 1)) := by
  have low := (m' s).toNat_lt
  have high := (m' (s + 1)).toNat_lt
  have first : UInt8.ofNat (half m' s) = m' s := by
    apply UInt8.toNat.inj
    rw [UInt8.toNat_ofNat', half]
    omega
  have second : UInt8.ofNat (half m' s / 256) = m' (s + 1) := by
    apply UInt8.toNat.inj
    rw [UInt8.toNat_ofNat', half]
    omega
  rw [setHalf, first, second]

theorem setHalf_add (m : Nat → UInt8) (d v x : Nat) : setHalf m d (v + 65536 * x) = setHalf m d v := by
  have low : UInt8.ofNat (v + 65536 * x) = UInt8.ofNat v := by
    apply UInt8.toNat.inj
    rw [UInt8.toNat_ofNat', UInt8.toNat_ofNat']
    omega
  have high : UInt8.ofNat ((v + 65536 * x) / 256) = UInt8.ofNat (v / 256) := by
    apply UInt8.toNat.inj
    rw [UInt8.toNat_ofNat', UInt8.toNat_ofNat']
    omega
  rw [setHalf, setHalf, low, high]

theorem setWord_word (m m' : Nat → UInt8) (d s x : Nat) :
    setWord m d (word m' s) x = if d ≤ x ∧ x < d + 4 then m' (s + (x - d)) else m x := by
  have bound : half m' s < 65536 := by
    have low := (m' s).toNat_lt
    have high := (m' (s + 1)).toNat_lt
    rw [half]
    omega
  rw [setWord, word, setHalf_add,
    show (half m' s + 65536 * half m' (s + 2)) / 65536 = half m' (s + 2) by omega, setHalf_half, setHalf_half]
  split
  · rename_i inside
    obtain ⟨i, rfl⟩ := Nat.exists_eq_add_of_le inside.1
    rw [Nat.add_sub_cancel_left]
    simp only [Function.update_apply]
    obtain rfl | rfl | rfl | rfl : i = 0 ∨ i = 1 ∨ i = 2 ∨ i = 3 := by omega
    · rw [if_neg (by omega), if_neg (by omega), if_neg (by omega), if_pos (by omega), Nat.add_zero]
    · rw [if_neg (by omega), if_neg (by omega), if_pos rfl]
    · rw [if_neg (by omega), if_pos rfl]
    · rw [if_pos rfl]
  · simp only [Function.update_apply]
    rw [if_neg (by omega), if_neg (by omega), if_neg (by omega), if_neg (by omega)]

theorem moved_four (m : Nat → UInt8) (d s : Nat) : moved m d s 4 = setWord m d (word m s) := by
  funext x
  exact (setWord_word m m d s x).symm

theorem filled_inside (inside : d ≤ x ∧ x < d + n) : filled m d c n x = c := if_pos inside

theorem filled_outside (outside : x < d ∨ d + n ≤ x) : filled m d c n x = m x := if_neg (by omega)

theorem filled_zero (m : Nat → UInt8) (d : Nat) (c : UInt8) : filled m d c 0 = m := by
  funext x
  exact filled_outside (by omega)

theorem filled_one (m : Nat → UInt8) (d : Nat) (c : UInt8) : filled m d c 1 = Function.update m d c := by
  funext x
  by_cases here : x = d
  · subst here
    rw [Function.update_self, filled_inside (by omega)]
  · rw [filled_outside (by omega), Function.update_of_ne here]

theorem filled_filled (m : Nat → UInt8) (d k n : Nat) (c : UInt8) :
    filled (filled m d c k) (d + k) c n = filled m d c (k + n) := by
  funext x
  by_cases second : d + k ≤ x ∧ x < d + k + n
  · rw [filled_inside second, filled_inside (by omega)]
  · rw [filled_outside (by omega)]
    by_cases first : d ≤ x ∧ x < d + k
    · rw [filled_inside first, filled_inside (by omega)]
    · rw [filled_outside (by omega), filled_outside (by omega)]

/-- A word of four equal bytes. -/
theorem filled_four (m : Nat → UInt8) (d : Nat) (c : UInt8) :
    filled m d c 4 = setWord m d (c.toNat * 16843009) := by
  have same : word (fun _ => c) 0 = c.toNat * 16843009 := by
    simp only [word, half]
    omega
  funext x
  rw [← same, setWord_word]
  rfl

end BleSpeaker.Lib
