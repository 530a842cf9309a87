import BleSpeaker.Display.Copies
import BleSpeaker.Lib.Transition

/-!
# Scrolling

The dynamic-mode frames of `u8g2_dst_thread`, with `u8g2_uint_t` of 16 bits. After each frame `offset`
goes four pixels to the left, below zero and round, and starts over when it is behind the left end of the
text. The width may change between two frames; a static frame changes neither.

The spacing of the copies is `width + 8` and the scrolling starts over after `width`. `seamless_iff` says
which frames follow on from the one before: all but those that start over. A text of more than 65400
pixels is left out there, since its copies come round the 16 bits themselves.
-/

namespace BleSpeaker.Display.Scrolling
open Lib

/-- What a frame is drawn from. -/
structure Frame where
  offset : BitVec 16
  width : BitVec 16
  deriving DecidableEq

/-- `(u8g2_uint_t)offset < (u8g2_uint_t)-width`, after `offset -= 4` -/
def Frame.startsOver (f : Frame) : Bool := f.offset - 4 < -f.width

/-- `offset` after the frame. -/
def Frame.next (f : Frame) : BitVec 16 := if f.startsOver then 0 else f.offset - 4

/-- `frames` has the frames shown so far. -/
structure Scroll where
  offset : BitVec 16
  width : BitVec 16
  frames : List Frame

inductive Act where
  | frame
  | newWidth (width : BitVec 16)

def scrolling (first : BitVec 16) : System Scroll Act where
  start := ⟨0, first, []⟩
  next s
    | .frame =>
      let f : Frame := ⟨s.offset, s.width⟩
      some { s with offset := f.next, frames := s.frames ++ [f] }
    | .newWidth width => some { s with width }

variable {f g : Frame} {s t : Scroll} {first w : BitVec 16}

/-! ### One frame -/

theorem toNat_sub_four (x : BitVec 16) : (x - 4).toNat = (x.toNat + 65532) % 65536 := by
  rw [BitVec.toNat_sub, Nat.add_comm]
  rfl

theorem startsOver_iff (f : Frame) :
    f.startsOver = true ↔ (f.offset.toNat + 65532) % 65536 < (65536 - f.width.toNat) % 65536 := by
  rw [Frame.startsOver, decide_eq_true_iff, BitVec.lt_def, toNat_sub_four, BitVec.toNat_neg]

theorem next_restart (restarts : f.startsOver = true) : f.next = 0 := if_pos restarts

theorem toNat_next_goesOn (goesOn : f.startsOver = false) : f.next.toNat = (f.offset.toNat + 65532) % 65536 := by
  rw [Frame.next, goesOn, if_neg (by decide), toNat_sub_four]

theorem next_quarter (quarter : 4 ∣ f.offset.toNat) : 4 ∣ f.next.toNat := by
  cases restarts : f.startsOver with
  | true =>
    rw [next_restart restarts]
    decide
  | false =>
    rw [toNat_next_goesOn restarts]
    omega

theorem next_bounds (visible : 1 ≤ f.width.toNat) : f.next = 0 ∨ 65536 - f.width.toNat ≤ f.next.toNat := by
  cases restarts : f.startsOver with
  | true => exact Or.inl (next_restart restarts)
  | false =>
    right
    have inside := f.width.isLt
    have goesOn := (startsOver_iff f).not.mp (by rw [restarts]; decide)
    rw [toNat_next_goesOn restarts]
    omega

/-- Frame `j` of a cycle: the next one is four pixels on, or the first again. -/
theorem next_in_cycle (visible : 1 ≤ f.width.toNat) {j : Nat} (inside : j ≤ f.width.toNat / 4)
    (offset : f.offset.toNat = (65536 - 4 * j) % 65536) :
    f.next.toNat = (65536 - 4 * ((j + 1) % (f.width.toNat / 4 + 1))) % 65536 := by
  have small := f.width.isLt
  have starts := startsOver_iff f
  rcases Nat.lt_or_ge j (f.width.toNat / 4) with before | last
  · have goesOn : f.startsOver = false := by
      rw [Bool.eq_false_iff, ne_eq, starts]
      omega
    rw [toNat_next_goesOn goesOn, Nat.mod_eq_of_lt (show j + 1 < f.width.toNat / 4 + 1 by omega)]
    omega
  · obtain rfl : j = f.width.toNat / 4 := by omega
    have restarts : f.startsOver = true := by
      rw [starts]
      omega
    rw [next_restart restarts, Nat.mod_self]
    rfl

/-! ### A run of frames -/

structure Linked (s : Scroll) : Prop where
  quarter : 4 ∣ s.offset.toNat
  quarters : ∀ f ∈ s.frames, 4 ∣ f.offset.toNat
  last : ∀ f, s.frames[s.frames.length - 1]? = some f → s.offset = f.next
  consecutive : ∀ i f g, s.frames[i]? = some f → s.frames[i + 1]? = some g → g.offset = f.next

theorem frame_linked (linked : Linked s) :
    Linked { s with
      offset := (Frame.mk s.offset s.width).next
      frames := s.frames ++ [⟨s.offset, s.width⟩] } := by
  obtain ⟨quarter, quarters, last, consecutive⟩ := linked
  refine ⟨next_quarter quarter, ?_, ?_, ?_⟩
  · intro f member
    rcases List.mem_append.mp member with old | new
    · exact quarters f old
    · obtain rfl := List.mem_singleton.mp new
      exact quarter
  · intro f found
    simp only [List.length_append, List.length_singleton, Nat.add_sub_cancel] at found
    rw [List.getElem?_concat_length] at found
    obtain rfl := Option.some.inj found
    rfl
  · intro i f g here next
    dsimp only at here next
    rcases Nat.lt_trichotomy (i + 1) s.frames.length with inside | same | behind
    · rw [List.getElem?_append_left (by omega)] at here next
      exact consecutive i f g here next
    · rw [List.getElem?_append_left (by omega)] at here
      rw [same, List.getElem?_concat_length] at next
      obtain rfl := Option.some.inj next
      apply last f
      rwa [← same, Nat.add_sub_cancel]
    · rw [List.getElem?_eq_none (by simp; omega)] at next
      cases next

theorem reachable_linked (reached : (scrolling first).Reachable s) : Linked s := by
  refine System.Reachable.invariant reached ?_ ?_
  · exact ⟨Nat.dvd_zero 4, by simp [scrolling], by simp [scrolling], by simp [scrolling]⟩
  · intro s a t linked moved
    cases a with
    | frame =>
      obtain rfl := Option.some.inj moved
      exact frame_linked linked
    | newWidth width =>
      obtain rfl := Option.some.inj moved
      exact ⟨linked.quarter, linked.quarters, linked.last, linked.consecutive⟩

/-- Frame `i` and the `k` frames behind it have the width `w`. -/
def Steady (frames : List Frame) (w : BitVec 16) (i k : Nat) : Prop :=
  ∀ j ≤ k, ∃ f, frames[i + j]? = some f ∧ f.width = w

theorem Linked.steady_offset (linked : Linked s) (visible : 1 ≤ w.toNat) {i : Nat}
    (begins : ∀ f, s.frames[i]? = some f → f.offset = 0) {k : Nat} (steady : Steady s.frames w i k) :
    ∀ f, s.frames[i + k]? = some f → f.offset.toNat = (65536 - 4 * (k % (w.toNat / 4 + 1))) % 65536 := by
  induction k with
  | zero =>
    intro f here
    rw [begins f here, Nat.zero_mod]
    rfl
  | succ k ih =>
    intro g here
    obtain ⟨f, before, width⟩ := steady k (by omega)
    have offset := ih (fun j le => steady j (by omega)) f before
    have next := linked.consecutive (i + k) f g before here
    have inside := Nat.mod_lt k (show 0 < w.toNat / 4 + 1 by omega)
    rw [next, next_in_cycle (by rw [width]; exact visible) (by rw [width]; omega) offset, width, Nat.mod_add_mod]

/-- A non-zero offset stands for one that is 65536 less. -/
def shift (offset : BitVec 16) : Int := if offset = 0 then 0 else offset.toNat - 65536

theorem shift_in_cycle {offset : BitVec 16} {j : Nat} (small : 4 * j < 65536)
    (value : offset.toNat = (65536 - 4 * j) % 65536) : shift offset = -(4 * j : Nat) := by
  unfold shift
  split
  · rename_i zero
    rw [zero] at value
    change 0 = (65536 - 4 * j) % 65536 at value
    omega
  · rename_i nonzero
    have positive : offset.toNat ≠ 0 := fun zero => nonzero (BitVec.eq_of_toNat_eq zero)
    omega

/-- The offsets of every run: a multiple of four that is zero or less than a width below zero, whatever
the widths were. While the width stays, they go round in steps of four, and in each round every column of
the text comes to one of the four leftmost places. -/
theorem scrolling_offsets (reached : (scrolling first).Reachable s) :
    (∀ f ∈ s.frames, 1 ≤ f.width.toNat →
      4 ∣ f.next.toNat ∧ (f.next = 0 ∨ 65536 - f.width.toNat ≤ f.next.toNat)) ∧
    ∀ (w : BitVec 16) (i k : Nat), 1 ≤ w.toNat → Steady s.frames w i k →
      (∀ f, s.frames[i]? = some f → f.offset = 0) →
      (∀ f, s.frames[i + k]? = some f →
        f.offset.toNat = (65536 - 4 * (k % (w.toNat / 4 + 1))) % 65536) ∧
      (w.toNat / 4 ≤ k → ∀ c < w.toNat, ∃ j ≤ w.toNat / 4, ∃ f, s.frames[i + j]? = some f ∧
        0 ≤ shift f.offset + c ∧ shift f.offset + c ≤ 3) := by
  have linked := reachable_linked reached
  constructor
  · intro f member visible
    exact ⟨next_quarter (linked.quarters f member), next_bounds visible⟩
  · intro w i k visible steady begins
    refine ⟨linked.steady_offset visible begins steady, ?_⟩
    intro whole c column
    have small := w.isLt
    obtain ⟨f, here, -⟩ := steady (c / 4) (by omega)
    have offset := linked.steady_offset visible begins (fun j le => steady j (by omega)) f here
    rw [Nat.mod_eq_of_lt (show c / 4 < w.toNat / 4 + 1 by omega)] at offset
    have place := shift_in_cycle (by omega) offset
    exact ⟨c / 4, by omega, f, here, by omega, by omega⟩

/-- With five pixels every other frame is at zero, and two frames bring each column to the left. -/
theorem scrolling_offsets_five : ∃ s, (scrolling 5).Reachable s ∧ s.frames = [⟨0, 5⟩, ⟨65532, 5⟩, ⟨0, 5⟩] ∧
    (∀ f ∈ s.frames, 1 ≤ f.width.toNat →
      4 ∣ f.next.toNat ∧ (f.next = 0 ∨ 65536 - f.width.toNat ≤ f.next.toNat)) ∧
    (∀ f, s.frames[0 + 2]? = some f → f.offset.toNat = 0) ∧
    ∀ c : Nat, c < 5 → ∃ j ≤ 1, ∃ f, s.frames[0 + j]? = some f ∧ 0 ≤ shift f.offset + c ∧ shift f.offset + c ≤ 3 := by
  have shown : ((scrolling 5).run [.frame, .frame, .frame] (scrolling 5).start).map (·.frames) =
      some [⟨0, 5⟩, ⟨65532, 5⟩, ⟨0, 5⟩] := by
    decide
  obtain ⟨s, ran, frames⟩ := Option.map_eq_some_iff.mp shown
  have reached := System.reachable_of_run ran
  have steady : Steady s.frames 5 0 2 := by
    intro j le
    rw [frames]
    match j, le with
    | 0, _ => exact ⟨_, rfl, rfl⟩
    | 1, _ => exact ⟨_, rfl, rfl⟩
    | 2, _ => exact ⟨_, rfl, rfl⟩
  have begins : ∀ f, s.frames[0]? = some f → f.offset = 0 := by
    rw [frames]
    rintro _ ⟨⟩
    rfl
  obtain ⟨bounds, cycle⟩ := scrolling_offsets reached
  obtain ⟨offset, columns⟩ := cycle 5 0 2 (by decide) steady begins
  exact ⟨s, reached, frames, bounds, offset, columns (by decide)⟩

/-! ### Frame after frame -/

/-- Where a drawn position is: on the display, or to the left of it. -/
def place (x : BitVec 16) : Int := if x.toNat < displayWidth then x.toNat else x.toNat - 65536

/-- The copies of `g` are those of `f`, four pixels further to the left, modulo the spacing of `f`. -/
def Seamless (f g : Frame) : Prop :=
  ∃ turns turns' xs ys, drawCopies f.width turns f.offset = some xs ∧
    drawCopies g.width turns' g.offset = some ys ∧
    (∀ q ∈ ys, ∃ p ∈ xs, (f.width.toNat + 8 : Int) ∣ place q - (place p - 4)) ∧
    ∀ p ∈ xs, ∃ q ∈ ys, (f.width.toNat + 8 : Int) ∣ place q - (place p - 4)

theorem place_shown {x : BitVec 16} (shown : x.toNat < 128) : place x = x.toNat := if_pos shown

theorem place_behind {x : BitVec 16} (behind : 128 ≤ x.toNat) : place x = x.toNat - 65536 :=
  if_neg (Nat.not_lt.mpr behind)

theorem place_step {x : BitVec 16} (narrow : w.toNat ≤ 65400)
    (again : (x + (w + 8)).toNat < displayWidth) : place (x + (w + 8)) = place x + (w.toNat + 8) := by
  have inside := x.isLt
  have value := Display.toNat_next w x
  rw [place_shown again]
  change (x + (w + 8)).toNat < 128 at again
  rcases Nat.lt_or_ge x.toNat 128 with shown | behind
  · rw [place_shown shown]
    omega
  · rw [place_behind behind]
    omega

theorem drawn_in_step (narrow : w.toNat ≤ 65400) {turns : Nat} {x : BitVec 16} {xs : List (BitVec 16)}
    (drawn : drawCopies w turns x = some xs) :
    x ∈ xs ∧ ∀ p ∈ xs, (w.toNat + 8 : Int) ∣ place p - place x := by
  induction turns generalizing x xs with
  | zero => cases drawn
  | succ turns ih =>
    rw [drawCopies] at drawn
    split at drawn
    · rename_i again
      obtain ⟨later, found, rfl⟩ := Option.map_eq_some_iff.mp drawn
      obtain ⟨-, inStep⟩ := ih found
      refine ⟨List.mem_cons_self, ?_⟩
      intro p member
      rcases List.mem_cons.mp member with rfl | member
      · rw [Int.sub_self]
        exact Int.dvd_zero _
      · have step := place_step narrow again
        have apart := Int.dvd_add (inStep p member) (Int.dvd_refl _)
        rwa [step, show place p - (place x + (w.toNat + 8)) + (w.toNat + 8) = place p - place x by omega] at apart
    · obtain rfl := Option.some.inj drawn
      refine ⟨List.mem_singleton.mpr rfl, ?_⟩
      intro p member
      rw [List.mem_singleton.mp member, Int.sub_self]
      exact Int.dvd_zero _

/-- All copies of a frame are in step with its first one. -/
theorem seamless_iff_place (same : g.width = f.width) (narrow : f.width.toNat ≤ 65400) :
    Seamless f g ↔ (f.width.toNat + 8 : Int) ∣ place g.offset - (place f.offset - 4) := by
  have moves : (f.width.toNat + 8) % 2 ^ 16 ≠ 0 := by omega
  constructor
  · rintro ⟨turns, turns', xs, ys, drawn, drawn', left, -⟩
    rw [same] at drawn'
    obtain ⟨-, inStep⟩ := drawn_in_step narrow drawn
    obtain ⟨first, -⟩ := drawn_in_step narrow drawn'
    obtain ⟨p, member, apart⟩ := left g.offset first
    have sum := Int.dvd_add apart (inStep p member)
    rwa [show place g.offset - (place p - 4) + (place p - place f.offset) =
      place g.offset - (place f.offset - 4) by omega] at sum
  · intro apart
    obtain ⟨turns, xs, drawn⟩ := (ends_iff (by decide) f.width f.offset).mpr (Or.inl moves)
    obtain ⟨turns', ys, drawn'⟩ := (ends_iff (by decide) f.width g.offset).mpr (Or.inl moves)
    obtain ⟨first, inStep⟩ := drawn_in_step narrow drawn
    obtain ⟨first', inStep'⟩ := drawn_in_step narrow drawn'
    refine ⟨turns, turns', xs, ys, drawn, by rw [same]; exact drawn', ?_, ?_⟩
    · intro q member
      refine ⟨f.offset, first, ?_⟩
      have sum := Int.dvd_add (inStep' q member) apart
      rwa [show place q - place g.offset + (place g.offset - (place f.offset - 4)) =
        place q - (place f.offset - 4) by omega] at sum
    · intro p member
      refine ⟨g.offset, first', ?_⟩
      have difference := Int.dvd_sub apart (inStep p member)
      rwa [show place g.offset - (place f.offset - 4) - (place p - place f.offset) =
        place g.offset - (place p - 4) by omega] at difference

theorem place_next_goesOn (goesOn : f.startsOver = false) (visible : 1 ≤ f.width.toNat)
    (narrow : f.width.toNat ≤ 65400) : place f.next = place f.offset - 4 := by
  have inside := f.offset.isLt
  have value := toNat_next_goesOn goesOn
  have threshold := (startsOver_iff f).not.mp (by rw [goesOn]; decide)
  rcases Nat.lt_or_ge f.offset.toNat 4 with start | later
  · rw [place_behind (by omega), place_shown (by omega)]
    omega
  · rcases Nat.lt_or_ge f.offset.toNat 128 with shown | behind
    · rw [place_shown (by omega), place_shown shown]
      omega
    · rw [place_behind (by omega), place_behind behind]
      omega

/-- In every run, of two frames one after the other with the same width, the second follows on exactly if
the first did not end the round, or ended it a multiple of the spacing from where it starts over. -/
theorem seamless_iff (reached : (scrolling first).Reachable s) {i : Nat} (here : s.frames[i]? = some f)
    (next : s.frames[i + 1]? = some g) (same : g.width = f.width) (visible : 1 ≤ f.width.toNat)
    (narrow : f.width.toNat ≤ 65400) :
    Seamless f g ↔ f.startsOver = false ∨ (f.width.toNat + 8 : Int) ∣ 4 - place f.offset := by
  have offset := (reachable_linked reached).consecutive i f g here next
  rw [seamless_iff_place same narrow, offset]
  cases restarts : f.startsOver with
  | true =>
    have start : place 0 = 0 := by decide
    rw [next_restart restarts, start, show 0 - (place f.offset - 4) = 4 - place f.offset by omega]
    simp
  | false =>
    rw [place_next_goesOn restarts visible narrow, Int.sub_self]
    simp

theorem seamless_five : ∃ s f g, (scrolling 5).Reachable s ∧ s.frames[0]? = some f ∧ s.frames[1]? = some g ∧
    Seamless f g := by
  have shown : ((scrolling 5).run [.frame, .frame] (scrolling 5).start).map (·.frames) =
      some [⟨0, 5⟩, ⟨65532, 5⟩] := by
    decide
  obtain ⟨s, ran, frames⟩ := Option.map_eq_some_iff.mp shown
  have reached := System.reachable_of_run ran
  have here : s.frames[0]? = some ⟨0, 5⟩ := by rw [frames]; rfl
  have next : s.frames[0 + 1]? = some ⟨65532, 5⟩ := by rw [frames]; rfl
  exact ⟨s, _, _, reached, here, next,
    (seamless_iff reached here next rfl (by decide) (by decide)).mpr (Or.inl (by decide))⟩

/-- Four pixels wide: the second frame has a copy at -4, and the third one starts over at 0 instead
of -8. -/
theorem not_seamless_four : ¬ ∀ (first : BitVec 16) (s : Scroll), (scrolling first).Reachable s →
    ∀ (i : Nat) (f g : Frame), s.frames[i]? = some f → s.frames[i + 1]? = some g → g.width = f.width →
      1 ≤ f.width.toNat → Seamless f g := by
  intro always
  have shown : ((scrolling 4).run [.frame, .frame, .frame] (scrolling 4).start).map (·.frames) =
      some [⟨0, 4⟩, ⟨65532, 4⟩, ⟨0, 4⟩] := by
    decide
  obtain ⟨s, ran, frames⟩ := Option.map_eq_some_iff.mp shown
  have reached := System.reachable_of_run ran
  have seamless := always 4 s reached 1 ⟨65532, 4⟩ ⟨0, 4⟩ (by rw [frames]; rfl) (by rw [frames]; rfl) rfl
    (by decide)
  have apart := (seamless_iff_place (f := ⟨65532, 4⟩) (g := ⟨0, 4⟩) rfl (by decide)).mp seamless
  exact absurd apart (by decide)

end BleSpeaker.Display.Scrolling
