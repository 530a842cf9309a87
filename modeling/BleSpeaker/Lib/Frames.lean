import Mathlib.Data.List.Forall2

/-!
# Length-prefixed frames with an XOR checksum

A frame is a head byte, a 16-bit big-endian length and that many bytes, and the XOR of all its bytes
is 0. A reader that goes by the length needs no escape for the head byte: it never looks for it
inside a frame.
-/

namespace BleSpeaker.Lib
variable {head : UInt8} {frame body rest : List UInt8}

def xorSum (bytes : List UInt8) : UInt8 := bytes.foldl (· ^^^ ·) 0

theorem xorSum_append_self (bytes : List UInt8) : xorSum (bytes ++ [xorSum bytes]) = 0 := by
  unfold xorSum
  rw [List.foldl_append]
  exact UInt8.xor_self

def readFrame (head : UInt8) : List UInt8 → Option (List UInt8 × List UInt8)
  | first :: hi :: lo :: rest =>
    let n := 256 * hi.toNat + lo.toNat
    if first = head ∧ n ≤ rest.length ∧ xorSum (first :: hi :: lo :: rest.take n) = 0 then
      some (rest.take n, rest.drop n)
    else none
  | _ => none

def readFrames (head : UInt8) : Nat → List UInt8 → Option (List (List UInt8))
  | _, [] => some []
  | 0, _ :: _ => none
  | turns + 1, b :: bytes =>
    match readFrame head (b :: bytes) with
    | some (body, rest) => (readFrames head turns rest).map (body :: ·)
    | none => none

/-- A frame has more than one byte, so there are not more frames than bytes. -/
def readStream (head : UInt8) (bytes : List UInt8) : Option (List (List UInt8)) :=
  readFrames head bytes.length bytes

structure IsFrame (head : UInt8) (frame body : List UInt8) : Prop where
  spelled : ∃ hi lo, frame = head :: hi :: lo :: body ∧ 256 * hi.toNat + lo.toNat = body.length
  checked : xorSum frame = 0

namespace IsFrame

theorem read_append (isFrame : IsFrame head frame body) (rest : List UInt8) :
    readFrame head (frame ++ rest) = some (body, rest) := by
  obtain ⟨⟨hi, lo, rfl, length⟩, checked⟩ := isFrame
  show (if head = head ∧ 256 * hi.toNat + lo.toNat ≤ (body ++ rest).length ∧
      xorSum (head :: hi :: lo :: (body ++ rest).take (256 * hi.toNat + lo.toNat)) = 0 then
    some ((body ++ rest).take (256 * hi.toNat + lo.toNat),
      (body ++ rest).drop (256 * hi.toNat + lo.toNat)) else none) = _
  rw [length, List.take_left, List.drop_left, if_pos ⟨rfl, by simp, checked⟩]

theorem cons_append (isFrame : IsFrame head frame body) (rest : List UInt8) :
    ∃ bytes, frame ++ rest = head :: bytes := by
  obtain ⟨⟨hi, lo, rfl, -⟩, -⟩ := isFrame
  exact ⟨hi :: lo :: (body ++ rest), rfl⟩

end IsFrame

theorem readFrames_flatten {frames bodies : List (List UInt8)} {turns : Nat}
    (isFrame : List.Forall₂ (IsFrame head) frames bodies) (enough : frames.length ≤ turns) :
    readFrames head turns frames.flatten = some bodies := by
  induction isFrame generalizing turns with
  | nil => cases turns <;> rfl
  | @cons frame body frames bodies first others ih =>
    obtain ⟨turns, rfl⟩ := Nat.exists_eq_succ_of_ne_zero (Nat.ne_zero_of_lt enough)
    rw [List.flatten_cons]
    have read := first.read_append frames.flatten
    obtain ⟨bytes, spelled⟩ := first.cons_append frames.flatten
    rw [spelled] at read ⊢
    simp only [readFrames, read]
    rw [ih (by simpa using enough)]
    rfl

theorem readStream_flatten {frames bodies : List (List UInt8)}
    (isFrame : List.Forall₂ (IsFrame head) frames bodies) :
    readStream head frames.flatten = some bodies := by
  apply readFrames_flatten isFrame
  induction isFrame with
  | nil => simp
  | @cons frame body frames bodies first others ih =>
    rw [List.length_cons, List.flatten_cons, List.length_append]
    obtain ⟨⟨hi, lo, rfl, -⟩, -⟩ := first
    simp only [List.length_cons]
    omega

end BleSpeaker.Lib
