import BleSpeaker.Ble.Relay
import BleSpeaker.Speech.Syn6288

/-!
# Speaking a message

The body of the receive loop of `main`, as the list of its stores: `strcat` into the local array
`head` and then `SYN_FrameInfo` on the converted text. The frame always has room for a message of
`data_parsing`. The array is the literal `""` and has one byte, so `strcat` stays inside it only for
the empty message.
-/

namespace BleSpeaker.Speech
open Ble Lib

inductive Object where
  | head | frameInfo
  deriving DecidableEq

/-- `char head[] = "";` -/
def headInit : List UInt8 := [0]

def Object.size : Object → Nat
  | .head => headInit.length
  | .frameInfo => frameInfoSize

def strcatStores (dest src : List UInt8) : List Store := copyStores (strlen dest) (cstr src ++ [0])

def strcat (dest src : List UInt8) : List UInt8 := cstr dest ++ cstr src

variable (utf82gbk : List UInt8 → List UInt8) (stack : Nat → UInt8)

/-- `str` is the memory behind the mail. -/
def speak (str : List UInt8) : List (Object × Store) :=
  let name := utf82gbk (strcat headInit str) ++ [0]
  (strcatStores headInit str).map (.head, ·) ++ (synFrameInfo stack 0 name).stores.map (.frameInfo, ·)

def InBounds (x : Object × Store) : Prop := x.2.index < x.1.size

variable {utf82gbk} {stack} {m : List UInt8}

theorem strcatStores_inBounds (nulFree : 0 ∉ m) :
    (∀ store ∈ strcatStores headInit (m ++ [0]), store.index < headInit.length) ↔ m = [] := by
  have stores : strcatStores headInit (m ++ [0]) = copyStores 0 (m ++ [0]) := by
    rw [strcatStores, cstr_append_zero, cstr_of_nul_free nulFree]
    rfl
  rw [stores]
  constructor
  · intro inside
    obtain ⟨store, member, index⟩ := exists_copyStores 0 (show m.length < (m ++ [0]).length by simp)
    have bound := inside store member
    change store.index < 1 at bound
    exact List.length_eq_zero_iff.mp (by omega)
  · rintro rfl store member
    exact (mem_copyStores member).2

/-- Every store made for a message of at most 30 bytes is inside its array exactly when the message
is empty. -/
theorem speak_inBounds (shrinks : ∀ m, (utf82gbk m).length ≤ m.length) (nulFree : 0 ∉ m)
    (short : m.length ≤ 30) : (∀ x ∈ speak utf82gbk stack (m ++ [0]), InBounds x) ↔ m = [] := by
  have string : strcat headInit (m ++ [0]) = m := by
    rw [strcat, cstr_append_zero, cstr_of_nul_free nulFree]
    rfl
  have frame : ∀ store ∈ (synFrameInfo stack 0 (utf82gbk m ++ [0])).stores,
      store.index < frameInfoSize := by
    apply synFrameInfo_inBounds
    have converted := shrinks m
    have cut := strlen_le (utf82gbk m)
    rw [strlen, cstr_append_zero]
    exact Nat.le_trans cut (by omega)
  rw [← strcatStores_inBounds nulFree]
  unfold speak
  simp only [string, List.forall_mem_append, List.forall_mem_map]
  exact ⟨fun both => both.1, fun head => ⟨head, frame⟩⟩

theorem speak_inBounds_short : (∀ x ∈ speak id (fun _ => 0) [0], InBounds x) ∧
    ¬ ∀ x ∈ speak id (fun _ => 0) [98, 0], InBounds x := by
  have same : ∀ m : List UInt8, (id m).length ≤ m.length := fun _ => Nat.le_refl _
  constructor
  · exact (speak_inBounds same (m := []) (by decide) (by decide)).mpr rfl
  · intro inside
    exact absurd ((speak_inBounds same (m := [98]) (by decide) (by decide)).mp inside) (by decide)

/-- The stream `ba` gives the message `b`, and its NUL goes to `head[1]`. -/
theorem speak_overruns :
    ¬ ∀ (utf82gbk : List UInt8 → List UInt8) (stack : Nat → UInt8) (stream m : List UInt8),
      (∀ m, (utf82gbk m).length ≤ m.length) →
      (∀ seg ∈ completed dataCmdEnd stream, seg.length ≤ 30) → m ∈ messages stream →
      Box.mb6288 ∈ routeText m → ∀ x ∈ speak utf82gbk stack (m ++ [0]), InBounds x := by
  intro always
  have inside := always id (fun _ => 0) [98, 97] [98] (fun _ => Nat.le_refl _) (by decide) (by decide)
    (by decide) (.head, ⟨1, 0⟩) (by decide)
  change 1 < 1 at inside
  omega

end BleSpeaker.Speech
