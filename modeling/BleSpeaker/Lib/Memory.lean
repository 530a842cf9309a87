import Mathlib.Logic.Function.Basic

/-!
# Stores into memory

Memory as a program sees it through one array: index 0 is the first byte of the array, and the
bytes behind the array are there too. A piece of code is described by the list of its stores, so
that where it stores and what it leaves behind can both be read off.
-/

namespace BleSpeaker.Lib

structure Store where
  index : Nat
  byte : UInt8
  deriving DecidableEq

def storeAll (m : Nat → UInt8) (stores : List Store) : Nat → UInt8 :=
  stores.foldl (fun m store => Function.update m store.index store.byte) m

/-- `memcpy` and the like: `bytes` stored one after the other from `start` on. -/
def copyStores (start : Nat) : List UInt8 → List Store
  | [] => []
  | b :: bytes => ⟨start, b⟩ :: copyStores (start + 1) bytes

def load (m : Nat → UInt8) (n : Nat) : List UInt8 := (List.range n).map m

theorem copyStores_append (start : Nat) (front back : List UInt8) :
    copyStores start (front ++ back) = copyStores start front ++ copyStores (start + front.length) back := by
  induction front generalizing start with
  | nil => rfl
  | cons b front ih =>
    simp only [List.cons_append, copyStores, ih, List.length_cons]
    rw [Nat.add_right_comm, Nat.add_assoc]

theorem mem_copyStores {start : Nat} {bytes : List UInt8} {store : Store}
    (member : store ∈ copyStores start bytes) :
    start ≤ store.index ∧ store.index < start + bytes.length := by
  induction bytes generalizing start with
  | nil => simp [copyStores] at member
  | cons b bytes ih =>
    rw [copyStores, List.mem_cons] at member
    rw [List.length_cons]
    rcases member with rfl | later
    · exact ⟨Nat.le_refl _, by simp⟩
    · have bounds := ih later
      omega

theorem exists_copyStores (start : Nat) {k : Nat} {bytes : List UInt8} (inside : k < bytes.length) :
    ∃ store ∈ copyStores start bytes, store.index = start + k := by
  induction bytes generalizing start k with
  | nil => simp at inside
  | cons b bytes ih =>
    cases k with
    | zero => exact ⟨⟨start, b⟩, by simp [copyStores], rfl⟩
    | succ k =>
      obtain ⟨store, member, index⟩ := ih (start + 1) (k := k) (by simpa using inside)
      exact ⟨store, List.mem_cons_of_mem _ member, by omega⟩

theorem storeAll_copyStores_below {m : Nat → UInt8} {start k : Nat} (bytes : List UInt8)
    (below : k < start) : storeAll m (copyStores start bytes) k = m k := by
  induction bytes generalizing m start with
  | nil => rfl
  | cons b bytes ih =>
    show storeAll (Function.update m start b) (copyStores (start + 1) bytes) k = m k
    rw [ih (by omega), Function.update_of_ne (Nat.ne_of_lt below)]

theorem storeAll_copyStores {m : Nat → UInt8} (start : Nat) {k : Nat} {bytes : List UInt8}
    (inside : k < bytes.length) : storeAll m (copyStores start bytes) (start + k) = bytes[k] := by
  induction bytes generalizing m start k with
  | nil => simp at inside
  | cons b bytes ih =>
    show storeAll (Function.update m start b) (copyStores (start + 1) bytes) (start + k) = _
    cases k with
    | zero =>
      rw [storeAll_copyStores_below bytes (by omega)]
      simp
    | succ k =>
      rw [show start + (k + 1) = start + 1 + k by omega, ih (start + 1) (by simpa using inside)]
      rfl

theorem load_copyStores (m : Nat → UInt8) (bytes : List UInt8) :
    load (storeAll m (copyStores 0 bytes)) bytes.length = bytes := by
  apply List.ext_getElem
  · simp [load]
  · intro k _ inside
    have stored := storeAll_copyStores (m := m) 0 inside
    rw [Nat.zero_add] at stored
    simp [load, stored]

end BleSpeaker.Lib
