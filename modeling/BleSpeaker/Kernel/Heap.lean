import Mathlib.Logic.Function.Basic

/-!
# The headers of the heap

The small-memory allocator of `mem.c` on a 32-bit target, without memory tracing. A block starts
with a header of 12 bytes, and the free blocks are found by walking the headers from `lfree` on.
Offsets are those from `heap_ptr`.

A walk that has made as many turns as there are pointers comes by a header for the second time, and
never ends. That happens: with `mem_size_aligned` 4 or 8, `mem_size_aligned - size` wraps around for
every size, and a search that finds nothing goes round at `heap_end`.

Here are the walks and the header updates alone; `Arena` has the calls.
-/

namespace BleSpeaker.Kernel

structure HeapMem where
  used : Bool
  next : Nat
  prev : Nat
  deriving DecidableEq

structure Heap where
  mem : Nat → HeapMem
  lfree : Nat
  memSizeAligned : Nat

def rtAlign (size : Nat) : Nat := (size + 3) / 4 * 4

def minSizeAligned : Nat := rtAlign 12

def sizeofStructMem : Nat := rtAlign 12

/-- Subtraction of `rt_size_t`, of operands below `2 ^ 32`. -/
def sub32 (a b : Nat) : Nat := if b ≤ a then a - b else 4294967296 - (b - a)

namespace Heap

def heapEnd (h : Heap) : Nat := h.memSizeAligned + sizeofStructMem

def rtSystemHeapInit (raw : Nat → HeapMem) (memSizeAligned : Nat) : Heap where
  mem := Function.update (Function.update raw 0 ⟨false, memSizeAligned + sizeofStructMem, 0⟩)
    (memSizeAligned + sizeofStructMem)
    ⟨true, memSizeAligned + sizeofStructMem, memSizeAligned + sizeofStructMem⟩
  lfree := 0
  memSizeAligned := memSizeAligned

/-- The number of pointers. -/
def longestWalk : Nat := 4294967296

/-- The `for` loop: the first free block that is large enough, or no block when it ends without one.
`none` is a loop that never ends. -/
def search (h : Heap) (size : Nat) : Nat → Nat → Option (Option Nat)
  | 0, _ => none
  | turns + 1, ptr =>
    if ptr < sub32 h.memSizeAligned size then
      if (h.mem ptr).used = false ∧ sub32 (h.mem ptr).next (ptr + sizeofStructMem) ≥ size then some (some ptr)
      else h.search size turns (h.mem ptr).next
    else some none

/-- The `while` loop that moves `lfree` up. The assert behind it stops the walks that never end. -/
def nextFree (mem : Nat → HeapMem) (heapEnd : Nat) : Nat → Nat → Nat
  | 0, ptr => ptr
  | turns + 1, ptr =>
    if (mem ptr).used = true ∧ ptr ≠ heapEnd then nextFree mem heapEnd turns (mem ptr).next else ptr

def occupy (h : Heap) (ptr size : Nat) : Nat → HeapMem :=
  let block := h.mem ptr
  if sub32 block.next (ptr + sizeofStructMem) ≥ size + sizeofStructMem + minSizeAligned then
    let ptr2 := ptr + sizeofStructMem + size
    let mem := Function.update h.mem ptr2 ⟨false, block.next, ptr⟩
    let mem := Function.update mem ptr { block with used := true, next := ptr2 }
    if block.next ≠ h.heapEnd then
      Function.update mem block.next { mem block.next with prev := ptr2 }
    else mem
  else Function.update h.mem ptr { block with used := true }

def hand (h : Heap) (ptr size : Nat) : Heap where
  mem := h.occupy ptr size
  lfree :=
    if ptr = h.lfree then nextFree (h.occupy ptr size) h.heapEnd longestWalk h.lfree else h.lfree
  memSizeAligned := h.memSizeAligned

variable {h : Heap} {size : Nat}

theorem sub32_eq {a b : Nat} (le : b ≤ a) : sub32 a b = a - b := if_pos le

theorem sizeofStructMem_eq : sizeofStructMem = 12 := rfl

theorem minSizeAligned_eq : minSizeAligned = 12 := rfl

theorem rtSystemHeapInit_first (raw : Nat → HeapMem) (size : Nat) :
    (rtSystemHeapInit raw size).mem 0 = ⟨false, (rtSystemHeapInit raw size).heapEnd, 0⟩ := by
  have apart : 0 ≠ size + sizeofStructMem := by
    rw [sizeofStructMem_eq]
    omega
  rw [rtSystemHeapInit]
  dsimp only
  rw [Function.update_of_ne apart, Function.update_self]
  rfl

theorem rtSystemHeapInit_last (raw : Nat → HeapMem) (size : Nat) :
    (rtSystemHeapInit raw size).mem (rtSystemHeapInit raw size).heapEnd =
      ⟨true, (rtSystemHeapInit raw size).heapEnd, (rtSystemHeapInit raw size).heapEnd⟩ := by
  show (rtSystemHeapInit raw size).mem (size + sizeofStructMem) = _
  rw [rtSystemHeapInit]
  dsimp only
  rw [Function.update_self]
  rfl

/-- At the end of the heap a walk goes round. -/
theorem search_heapEnd (used : (h.mem h.heapEnd).used = true) (stays : (h.mem h.heapEnd).next = h.heapEnd)
    (wraps : h.heapEnd < sub32 h.memSizeAligned size) (turns : Nat) : h.search size turns h.heapEnd = none := by
  induction turns with
  | zero => rfl
  | succ turns ih =>
    rw [search, if_pos wraps, if_neg (by rw [used]; simp), stays]
    exact ih

/-- On a heap of 4 or 8 bytes no search ends. -/
theorem search_endless (positive : 4 ≤ h.memSizeAligned) (tiny : h.memSizeAligned < 12)
    (first : (h.mem 0).next = h.heapEnd) (used : (h.mem h.heapEnd).used = true)
    (stays : (h.mem h.heapEnd).next = h.heapEnd) (turns : Nat) : h.search 12 turns 0 = none := by
  have ends : h.heapEnd = h.memSizeAligned + 12 := rfl
  have wraps : sub32 h.memSizeAligned 12 = 4294967296 - (12 - h.memSizeAligned) := if_neg (by omega)
  cases turns with
  | zero => rfl
  | succ turns =>
    have narrow : ¬ sub32 (h.mem 0).next (0 + sizeofStructMem) ≥ 12 := by
      rw [first, ends, sizeofStructMem_eq, sub32_eq (by omega)]
      omega
    rw [search, wraps, if_pos (by omega), if_neg fun found => narrow found.2, first]
    exact search_heapEnd used stays (by rw [wraps, ends]; omega) turns

theorem nextFree_used {mem : Nat → HeapMem} {heapEnd turns ptr : Nat} (used : (mem ptr).used = true)
    (inside : ptr ≠ heapEnd) :
    nextFree mem heapEnd (turns + 1) ptr = nextFree mem heapEnd turns (mem ptr).next := by
  rw [nextFree, if_pos ⟨used, inside⟩]

theorem nextFree_stops {mem : Nat → HeapMem} {heapEnd turns ptr : Nat}
    (stops : (mem ptr).used = false ∨ ptr = heapEnd) : nextFree mem heapEnd (turns + 1) ptr = ptr := by
  rw [nextFree, if_neg]
  rintro ⟨used, inside⟩
  rcases stops with free | last
  · rw [used] at free
    simp at free
  · exact inside last

end Heap
end BleSpeaker.Kernel
