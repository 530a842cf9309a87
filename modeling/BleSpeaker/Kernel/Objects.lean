import BleSpeaker.Kernel.Arena
import BleSpeaker.Lib.Transition

/-!
# The objects on the heap

What the allocator is for: its callers see objects, each with an address and bytes of its own. `Serves` is
what they may rely on. A new object lies apart from all others, a reallocated one starts with the bytes it
had, no other object ever changes, and nothing is refused as long as a hole suits.

`Owns` connects that with the memory: every object lies in a used block, every used block belongs to one
object, and the bytes are there. It survives every call, so the callers of the allocator are served in every
run in which they only pass pointers that they got and did not give back: `objects_served`.

`afterCall` is the allocator on the blocks alone: the answer and the blocks that a call leaves.
-/

namespace BleSpeaker.Kernel
open Lib

structure Object where
  addr : Nat
  data : List UInt8

def read (m : Nat → UInt8) (a n : Nat) : List UInt8 := (List.range n).map fun i => m (a + i)

/-- Two objects, with the header before each of them. -/
def Object.Apart (o o' : Object) : Prop :=
  o.addr + o.data.length + 12 ≤ o'.addr ∨ o'.addr + o'.data.length + 12 ≤ o.addr

def remove (p : Nat) (objs : List Object) : List Object := objs.filter fun o => o.addr != p

inductive HeapAct where
  | malloc (n : Nat)
  | calloc (count size : Nat)
  | realloc (p n : Nat)
  | free (p : Nat)
  | store (p i : Nat) (v : UInt8)

/-- A hole that `rt_malloc` takes for `n` bytes. -/
def Suits (bs : List Block) (memSizeAligned n q : Nat) : Prop :=
  ∃ t, (q, ⟨false, t⟩) ∈ spots 0 bs ∧ Heap.request n + 12 ≤ t ∧ q + Heap.request n < memSizeAligned

/-- What a caller may rely on: the answer to a call and the objects after it. `bs` are the blocks before the
call, in a heap of `size` bytes. -/
inductive Serves (bs : List Block) (size : Nat) (objs : List Object) :
    HeapAct → Option Nat → List Object → Prop where
  | none_malloc (n : Nat) : (n = 0 ∨ ∀ q, ¬ Suits bs size n q) → Serves bs size objs (.malloc n) none objs
  | none_calloc (count k : Nat) : (count * k = 0 ∨ ∀ q, ¬ Suits bs size (count * k) q) →
      Serves bs size objs (.calloc count k) none objs
  | none_realloc (p n : Nat) : n ≠ 0 → (∀ q, ¬ Suits bs size n q) → Serves bs size objs (.realloc p n) none objs
  | malloc (n : Nat) (o : Object) : n ≠ 0 → o.data.length = n → (∀ o' ∈ objs, o.Apart o') →
      Serves bs size objs (.malloc n) (some o.addr) (o :: objs)
  | calloc (count k p : Nat) : count * k ≠ 0 →
      (∀ o' ∈ objs, Object.Apart ⟨p, List.replicate (count * k) 0⟩ o') →
      Serves bs size objs (.calloc count k) (some p) (⟨p, List.replicate (count * k) 0⟩ :: objs)
  | realloc (n : Nat) (o o' : Object) : o ∈ objs → n ≠ 0 → o'.data.length = n →
      o'.data.take o.data.length = o.data.take n → (∀ x ∈ remove o.addr objs, o'.Apart x) →
      Serves bs size objs (.realloc o.addr n) (some o'.addr) (o' :: remove o.addr objs)
  | realloc_zero (p : Nat) : Serves bs size objs (.realloc p 0) none (remove p objs)
  | free (p : Nat) : Serves bs size objs (.free p) none (remove p objs)
  | store (i : Nat) (v : UInt8) (o : Object) : o ∈ objs →
      Serves bs size objs (.store o.addr i v) none (⟨o.addr, o.data.set i v⟩ :: remove o.addr objs)

/-! ### The calls on blocks -/

def freeBlocks (q : Nat) (bs : List Block) : List Block := merge (replace (fun b => [⟨false, b.size⟩]) q bs)

def cutBlocks (q newsize : Nat) (bs : List Block) : List Block :=
  merge (replace (fun b => [⟨true, newsize + 12⟩, ⟨false, b.size - (newsize + 12)⟩]) q bs)

def mallocBlocks (size n : Nat) (bs : List Block) : Option Nat × List Block :=
  match Heap.place size n bs with
  | none => (none, bs)
  | some (q, cs) => (some (q + 12), cs)

def sizeAt (q : Nat) (bs : List Block) : Nat :=
  match (spots 0 bs).find? fun x => x.1 == q with
  | none => 0
  | some x => x.2.size

def reallocBlocks (size p n : Nat) (bs : List Block) : Option Nat × List Block :=
  if rtAlign n > size then (none, bs)
  else if sizeAt (p - 12) bs - 12 = rtAlign n then (some p, bs)
  else if rtAlign n + 24 < sizeAt (p - 12) bs - 12 then (some p, cutBlocks (p - 12) (rtAlign n) bs)
  else
    match Heap.place size (rtAlign n) bs with
    | none => (none, bs)
    | some (q, cs) => (some (q + 12), freeBlocks (p - 12) cs)

/-- The allocator on blocks: the answer to a call, and the blocks after it. -/
def afterCall (size : Nat) (bs : List Block) : HeapAct → Option Nat × List Block
  | .malloc n => if n = 0 then (none, bs) else mallocBlocks size n bs
  | .calloc count k => if count * k = 0 then (none, bs) else mallocBlocks size (count * k) bs
  | .realloc p n => if n = 0 then (none, freeBlocks (p - 12) bs) else reallocBlocks size p n bs
  | .free p => (none, freeBlocks (p - 12) bs)
  | .store _ _ _ => (none, bs)

/-! ### Objects in their blocks -/

structure Owns (r : Arena) (bs : List Block) (objs : List Object) : Prop where
  good : r.Good bs
  blocks : ∀ o ∈ objs, ∃ q s, o.addr = q + 12 ∧ (q, ⟨true, s⟩) ∈ spots 0 bs ∧ o.data.length + 12 ≤ s
  owners : ∀ q s, (q, ⟨true, s⟩) ∈ spots 0 bs → ∃ o ∈ objs, o.addr = q + 12
  distinct : (objs.map Object.addr).Nodup
  holds : ∀ o ∈ objs, read r.bytes o.addr o.data.length = o.data

variable {r r' : Arena} {m m' : Nat → UInt8} {bs cs xs ys : List Block} {b : Block} {objs : List Object} {o : Object}
  {p q s t n a size : Nat}

theorem read_congr (same : ∀ i < n, m' (p + i) = m (a + i)) : read m' p n = read m a n := by
  apply List.map_congr_left
  intro i member
  exact same i (List.mem_range.mp member)

@[simp] theorem read_length (m : Nat → UInt8) (a n : Nat) : (read m a n).length = n := by simp [read]

theorem take_read (m : Nat → UInt8) (a n k : Nat) : (read m a n).take k = read m a (min k n) := by
  rw [read, ← List.map_take, List.take_range, read]

/-- The part that two lengths share. -/
theorem take_read_eq {k : Nat} (same : ∀ i < n, i < k → m' (p + i) = m (a + i)) :
    (read m' p n).take k = (read m a k).take n := by
  rw [take_read, take_read, Nat.min_comm]
  apply read_congr
  intro i small
  exact same i (by omega) (by omega)

theorem mem_remove : o ∈ remove p objs ↔ o ∈ objs ∧ o.addr ≠ p := by
  simp [remove]

/-- Bytes in a block are not in a header. -/
theorem read_frame (frame : Arena.Frame bs r r') (member : (q, ⟨true, s⟩) ∈ spots 0 bs) (fits : n + 12 ≤ s) :
    read r'.bytes (q + 12) n = read r.bytes (q + 12) n := by
  apply read_congr
  intro i inside
  apply frame
  intro a boundary
  have outside := boundary.outside member
  dsimp only at outside
  omega

/-- Used blocks lie apart, and so do objects in them. -/
theorem Owns.apart {o o' : Object} (owns : Owns r bs objs) (first : o ∈ objs) (second : o' ∈ objs)
    (differs : o.addr ≠ o'.addr) : o.Apart o' := by
  obtain ⟨q, s, start, member, fits⟩ := owns.blocks o first
  obtain ⟨q', s', start', member', fits'⟩ := owns.blocks o' second
  unfold Object.Apart
  rcases spots_apart member member' with ⟨same, -⟩ | below | above
  · omega
  · dsimp only at below
    omega
  · dsimp only at above
    omega

theorem Owns.aligned (owns : Owns r bs objs) (member : o ∈ objs) :
    o.addr % 4 = 0 ∧ 12 ≤ o.addr ∧ o.addr + o.data.length ≤ r.heapEnd := by
  obtain ⟨q, s, start, spot, fits⟩ := owns.blocks o member
  obtain ⟨xs, ys, rfl, rfl⟩ := mem_spots.mp spot
  have ends := owns.good.layout.total_eq
  have last : r.view.heapEnd = r.heapEnd := rfl
  rw [total_append, total, last] at ends
  have aligned := (Heap.sized_append.mp owns.good.layout.sized).1.four_dvd_total
  dsimp only at ends
  omega

/-! ### Blocks and holes -/

theorem fits_suits :
    Heap.fits (size - Heap.request n) (Heap.request n) q b = true ↔
      b.used = false ∧ Heap.request n + 12 ≤ b.size ∧ q + Heap.request n < size := by
  rw [Heap.fits_iff]
  constructor
  · rintro ⟨hole, room, low⟩
    exact ⟨hole, room, by omega⟩
  · rintro ⟨hole, room, low⟩
    exact ⟨hole, room, by omega⟩

theorem place_none : Heap.place size n bs = none ↔ ∀ q, ¬ Suits bs size n q := by
  rw [Heap.place, firstFit_none]
  constructor
  · rintro unfit q ⟨t, member, room, low⟩
    exact absurd (fits_suits.mpr ⟨rfl, room, low⟩) (Bool.eq_false_iff.mp (unfit _ member))
  · rintro nothing ⟨q, used, t⟩ member
    apply Bool.eq_false_iff.mpr
    intro fit
    obtain ⟨rfl, room, low⟩ := fits_suits.mp fit
    exact nothing q ⟨t, member, room, low⟩

theorem rtAlign_bounds (n : Nat) : n ≤ rtAlign n ∧ 4 ∣ rtAlign n := by
  unfold rtAlign
  omega

theorem request_rtAlign (n : Nat) : Heap.request (rtAlign n) = Heap.request n := by
  have twice : rtAlign (rtAlign n) = rtAlign n := by
    unfold rtAlign
    omega
  rw [Heap.request, twice, Heap.request]

theorem place_rtAlign (size n : Nat) (bs : List Block) : Heap.place size (rtAlign n) bs = Heap.place size n bs := by
  rw [Heap.place, request_rtAlign, Heap.place]

theorem sizeAt_eq (sized : Heap.Sized bs) (member : (q, b) ∈ spots 0 bs) : sizeAt q bs = b.size := by
  obtain ⟨xs, ys, rfl, rfl⟩ := mem_spots.mp member
  have before : (spots 0 xs).find? (fun x => x.1 == 0 + total xs) = none := by
    rw [List.find?_eq_none]
    rintro ⟨r, c⟩ other
    have bound := (spots_bounds other).2
    obtain ⟨us, vs, rfl, -⟩ := mem_spots.mp other
    have positive := (sized c (by simp)).1
    simp only [beq_iff_eq]
    omega
  rw [sizeAt, spots_append, List.find?_append, before]
  simp [spots]

theorem positive_of_sized (sized : Heap.Sized (xs ++ b :: ys)) : ∀ c ∈ xs, 0 < c.size := by
  intro c member
  have large := (sized c (List.mem_append_left _ member)).1
  omega

/-! ### What happens to the used blocks -/

theorem mem_spots_middle (zs : List Block) :
    (q, b) ∈ spots 0 (xs ++ zs ++ ys) ↔
      (q, b) ∈ spots 0 xs ∨ (q, b) ∈ spots (total xs) zs ∨ (q, b) ∈ spots (total xs + total zs) ys := by
  rw [List.append_assoc, spots_append, spots_append, List.mem_append, List.mem_append, Nat.zero_add]

theorem used_carve (xs ys : List Block) {c : Block} (hole : c.used = false) (room : size + 12 ≤ c.size) :
    ∃ t, size + 12 ≤ t ∧ ∀ q s, (q, ⟨true, s⟩) ∈ spots 0 (xs ++ Heap.carve size c ++ ys) ↔
      (q, ⟨true, s⟩) ∈ spots 0 (xs ++ c :: ys) ∨ (q = total xs ∧ s = t) := by
  have whole : xs ++ c :: ys = xs ++ [c] ++ ys := by simp
  have differs : ∀ s, (⟨true, s⟩ : Block) ≠ c := by
    rintro s rfl
    cases hole
  have width : total [c] = c.size := by simp [total]
  by_cases split : size + 36 ≤ c.size
  · refine ⟨size + 12, Nat.le_refl _, fun q s => ?_⟩
    rw [whole, mem_spots_middle, mem_spots_middle, Heap.total_carve, width, Heap.carve, if_pos split]
    simp [spots, differs]
    tauto
  · refine ⟨c.size, room, fun q s => ?_⟩
    rw [whole, mem_spots_middle, mem_spots_middle, Heap.total_carve, width, Heap.carve, if_neg split]
    simp [spots, differs]
    tauto

/-- What becomes of the used blocks when `⟨true, s⟩` gives way to `zs`. -/
theorem used_replace (sized : Heap.Sized (xs ++ ⟨true, s⟩ :: ys)) (zs : List Block) (width : total zs = s) :
    (q, ⟨true, t⟩) ∈ spots 0 (merge (xs ++ zs ++ ys)) ↔
      ((q, ⟨true, t⟩) ∈ spots 0 (xs ++ ⟨true, s⟩ :: ys) ∧ q ≠ total xs) ∨
        (q, ⟨true, t⟩) ∈ spots (total xs) zs := by
  have whole : xs ++ ⟨true, s⟩ :: ys = xs ++ [⟨true, s⟩] ++ ys := by simp
  have width' : total [⟨true, s⟩] = s := by simp [total]
  rw [Heap.sized_append, Heap.sized_cons] at sized
  rw [mem_spots_merge rfl, mem_spots_middle, width, whole, mem_spots_middle, width']
  constructor
  · rintro (before | middle | behind)
    · left
      obtain ⟨us, vs, rfl, rfl⟩ := mem_spots.mp before
      have positive := (Heap.sized_cons.mp (Heap.sized_append.mp sized.1).2).1.1
      refine ⟨Or.inl before, ?_⟩
      rw [total_append, total]
      omega
    · exact Or.inr middle
    · left
      have bound := (spots_bounds behind).1
      have positive := sized.2.1.1
      dsimp only at positive
      exact ⟨Or.inr (Or.inr behind), by omega⟩
  · rintro (⟨before | middle | behind, apart⟩ | middle)
    · exact Or.inl before
    · simp only [spots, List.mem_singleton, Prod.mk.injEq] at middle
      exact absurd middle.1 apart
    · exact Or.inr (Or.inr behind)
    · exact Or.inr (Or.inl middle)

/-! ### The calls -/

theorem Owns.adopt (owns : Owns r bs objs) (good : r'.Good cs) (frame : Arena.Frame cs r r') (fits : n + 12 ≤ t)
    (used : ∀ q s, (q, ⟨true, s⟩) ∈ spots 0 cs ↔ (q, ⟨true, s⟩) ∈ spots 0 bs ∨ (q = p ∧ s = t))
    (fresh : ∀ s, (p, ⟨true, s⟩) ∉ spots 0 bs) :
    Owns r' cs (⟨p + 12, read r'.bytes (p + 12) n⟩ :: objs) := by
  refine ⟨good, ?_, ?_, ?_, ?_⟩
  · rw [List.forall_mem_cons]
    refine ⟨⟨p, t, rfl, (used p t).mpr (Or.inr ⟨rfl, rfl⟩), by simpa using fits⟩, ?_⟩
    intro o member
    obtain ⟨q, s, start, spot, inside⟩ := owns.blocks o member
    exact ⟨q, s, start, (used q s).mpr (Or.inl spot), inside⟩
  · intro q s spot
    rcases (used q s).mp spot with old | ⟨rfl, rfl⟩
    · obtain ⟨o, member, start⟩ := owns.owners q s old
      exact ⟨o, List.mem_cons_of_mem _ member, start⟩
    · exact ⟨_, List.mem_cons_self, rfl⟩
  · rw [List.map_cons, List.nodup_cons]
    refine ⟨?_, owns.distinct⟩
    intro member
    obtain ⟨o, old, same⟩ := List.mem_map.mp member
    obtain ⟨q, s, start, spot, -⟩ := owns.blocks o old
    dsimp only at same
    obtain rfl : q = p := by omega
    exact fresh s spot
  · rw [List.forall_mem_cons]
    refine ⟨by simp, ?_⟩
    intro o member
    obtain ⟨q, s, start, spot, inside⟩ := owns.blocks o member
    rw [start, read_frame frame ((used q s).mpr (Or.inl spot)) inside, ← start, owns.holds o member]

theorem Owns.rtMalloc (owns : Owns r bs objs) (positive : n ≠ 0) (small : n ≤ 4294967292) :
    (Heap.place r.memSizeAligned n bs = none ∧ r.rtMalloc n = some (none, r)) ∨
      ∃ p r' cs, Heap.place r.memSizeAligned n bs = some (p, cs) ∧ r.rtMalloc n = some (some (p + 12), r') ∧
        Owns r' cs (⟨p + 12, read r'.bytes (p + 12) n⟩ :: objs) ∧
        (∀ q s, (q, ⟨true, s⟩) ∈ spots 0 bs → (q, ⟨true, s⟩) ∈ spots 0 cs) ∧
        r'.memSizeAligned = r.memSizeAligned := by
  rcases owns.good.rtMalloc positive small with fails | ⟨p, cs, found, called, good, frame⟩
  · exact Or.inl fails
  · right
    have placed := found
    obtain ⟨xs, b, ys, rfl, rfl, rfl, fit, -⟩ := firstFit_some found
    obtain ⟨hole, room, -⟩ := Heap.fits_iff.mp fit
    obtain ⟨t, large, used⟩ := used_carve xs ys hole room
    have bounds := Heap.request_bounds n
    rw [Nat.zero_add] at placed called good frame
    have fresh : ∀ s, (total xs, ⟨true, s⟩) ∉ spots 0 (xs ++ b :: ys) := by
      intro s spot
      obtain ⟨us, vs, same, -⟩ := mem_spots.mp spot
      have positive := owns.good.layout.sized ⟨true, s⟩ (by rw [same]; simp)
      have apart := spots_apart spot (mem_spots.mpr ⟨xs, ys, rfl, (Nat.zero_add _).symm⟩)
      dsimp only at apart positive
      rcases apart with ⟨-, rfl⟩ | below | above
      · cases hole
      · omega
      · omega
    exact ⟨total xs, _, _, placed, called, owns.adopt good frame (by omega) used fresh,
      fun q s old => (used q s).mpr (Or.inl old), rfl⟩

/-- The other objects, when `⟨true, s⟩` gives way to `zs`. -/
theorem Owns.rest {zs : List Block} (owns : Owns r (xs ++ ⟨true, s⟩ :: ys) objs) (width : total zs = s)
    (frame : Arena.Frame (xs ++ zs ++ ys) r r') :
    ∀ o ∈ remove (total xs + 12) objs,
      (∃ q t, o.addr = q + 12 ∧ (q, ⟨true, t⟩) ∈ spots 0 (merge (xs ++ zs ++ ys)) ∧ o.data.length + 12 ≤ t) ∧
        read r'.bytes o.addr o.data.length = o.data := by
  intro o member
  obtain ⟨old, differs⟩ := mem_remove.mp member
  obtain ⟨q, t, start, spot, inside⟩ := owns.blocks o old
  have stays := (used_replace owns.good.layout.sized zs width).mpr (Or.inl ⟨spot, by omega⟩)
  refine ⟨⟨q, t, start, stays, inside⟩, ?_⟩
  rw [start, read_frame frame ((mem_spots_merge rfl).mp stays) inside, ← start, owns.holds o old]

theorem distinct_remove (p : Nat) (distinct : (objs.map Object.addr).Nodup) :
    ((remove p objs).map Object.addr).Nodup :=
  distinct.sublist ((List.filter_sublist).map Object.addr)

theorem Owns.drop {zs : List Block} (owns : Owns r (xs ++ ⟨true, s⟩ :: ys) objs) (width : total zs = s)
    (good : r'.Good (merge (xs ++ zs ++ ys))) (frame : Arena.Frame (xs ++ zs ++ ys) r r')
    (unused : ∀ q t, (q, ⟨true, t⟩) ∉ spots (total xs) zs) :
    Owns r' (merge (xs ++ zs ++ ys)) (remove (total xs + 12) objs) := by
  have rest := owns.rest width frame
  refine ⟨good, fun o member => (rest o member).1, ?_, distinct_remove _ owns.distinct,
    fun o member => (rest o member).2⟩
  intro q t spot
  rcases (used_replace owns.good.layout.sized zs width).mp spot with ⟨old, differs⟩ | fresh
  · obtain ⟨o, member, start⟩ := owns.owners q t old
    exact ⟨o, mem_remove.mpr ⟨member, by omega⟩, start⟩
  · exact absurd fresh (unused q t)

theorem Owns.resize {zs : List Block} (owns : Owns r (xs ++ ⟨true, s⟩ :: ys) objs) (width : total zs = s)
    (good : r'.Good (merge (xs ++ zs ++ ys))) (frame : Arena.Frame (xs ++ zs ++ ys) r r')
    (used : ∀ q t', (q, ⟨true, t'⟩) ∈ spots (total xs) zs ↔ q = total xs ∧ t' = t) (fits : n + 12 ≤ t) :
    Owns r' (merge (xs ++ zs ++ ys))
      (⟨total xs + 12, read r'.bytes (total xs + 12) n⟩ :: remove (total xs + 12) objs) := by
  have rest := owns.rest width frame
  have replaced := fun q t' => used_replace (q := q) (t := t') owns.good.layout.sized zs width
  refine ⟨good, ?_, ?_, ?_, ?_⟩
  · rw [List.forall_mem_cons]
    refine ⟨⟨total xs, t, rfl, ?_, by simpa using fits⟩, fun o member => (rest o member).1⟩
    exact (replaced _ _).mpr (Or.inr ((used _ _).mpr ⟨rfl, rfl⟩))
  · intro q t' spot
    rcases (replaced q t').mp spot with ⟨old, differs⟩ | fresh
    · obtain ⟨o, member, start⟩ := owns.owners q t' old
      exact ⟨o, List.mem_cons_of_mem _ (mem_remove.mpr ⟨member, by omega⟩), start⟩
    · obtain ⟨rfl, -⟩ := (used q t').mp fresh
      exact ⟨_, List.mem_cons_self, rfl⟩
  · rw [List.map_cons, List.nodup_cons]
    refine ⟨?_, distinct_remove _ owns.distinct⟩
    intro member
    obtain ⟨o, old, same⟩ := List.mem_map.mp member
    exact (mem_remove.mp old).2 same
  · rw [List.forall_mem_cons]
    exact ⟨by simp, fun o member => (rest o member).2⟩

theorem Owns.rtFree (owns : Owns r bs objs) (member : o ∈ objs) :
    ∃ r', r.rtFree (some o.addr) = some r' ∧ Owns r' (freeBlocks (o.addr - 12) bs) (remove o.addr objs) ∧
      r'.memSizeAligned = r.memSizeAligned := by
  obtain ⟨q, s, start, spot, -⟩ := owns.blocks o member
  obtain ⟨xs, ys, rfl, rfl⟩ := mem_spots.mp spot
  obtain ⟨r', freed, good, frame, size, -⟩ := owns.good.rtFree
  rw [Nat.zero_add] at start
  have whole : xs ++ ⟨false, s⟩ :: ys = xs ++ [⟨false, s⟩] ++ ys := by simp
  rw [whole] at good frame
  rw [start, Nat.add_sub_cancel, freeBlocks, replace_append (positive_of_sized owns.good.layout.sized)]
  refine ⟨r', freed, owns.drop (by simp [total]) good frame ?_, size⟩
  intro q t spot
  simp [spots] at spot

/-- New bytes in one object, which may also get another length within its block. -/
theorem Owns.rewrite {bytes : Nat → UInt8} (owns : Owns r bs objs) (spot : (q, ⟨true, s⟩) ∈ spots 0 bs)
    (fits : n + 12 ≤ s) (same : ∀ x, x < q + 12 ∨ q + s ≤ x → bytes x = r.bytes x) :
    Owns { r with bytes } bs (⟨q + 12, read bytes (q + 12) n⟩ :: remove (q + 12) objs) := by
  refine ⟨?_, ?_, ?_, ?_, ?_⟩
  · apply owns.good.data
    intro x b boundary low high
    have outside := boundary.outside spot
    dsimp only at outside
    exact same x (by omega)
  · rw [List.forall_mem_cons]
    refine ⟨⟨q, s, rfl, spot, by simpa using fits⟩, ?_⟩
    exact fun x other => owns.blocks x (mem_remove.mp other).1
  · intro q' t spot'
    obtain ⟨x, old, place⟩ := owns.owners q' t spot'
    by_cases here : x.addr = q + 12
    · exact ⟨_, List.mem_cons_self, by rw [← place, here]⟩
    · exact ⟨x, List.mem_cons_of_mem _ (mem_remove.mpr ⟨old, here⟩), place⟩
  · rw [List.map_cons, List.nodup_cons]
    refine ⟨?_, distinct_remove _ owns.distinct⟩
    intro again
    obtain ⟨x, old, equal⟩ := List.mem_map.mp again
    exact (mem_remove.mp old).2 equal
  · rw [List.forall_mem_cons]
    refine ⟨by simp, ?_⟩
    intro x other
    obtain ⟨old, differs⟩ := mem_remove.mp other
    obtain ⟨q', t, place, spot', inside⟩ := owns.blocks x old
    refine (read_congr fun i small => ?_).trans (owns.holds x old)
    have apart := spots_apart spot spot'
    dsimp only at apart
    exact same _ (by omega)

theorem Owns.shrink (owns : Owns r bs objs) (start : o.addr = q + 12)
    (spot : (q, ⟨true, s⟩) ∈ spots 0 bs) (room : size + 36 < s) (least : 4 ≤ size) (aligned : 4 ∣ size)
    (fits : n ≤ size) :
    ∃ r', r.shrink q (s - 12) size = some r' ∧
      Owns r' (cutBlocks q size bs) (⟨o.addr, read r'.bytes o.addr n⟩ :: remove o.addr objs) ∧
      r'.memSizeAligned = r.memSizeAligned ∧ ∀ i < size, r'.bytes (o.addr + i) = r.bytes (o.addr + i) := by
  obtain ⟨xs, ys, rfl, rfl⟩ := mem_spots.mp spot
  rw [Nat.zero_add] at start ⊢
  obtain ⟨r', shrunk, good, frame, same, -⟩ := owns.good.shrink room least aligned
  have whole : xs ++ ⟨true, size + 12⟩ :: ⟨false, s - (size + 12)⟩ :: ys =
      xs ++ [⟨true, size + 12⟩, ⟨false, s - (size + 12)⟩] ++ ys := by simp
  have width : total [⟨true, size + 12⟩, ⟨false, s - (size + 12)⟩] = s := by
    simp only [total]
    omega
  rw [whole] at good frame
  have used : ∀ q t, (q, (⟨true, t⟩ : Block)) ∈ spots (total xs) [⟨true, size + 12⟩, ⟨false, s - (size + 12)⟩] ↔
      q = total xs ∧ t = size + 12 := by
    intro q t
    simp [spots]
  rw [start, cutBlocks, replace_append (positive_of_sized owns.good.layout.sized)]
  refine ⟨r', shrunk, owns.resize width good frame used (by omega), same, ?_⟩
  intro i small
  apply frame
  intro b boundary
  have here : (total xs, (⟨true, size + 12⟩ : Block)) ∈
      spots 0 (xs ++ [⟨true, size + 12⟩, ⟨false, s - (size + 12)⟩] ++ ys) :=
    mem_spots.mpr ⟨xs, _, by rw [List.append_assoc]; rfl, (Nat.zero_add _).symm⟩
  have outside := boundary.outside here
  dsimp only at outside
  omega

theorem remove_cons_self (fresh : ∀ x ∈ objs, x.addr ≠ o.addr) : remove o.addr (o :: objs) = objs := by
  have all : ∀ x ∈ objs, (x.addr != o.addr) = true := by simpa using fresh
  simp [remove, List.filter_eq_self.mpr all]

theorem remove_cons (differs : o.addr ≠ p) : remove p (o :: objs) = o :: remove p objs := by
  simp [remove, differs]

/-- `rt_realloc` that has to move: a new block, a copy, and the old block freed. -/
theorem Owns.move (owns : Owns r bs objs) (member : o ∈ objs) (start : o.addr = q + 12)
    (spot : (q, ⟨true, s⟩) ∈ spots 0 bs) (fits : o.data.length + 12 ≤ s) (positive : size ≠ 0)
    (small : size ≤ 4294967292) (least : n ≤ size) :
    (Heap.place r.memSizeAligned size bs = none ∧ r.rtMalloc size = some (none, r)) ∨
      ∃ p r₁ r₂ cs, Heap.place r.memSizeAligned size bs = some (p, cs) ∧
        r.rtMalloc size = some (some (p + 12), r₁) ∧
        Arena.rtFree
            { r₁ with bytes := rtMemcpy r₁.bytes (p + 12) o.addr (if s - 12 < size then s - 12 else size) }
            (some o.addr) = some r₂ ∧
        Owns r₂ (freeBlocks q cs) (⟨p + 12, read r₂.bytes (p + 12) n⟩ :: remove o.addr objs) ∧
        (read r₂.bytes (p + 12) n).take o.data.length = o.data.take n ∧
        r₂.memSizeAligned = r.memSizeAligned := by
  rcases owns.rtMalloc positive small with fails | ⟨q', r₁, cs, placed, called, fresh, kept, same⟩
  · exact Or.inl fails
  · right
    obtain ⟨_, t, begins, spot', fits'⟩ := fresh.blocks _ List.mem_cons_self
    obtain rfl := Nat.add_right_cancel begins
    obtain ⟨new, -⟩ := List.nodup_cons.mp fresh.distinct
    rw [read_length] at fits'
    dsimp only at new
    have other : ∀ x ∈ objs, x.addr ≠ q' + 12 := by
      intro x old equal
      exact new (List.mem_map.mpr ⟨x, old, equal⟩)
    have apart := spots_apart (kept q s spot) spot'
    have differs := other o member
    dsimp only at apart
    have clear : q' + 12 ≤ o.addr ∨ o.addr + (if s - 12 < size then s - 12 else size) ≤ q' + 12 := by
      split <;> omega
    have outside : ∀ x, x < q' + 12 ∨ q' + t ≤ x →
        rtMemcpy r₁.bytes (q' + 12) o.addr (if s - 12 < size then s - 12 else size) x = r₁.bytes x := by
      intro x outside
      rw [rtMemcpy_eq clear]
      apply moved_outside
      split <;> omega
    have fits₂ : n + 12 ≤ t := by omega
    have copied := fresh.rewrite spot' fits₂ outside
    have first : remove (q' + 12) (⟨q' + 12, read r₁.bytes (q' + 12) size⟩ :: objs) = objs := remove_cons_self other
    rw [first] at copied
    obtain ⟨r₂, freed, served, size₂⟩ := copied.rtFree (List.mem_cons_of_mem _ member)
    rw [remove_cons differs.symm, show o.addr - 12 = q by omega] at served
    have result := served.holds _ List.mem_cons_self
    rw [read_length] at result
    dsimp only at result
    refine ⟨_, r₁, r₂, cs, placed, called, freed, ?_, ?_, size₂.trans same⟩
    · rw [result]
      exact served
    · rw [result, ← fresh.holds o (List.mem_cons_of_mem _ member)]
      rw [read_length]
      apply take_read_eq
      intro i below inside
      rw [rtMemcpy_eq clear]
      apply moved_inside
      split <;> omega

/-- What `rt_realloc` reads of the block of a live object. -/
theorem Owns.measure (owns : Owns r bs objs) (spot : (q, ⟨true, s⟩) ∈ spots 0 bs) :
    sub32 (sub32 (readHeader r.bytes q).next q) sizeofStructMem = s - 12 ∧ q + 12 < r.heapEnd := by
  have next := (Heap.chain_at owns.good.layout.chain spot).2
  have bound := (spots_bounds spot).2
  have ends := owns.good.layout.total_eq
  have last : r.view.heapEnd = r.heapEnd := rfl
  obtain ⟨xs, ys, rfl, -⟩ := mem_spots.mp spot
  have positive := (Heap.sized_cons.mp (Heap.sized_append.mp owns.good.layout.sized).2).1.1
  change (readHeader r.bytes q).next = q + s at next
  dsimp only at positive bound
  have span : sub32 (q + s) q = s := by
    rw [Heap.sub32_eq (by omega)]
    omega
  rw [next, span, Heap.sizeofStructMem_eq, Heap.sub32_eq (by omega)]
  omega

theorem Owns.rtRealloc (owns : Owns r bs objs) (member : o ∈ objs) (positive : n ≠ 0) (small : n ≤ 4294967292) :
    (reallocBlocks r.memSizeAligned o.addr n bs = (none, bs) ∧ r.rtRealloc (some o.addr) n = some (none, r) ∧
        ∀ q, ¬ Suits bs r.memSizeAligned n q) ∨
      ∃ p r' cs, reallocBlocks r.memSizeAligned o.addr n bs = (some p, cs) ∧
        r.rtRealloc (some o.addr) n = some (some p, r') ∧
        Owns r' cs (⟨p, read r'.bytes p n⟩ :: remove o.addr objs) ∧
        (read r'.bytes p n).take o.data.length = o.data.take n ∧ r'.memSizeAligned = r.memSizeAligned := by
  obtain ⟨q, s, start, spot, fits⟩ := owns.blocks o member
  obtain ⟨measured, inside⟩ := owns.measure spot
  have bounds := rtAlign_bounds n
  have holds := owns.holds o member
  have width : sizeAt (o.addr - 12) bs = s := by
    rw [start, Nat.add_sub_cancel]
    exact sizeAt_eq owns.good.layout.sized spot
  by_cases fitting : rtAlign n > r.memSizeAligned
  · left
    refine ⟨if_pos fitting, ?_, ?_⟩
    · rw [Arena.rtRealloc, Arena.align32_eq small]
      exact if_pos fitting
    · rintro q' ⟨t, -, -, low⟩
      have aligned : rtAlign n ≤ Heap.request n := by
        unfold Heap.request
        split <;> omega
      omega
  have replaced : reallocBlocks r.memSizeAligned o.addr n bs =
      if s - 12 = rtAlign n then (some (q + 12), bs)
      else if rtAlign n + 24 < s - 12 then (some (q + 12), cutBlocks q (rtAlign n) bs)
      else
        match Heap.place r.memSizeAligned (rtAlign n) bs with
        | none => (none, bs)
        | some (p, cs) => (some (p + 12), freeBlocks q cs) := by
    rw [reallocBlocks, if_neg fitting, width, start, Nat.add_sub_cancel]
  have nonzero : rtAlign n ≠ 0 := by omega
  have below : ¬ q + 12 ≥ r.heapEnd := by omega
  have behind : ¬ q + 12 < sizeofStructMem := by
    rw [Heap.sizeofStructMem_eq]
    omega
  rw [Heap.sizeofStructMem_eq] at measured
  unfold Arena.rtRealloc
  rw [replaced, Arena.align32_eq small, start]
  dsimp only
  rw [if_neg fitting, if_neg nonzero, if_neg below, if_neg behind, Heap.sizeofStructMem_eq, Nat.add_sub_cancel,
    measured]
  by_cases equal : s - 12 = rtAlign n
  · rw [if_pos equal, if_pos equal]
    right
    refine ⟨q + 12, r, bs, rfl, rfl, ?_, ?_, rfl⟩
    · exact owns.rewrite spot (by omega) fun _ _ => rfl
    · rw [← holds, read_length, start]
      exact take_read_eq fun _ _ _ => rfl
  rw [if_neg equal, if_neg equal]
  by_cases smaller : rtAlign n + 24 < s - 12
  · rw [if_pos smaller, if_pos (by omega)]
    right
    obtain ⟨r', shrunk, served, size, same⟩ := owns.shrink start spot (by omega) (by omega) bounds.2 bounds.1
    rw [start] at served same
    refine ⟨q + 12, r', _, rfl, by rw [shrunk]; rfl, served, ?_, size⟩
    rw [← holds, read_length, start]
    exact take_read_eq fun i below _ => same i (by omega)
  · rw [if_neg smaller, if_neg (by omega)]
    have low : rtAlign n ≤ 4294967292 := by
      unfold rtAlign
      omega
    rcases owns.move member start spot fits nonzero low bounds.1 with
      ⟨nothing, fails⟩ | ⟨p, r₁, r₂, cs, placed, called, freed, served, front, size⟩
    · rw [nothing, fails]
      rw [place_rtAlign, place_none] at nothing
      exact Or.inl ⟨rfl, rfl, nothing⟩
    · right
      rw [start] at freed served
      rw [placed, called]
      dsimp only
      rw [freed]
      exact ⟨p + 12, r₂, _, rfl, rfl, served, front, size⟩

theorem Owns.rtRealloc_zero (owns : Owns r bs objs) (member : o ∈ objs) :
    ∃ r', r.rtRealloc (some o.addr) 0 = some (none, r') ∧
      Owns r' (freeBlocks (o.addr - 12) bs) (remove o.addr objs) ∧ r'.memSizeAligned = r.memSizeAligned := by
  obtain ⟨r', freed, served, size⟩ := owns.rtFree member
  refine ⟨r', ?_, served, size⟩
  unfold Arena.rtRealloc
  rw [Arena.align32_eq (by decide)]
  have zero : rtAlign 0 = 0 := rfl
  rw [zero, if_neg (Nat.not_lt_zero _), if_pos rfl, freed]
  rfl

theorem Owns.rtCalloc {count : Nat} (owns : Owns r bs objs) (positive : count * size ≠ 0)
    (small : count * size ≤ 4294967292) :
    (Heap.place r.memSizeAligned (count * size) bs = none ∧ r.rtCalloc count size = some (none, r)) ∨
      ∃ q r' cs, Heap.place r.memSizeAligned (count * size) bs = some (q, cs) ∧
        r.rtCalloc count size = some (some (q + 12), r') ∧
        Owns r' cs (⟨q + 12, List.replicate (count * size) 0⟩ :: objs) ∧ r'.memSizeAligned = r.memSizeAligned := by
  have whole : count * size % 4294967296 = count * size := Nat.mod_eq_of_lt (by omega)
  unfold Arena.rtCalloc
  rw [whole]
  rcases owns.rtMalloc positive small with ⟨nothing, fails⟩ | ⟨q, r₁, cs, placed, called, fresh, -, same⟩
  · rw [fails]
    exact Or.inl ⟨nothing, rfl⟩
  · right
    obtain ⟨_, t, begins, spot, fits⟩ := fresh.blocks _ List.mem_cons_self
    obtain rfl := Nat.add_right_cancel begins
    obtain ⟨new, -⟩ := List.nodup_cons.mp fresh.distinct
    rw [read_length] at fits
    dsimp only at new
    have other : ∀ x ∈ objs, x.addr ≠ q + 12 := by
      intro x old equal
      exact new (List.mem_map.mpr ⟨x, old, equal⟩)
    have outside : ∀ x, x < q + 12 ∨ q + t ≤ x → rtMemset r₁.bytes (q + 12) 0 (count * size) x = r₁.bytes x := by
      intro x outside
      rw [rtMemset_eq]
      exact filled_outside (by omega)
    have zeroed : read (rtMemset r₁.bytes (q + 12) 0 (count * size)) (q + 12) (count * size) =
        List.replicate (count * size) 0 := by
      rw [List.eq_replicate_iff]
      refine ⟨read_length _ _ _, ?_⟩
      intro b inside
      obtain ⟨i, below, rfl⟩ := List.mem_map.mp inside
      rw [rtMemset_eq]
      exact filled_inside (by have := List.mem_range.mp below; omega)
    have filled := fresh.rewrite spot fits outside
    have first : remove (q + 12) (⟨q + 12, read r₁.bytes (q + 12) (count * size)⟩ :: objs) = objs :=
      remove_cons_self other
    rw [first, zeroed] at filled
    rw [called]
    exact ⟨_, _, cs, placed, rfl, filled, same⟩

/-! ### Runs -/

structure HeapState where
  arena : Arena
  objs : List Object
  answer : Option Nat

/-- A call, and the objects as its caller sees them then: a new one has the bytes that are there. -/
def HeapState.next (s : HeapState) : HeapAct → Option HeapState
  | .malloc n =>
    match s.arena.rtMalloc n with
    | none => none
    | some (none, r) => some ⟨r, s.objs, none⟩
    | some (some p, r) => some ⟨r, ⟨p, read r.bytes p n⟩ :: s.objs, some p⟩
  | .calloc count size =>
    match s.arena.rtCalloc count size with
    | none => none
    | some (none, r) => some ⟨r, s.objs, none⟩
    | some (some p, r) => some ⟨r, ⟨p, read r.bytes p (count * size)⟩ :: s.objs, some p⟩
  | .realloc p n =>
    match s.arena.rtRealloc (some p) n with
    | none => none
    | some (none, r) => some ⟨r, if n = 0 then remove p s.objs else s.objs, none⟩
    | some (some p', r) => some ⟨r, ⟨p', read r.bytes p' n⟩ :: remove p s.objs, some p'⟩
  | .free p => (s.arena.rtFree (some p)).map fun r => ⟨r, remove p s.objs, none⟩
  | .store p i v =>
    match s.objs.find? fun o => o.addr == p with
    | none => none
    | some o =>
      some ⟨{ s.arena with bytes := Function.update s.arena.bytes (p + i) v },
        ⟨p, o.data.set i v⟩ :: remove p s.objs, none⟩

def heapSystem (raw : Nat → UInt8) (size : Nat) : System HeapState HeapAct where
  start := ⟨Arena.rtSystemHeapInit raw size, [], none⟩
  next := HeapState.next

/-- Pointers that were handed out and not given back, stores into them, and sizes that `RT_ALIGN` can align. -/
def Calls (s : HeapState) : HeapAct → Prop
  | .malloc n => n ≤ 4294967292
  | .calloc count size => count * size ≤ 4294967292
  | .realloc p n => (∃ o ∈ s.objs, o.addr = p) ∧ n ≤ 4294967292
  | .free p => ∃ o ∈ s.objs, o.addr = p
  | .store p i _ => ∃ o ∈ s.objs, o.addr = p ∧ i < o.data.length

instance (s : HeapState) : DecidablePred (Calls s)
  | .malloc n => inferInstanceAs (Decidable (n ≤ 4294967292))
  | .calloc count size => inferInstanceAs (Decidable (count * size ≤ 4294967292))
  | .realloc p n => inferInstanceAs (Decidable ((∃ o ∈ s.objs, o.addr = p) ∧ n ≤ 4294967292))
  | .free p => inferInstanceAs (Decidable (∃ o ∈ s.objs, o.addr = p))
  | .store p i _ => inferInstanceAs (Decidable (∃ o ∈ s.objs, o.addr = p ∧ i < o.data.length))

theorem read_update (m : Nat → UInt8) (a n i : Nat) (v : UInt8) :
    read (Function.update m (a + i) v) a n = (read m a n).set i v := by
  apply List.ext_getElem
  · simp
  · intro j low high
    simp only [read, List.getElem_map, List.getElem_range, List.getElem_set, Function.update_apply]
    by_cases here : i = j
    · rw [if_pos here, if_pos (by omega)]
    · rw [if_neg here, if_neg (by omega)]

theorem find_addr (distinct : (objs.map Object.addr).Nodup) (member : o ∈ objs) :
    objs.find? (fun x => x.addr == o.addr) = some o := by
  induction objs with
  | nil => cases member
  | cons x objs ih =>
    rw [List.map_cons, List.nodup_cons] at distinct
    rw [List.find?_cons]
    rcases List.mem_cons.mp member with rfl | later
    · simp
    · have differs : x.addr ≠ o.addr := by
        intro equal
        exact distinct.1 (List.mem_map.mpr ⟨o, later, equal.symm⟩)
      rw [beq_false_of_ne differs]
      exact ih distinct.2 later

theorem Owns.apart_cons (owns : Owns r bs (o :: objs)) : ∀ x ∈ objs, o.Apart x := by
  intro x member
  refine owns.apart List.mem_cons_self (List.mem_cons_of_mem _ member) ?_
  intro equal
  exact (List.nodup_cons.mp owns.distinct).1 (List.mem_map.mpr ⟨x, member, equal.symm⟩)

/-- Every call that is allowed goes through, serves its caller, and makes of the blocks what it should. -/
theorem Owns.next {s : HeapState} {act : HeapAct} (owns : Owns s.arena bs s.objs) (calls : Calls s act) :
    ∃ t, s.next act = some t ∧ t.answer = (afterCall s.arena.memSizeAligned bs act).1 ∧
      Owns t.arena (afterCall s.arena.memSizeAligned bs act).2 t.objs ∧
      t.arena.memSizeAligned = s.arena.memSizeAligned ∧
      Serves bs s.arena.memSizeAligned s.objs act t.answer t.objs := by
  cases act with
  | malloc n =>
    unfold HeapState.next afterCall
    dsimp only
    by_cases zero : n = 0
    · rw [Arena.rtMalloc, if_pos zero, if_pos zero]
      exact ⟨_, rfl, rfl, owns, rfl, .none_malloc n (Or.inl zero)⟩
    rw [if_neg zero, mallocBlocks]
    rcases owns.rtMalloc zero calls with ⟨nothing, fails⟩ | ⟨p, r, cs, placed, called, served, -, same⟩
    · rw [fails, nothing]
      exact ⟨_, rfl, rfl, owns, rfl, .none_malloc n (Or.inr (place_none.mp nothing))⟩
    · rw [called, placed]
      exact ⟨_, rfl, rfl, served, same, .malloc n ⟨p + 12, _⟩ zero (read_length _ _ _) served.apart_cons⟩
  | calloc count k =>
    unfold HeapState.next afterCall
    dsimp only
    by_cases zero : count * k = 0
    · have fails : s.arena.rtCalloc count k = some (none, s.arena) := by
        rw [Arena.rtCalloc, zero, Arena.rtMalloc, if_pos rfl]
      rw [fails, if_pos zero]
      exact ⟨_, rfl, rfl, owns, rfl, .none_calloc count k (Or.inl zero)⟩
    rw [if_neg zero, mallocBlocks]
    rcases owns.rtCalloc zero calls with ⟨nothing, fails⟩ | ⟨q, r, cs, placed, called, served, same⟩
    · rw [fails, nothing]
      exact ⟨_, rfl, rfl, owns, rfl, .none_calloc count k (Or.inr (place_none.mp nothing))⟩
    · have holds := served.holds _ List.mem_cons_self
      rw [List.length_replicate] at holds
      rw [called, placed]
      dsimp only at holds ⊢
      rw [holds]
      exact ⟨_, rfl, rfl, served, same, .calloc count k (q + 12) zero served.apart_cons⟩
  | realloc p n =>
    obtain ⟨⟨o, member, rfl⟩, small⟩ := calls
    unfold HeapState.next
    dsimp only
    by_cases zero : n = 0
    · subst zero
      obtain ⟨r, called, served, same⟩ := owns.rtRealloc_zero member
      rw [called]
      dsimp only
      rw [if_pos rfl]
      exact ⟨_, rfl, rfl, served, same, .realloc_zero o.addr⟩
    have after : afterCall s.arena.memSizeAligned bs (.realloc o.addr n) =
        reallocBlocks s.arena.memSizeAligned o.addr n bs := if_neg zero
    rw [after]
    rcases owns.rtRealloc member zero small with
      ⟨kept, fails, nothing⟩ | ⟨p, r, cs, replaced, called, served, front, same⟩
    · rw [fails, kept]
      dsimp only
      rw [if_neg zero]
      exact ⟨_, rfl, rfl, owns, rfl, .none_realloc o.addr n zero nothing⟩
    · rw [called, replaced]
      exact ⟨_, rfl, rfl, served, same,
        .realloc n o ⟨p, _⟩ member zero (read_length _ _ _) front served.apart_cons⟩
  | free p =>
    obtain ⟨o, member, rfl⟩ := calls
    obtain ⟨r, called, served, same⟩ := owns.rtFree member
    unfold HeapState.next
    dsimp only
    rw [called]
    exact ⟨_, rfl, rfl, served, same, .free o.addr⟩
  | store p i v =>
    obtain ⟨o, member, rfl, inside⟩ := calls
    obtain ⟨q, t, start, spot, fits⟩ := owns.blocks o member
    unfold HeapState.next
    dsimp only
    rw [find_addr owns.distinct member]
    have outside : ∀ x, x < q + 12 ∨ q + t ≤ x →
        Function.update s.arena.bytes (o.addr + i) v x = s.arena.bytes x := by
      intro x outside
      exact Function.update_of_ne (by omega) _ _
    have written := owns.rewrite spot fits outside
    rw [← start, read_update, owns.holds o member] at written
    exact ⟨_, rfl, rfl, written, rfl, .store i v o member⟩

theorem init_owns (raw : Nat → UInt8) (large : 12 ≤ size) (aligned : 4 ∣ size) (bound : size + 12 < 4294967296) :
    Owns (Arena.rtSystemHeapInit raw size) [⟨false, size + 12⟩] [] where
  good := Arena.init_good raw large aligned bound
  blocks := by simp
  owners := by simp [spots]
  distinct := List.nodup_nil
  holds := by simp

theorem reached_owns {raw : Nat → UInt8} {s : HeapState} (large : 12 ≤ size) (aligned : 4 ∣ size)
    (bound : size + 12 < 4294967296) (reached : (heapSystem raw size).Guarded Calls s) :
    ∃ bs, Owns s.arena bs s.objs ∧ s.arena.memSizeAligned = size := by
  refine reached.invariant (P := fun s => ∃ bs, Owns s.arena bs s.objs ∧ s.arena.memSizeAligned = size)
    ⟨_, init_owns raw large aligned bound, rfl⟩ ?_
  rintro s act t ⟨bs, owns, same⟩ calls moved
  obtain ⟨t', moved', -, owns', same', -⟩ := owns.next calls
  obtain rfl : t' = t := Option.some.inj (moved'.symm.trans moved)
  exact ⟨_, owns', same'.trans same⟩

/-- The callers of the allocator are served in every run. -/
theorem objects_served (raw : Nat → UInt8) {size : Nat} {s : HeapState} (large : 12 ≤ size) (aligned : 4 ∣ size)
    (bound : size + 12 < 4294967296) (reached : (heapSystem raw size).Guarded Calls s) :
    (∀ o ∈ s.objs, o.addr % 4 = 0 ∧ 12 ≤ o.addr ∧ o.addr + o.data.length ≤ size + 12 ∧
        read s.arena.bytes o.addr o.data.length = o.data) ∧
      s.objs.Pairwise Object.Apart ∧
      ∃ bs, Owns s.arena bs s.objs ∧
        ∀ act, Calls s act → ∃ t, s.next act = some t ∧ Serves bs size s.objs act t.answer t.objs := by
  obtain ⟨bs, owns, rfl⟩ := reached_owns large aligned bound reached
  refine ⟨?_, ?_, bs, owns, ?_⟩
  · intro o member
    obtain ⟨multiple, low, high⟩ := owns.aligned member
    exact ⟨multiple, low, high, owns.holds o member⟩
  · refine (List.pairwise_map.mp owns.distinct).imp_of_mem ?_
    intro o o' first second differs
    exact owns.apart first second differs
  · intro act calls
    obtain ⟨t, moved, -, -, -, serves⟩ := owns.next calls
    exact ⟨t, moved, serves⟩

/-- Four blocks of which the first and the third are given back again. -/
def fragmenting : List HeapAct :=
  [.malloc 12, .malloc 12, .malloc 40, .malloc 12, .store 36 0 7, .free 12, .free 60]

def fragmented : Option HeapState :=
  (heapSystem (fun _ => 0) 200).run fragmenting (heapSystem (fun _ => 0) 200).start

theorem fragmented_reached :
    ∃ s, fragmented = some s ∧ (heapSystem (fun _ => 0) 200).Guarded Calls s := by
  have ran : fragmented.isSome = true := by decide +kernel
  obtain ⟨s, ran⟩ := Option.isSome_iff_exists.mp ran
  exact ⟨s, ran, System.guarded_of_run .start (by decide +kernel) ran⟩

/-- With two objects and two holes between them, forty bytes are asked for. -/
theorem objects_served_fragmented :
    ∃ s bs t, fragmented = some s ∧ s.objs.Pairwise Object.Apart ∧ s.next (.malloc 40) = some t ∧
      Serves bs 200 s.objs (.malloc 40) t.answer t.objs := by
  obtain ⟨s, ran, reached⟩ := fragmented_reached
  obtain ⟨-, apart, bs, -, serves⟩ := objects_served (fun _ => 0) (by decide) (by decide) (by decide) reached
  obtain ⟨t, moved, served⟩ := serves (.malloc 40) (show 40 ≤ 4294967292 by decide)
  exact ⟨s, bs, t, ran, apart, moved, served⟩

end BleSpeaker.Kernel
