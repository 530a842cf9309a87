import BleSpeaker.Kernel.Headers

/-!
# The allocator on its memory

`rt_malloc`, `rt_free`, `rt_realloc` and `rt_calloc` of `mem.c` with everything they touch: the headers in
the same bytes as the data, the magic, and the two counters that `rt_memory_info` shows. The asserts are on
in this configuration: a call that one of them stops, or that never ends, returns nothing here. Sizes are those
of a 32-bit target, so `RT_ALIGN` can wrap around.

`Good` says which blocks such a memory holds. Each function has one lemma that says what it makes of them
and that no byte outside the headers changes.
-/

namespace BleSpeaker.Kernel
open Lib

structure Arena where
  bytes : Nat → UInt8
  lfree : Nat
  memSizeAligned : Nat
  usedMem : Nat
  maxMem : Nat

/-- `RT_ALIGN` of an `rt_size_t`. -/
def align32 (size : Nat) : Nat := rtAlign size % 4294967296

namespace Arena

def heapEnd (r : Arena) : Nat := r.memSizeAligned + sizeofStructMem

/-- The headers as they are read. -/
def view (r : Arena) : Heap := ⟨readHeader r.bytes, r.lfree, r.memSizeAligned⟩

def initWrites (heapEnd : Nat) : List Write :=
  [⟨0, .magic, heapMagic⟩, ⟨0, .next, heapEnd⟩, ⟨0, .prev, 0⟩, ⟨0, .used, 0⟩,
    ⟨heapEnd, .magic, heapMagic⟩, ⟨heapEnd, .used, 1⟩, ⟨heapEnd, .next, heapEnd⟩, ⟨heapEnd, .prev, heapEnd⟩]

def rtSystemHeapInit (raw : Nat → UInt8) (memSizeAligned : Nat) : Arena where
  bytes := pokeAll raw (initWrites (memSizeAligned + sizeofStructMem))
  lfree := 0
  memSizeAligned := memSizeAligned
  usedMem := 0
  maxMem := 0

/-- A new header at `ptr2`, between `ptr` and its `next`. -/
def splitWrites (r : Arena) (ptr ptr2 : Nat) (next : Nat) (used : List Write) : List Write :=
  [⟨ptr2, .magic, heapMagic⟩, ⟨ptr2, .used, 0⟩, ⟨ptr2, .next, next⟩, ⟨ptr2, .prev, ptr⟩, ⟨ptr, .next, ptr2⟩] ++ used ++
    if next ≠ r.memSizeAligned + sizeofStructMem then [⟨next, .prev, ptr2⟩] else []

def splits (r : Arena) (ptr size : Nat) : Bool :=
  sub32 (readHeader r.bytes ptr).next (ptr + sizeofStructMem) ≥ size + sizeofStructMem + minSizeAligned

def occupyWrites (r : Arena) (ptr size : Nat) : List Write :=
  if r.splits ptr size then
    r.splitWrites ptr (ptr + sizeofStructMem + size) (readHeader r.bytes ptr).next [⟨ptr, .used, 1⟩] ++
      [⟨ptr, .magic, heapMagic⟩]
  else [⟨ptr, .used, 1⟩, ⟨ptr, .magic, heapMagic⟩]

def hand (r : Arena) (ptr size : Nat) : Arena :=
  let bytes := pokeAll r.bytes (r.occupyWrites ptr size)
  let usedMem := r.usedMem +
    if r.splits ptr size then size + sizeofStructMem else (readHeader r.bytes ptr).next - ptr
  { bytes
    lfree :=
      if ptr = r.lfree then Heap.nextFree (readHeader bytes) r.heapEnd Heap.longestWalk r.lfree else r.lfree
    memSizeAligned := r.memSizeAligned
    usedMem
    maxMem := if r.maxMem < usedMem then usedMem else r.maxMem }

/-- The asserts of `rt_malloc` about the block that it found. -/
def handOut (r : Arena) (ptr size : Nat) : Option (Option Nat × Arena) :=
  let handed := r.hand ptr size
  if (ptr = r.lfree → handed.lfree = r.heapEnd ∨ (readHeader handed.bytes handed.lfree).used = false) ∧
      ptr + sizeofStructMem + size ≤ r.heapEnd ∧ (ptr + sizeofStructMem) % 4 = 0 ∧ ptr % 4 = 0 then
    some (some (ptr + sizeofStructMem), handed)
  else none

def rtMalloc (r : Arena) (size : Nat) : Option (Option Nat × Arena) :=
  if size = 0 then some (none, r)
  else
    let size := align32 size
    if size > r.memSizeAligned then some (none, r)
    else
      let size := if size < minSizeAligned then minSizeAligned else size
      match r.view.search size Heap.longestWalk r.lfree with
      | none => none
      | some none => some (none, r)
      | some (some ptr) => r.handOut ptr size

def plugForward (r : Arena) (mem : Nat) : Arena :=
  let nmem := (readHeader r.bytes mem).next
  if mem ≠ nmem ∧ (readHeader r.bytes nmem).used = false ∧ nmem ≠ r.heapEnd then
    let after := (readHeader r.bytes nmem).next
    { r with
      lfree := if r.lfree = nmem then mem else r.lfree
      bytes := pokeAll r.bytes [⟨mem, .next, after⟩, ⟨after, .prev, mem⟩] }
  else r

def plugBackward (r : Arena) (mem : Nat) : Arena :=
  let pmem := (readHeader r.bytes mem).prev
  if pmem ≠ mem ∧ (readHeader r.bytes pmem).used = false then
    let after := (readHeader r.bytes mem).next
    { r with
      lfree := if r.lfree = mem then pmem else r.lfree
      bytes := pokeAll r.bytes [⟨pmem, .next, after⟩, ⟨after, .prev, pmem⟩] }
  else r

/-- `mem` counts from `heap_ptr`, so the first assert is met. -/
def plugHoles (r : Arena) (mem : Nat) : Option Arena :=
  if mem < r.heapEnd ∧ (readHeader r.bytes mem).used = false then some ((r.plugForward mem).plugBackward mem)
  else none

/-- Pointers count from `heap_ptr`. One into the first header is stopped too: what it would take for a
header lies before the heap. -/
def rtFree (r : Arena) : Option Nat → Option Arena
  | none => some r
  | some rmem =>
    let mem := rmem - sizeofStructMem
    if rmem % 4 = 0 ∧ sizeofStructMem ≤ rmem ∧ rmem < r.heapEnd ∧
        (readHeader r.bytes mem).used = true ∧ readMagic r.bytes mem = heapMagic then
      let freed : Arena :=
        { r with
          bytes := pokeAll r.bytes [⟨mem, .used, 0⟩, ⟨mem, .magic, heapMagic⟩]
          lfree := if mem < r.lfree then mem else r.lfree
          usedMem := sub32 r.usedMem ((readHeader r.bytes mem).next - mem) }
      freed.plugHoles mem
    else none

/-- A block of `size` bytes that is cut down to `newsize`. -/
def shrink (r : Arena) (ptr size newsize : Nat) : Option Arena :=
  let ptr2 := ptr + sizeofStructMem + newsize
  let cut : Arena :=
    { r with
      bytes := pokeAll r.bytes (r.splitWrites ptr ptr2 (readHeader r.bytes ptr).next [])
      lfree := if ptr2 < r.lfree then ptr2 else r.lfree
      usedMem := sub32 r.usedMem (size - newsize) }
  cut.plugHoles ptr2

def rtRealloc (r : Arena) (rmem : Option Nat) (newsize : Nat) : Option (Option Nat × Arena) :=
  let newsize := align32 newsize
  if newsize > r.memSizeAligned then some (none, r)
  else if newsize = 0 then (r.rtFree rmem).map fun r => (none, r)
  else
    match rmem with
    | none => r.rtMalloc newsize
    | some p =>
      if p ≥ r.heapEnd then some (some p, r)
      else if p < sizeofStructMem then none
      else
        let ptr := p - sizeofStructMem
        let size := sub32 (sub32 (readHeader r.bytes ptr).next ptr) sizeofStructMem
        if size = newsize then some (some p, r)
        else if newsize + sizeofStructMem + 12 < size then (r.shrink ptr size newsize).map fun r => (some p, r)
        else
          match r.rtMalloc newsize with
          | none => none
          | some (none, r) => some (none, r)
          | some (some nmem, r) =>
            let copied := { r with bytes := rtMemcpy r.bytes nmem p (if size < newsize then size else newsize) }
            (copied.rtFree (some p)).map fun r => (some nmem, r)

def rtCalloc (r : Arena) (count size : Nat) : Option (Option Nat × Arena) :=
  match r.rtMalloc (count * size % 4294967296) with
  | none => none
  | some (none, r) => some (none, r)
  | some (some p, r) => some (some p, { r with bytes := rtMemset r.bytes p 0 (count * size % 4294967296) })

/-! ### Which blocks a memory holds -/

structure Good (r : Arena) (bs : List Block) : Prop where
  layout : r.view.Layout bs
  magic : ∀ a, Boundary a 0 bs → readMagic r.bytes a = heapMagic
  used_eq : r.usedMem = usedSize bs
  max_bounds : r.usedMem ≤ r.maxMem ∧ r.maxMem ≤ total bs

/-- No byte outside the headers of `bs` is different. -/
def Frame (bs : List Block) (r r' : Arena) : Prop :=
  ∀ x, (∀ b, Boundary b 0 bs → x < b ∨ b + 12 ≤ x) → r'.bytes x = r.bytes x

variable {r r' : Arena} {h : Heap} {bs cs xs ys : List Block} {b : Block} {ws : List Write}
  {p q s n a size : Nat}

theorem stores_boundary (sized : Heap.Sized bs) (within : ∀ w ∈ ws, Boundary w.header 0 bs ∧ w.Sound) :
    Stores (Boundary · 0 bs) ws :=
  ⟨fun _ _ first second => Heap.boundary_clear sized first second, within⟩

theorem init_stores (positive : 4 ≤ size) (aligned : 4 ∣ size) (bound : size + 12 < 4294967296) :
    Stores (Boundary · 0 [⟨false, size + 12⟩]) (initWrites (size + 12)) := by
  apply stores_boundary
  · intro b member
    obtain rfl := List.mem_singleton.mp member
    dsimp only
    omega
  · simp [initWrites, Boundary, Write.Sound, bound]

theorem init_headers (raw : Nat → UInt8) (positive : 4 ≤ size) (aligned : 4 ∣ size) (bound : size + 12 < 4294967296)
    (boundary : Boundary a 0 [⟨false, size + 12⟩]) :
    readHeader (rtSystemHeapInit raw size).bytes a = (Heap.rtSystemHeapInit (readHeader raw) size).mem a := by
  refine (readHeader_pokeAll (init_stores positive aligned bound) boundary).trans ?_
  simp only [initWrites, assignAll, List.foldl, assign, Function.update_self, Function.update_idem]
  rfl

theorem init_good (raw : Nat → UInt8) (large : 12 ≤ size) (aligned : 4 ∣ size) (bound : size + 12 < 4294967296) :
    Good (rtSystemHeapInit raw size) [⟨false, size + 12⟩] := by
  refine ⟨?_, ?_, rfl, Nat.le_refl 0, Nat.zero_le _⟩
  · exact (Heap.init_layout (readHeader raw) large aligned bound).congr
      (fun a boundary => init_headers raw (by omega) aligned bound boundary) rfl rfl
  · intro a boundary
    refine readMagic_pokeAll (init_stores (by omega) aligned bound) boundary (Or.inr ?_)
    rcases boundary with rfl | rfl
    · exact ⟨_, List.mem_cons_self, rfl, rfl⟩
    · exact ⟨⟨size + 12, .magic, heapMagic⟩, by simp [initWrites, Heap.sizeofStructMem_eq], by simp, rfl⟩

/-- On a heap of 4 or 8 bytes no request of at most twelve returns. -/
theorem init_endless (raw : Nat → UInt8) (positive : 4 ≤ size) (tiny : size < 12) (aligned : 4 ∣ size)
    (some : n ≠ 0) (fits : rtAlign n ≤ size) : (rtSystemHeapInit raw size).rtMalloc n = none := by
  have headers := fun a => init_headers raw (a := a) positive aligned (by omega)
  have first := headers 0 (Or.inl rfl)
  have last := headers (size + 12) (by simp [Boundary])
  change (rtSystemHeapInit raw size).view.mem 0 = _ at first
  change (rtSystemHeapInit raw size).view.mem (rtSystemHeapInit raw size).view.heapEnd =
    (Heap.rtSystemHeapInit (readHeader raw) size).mem (Heap.rtSystemHeapInit (readHeader raw) size).heapEnd at last
  have walk := Heap.search_endless (h := (rtSystemHeapInit raw size).view) positive tiny
    (by rw [first, Heap.rtSystemHeapInit_first]; rfl) (by rw [last, Heap.rtSystemHeapInit_last])
    (by rw [last, Heap.rtSystemHeapInit_last]; rfl) Heap.longestWalk
  have small : align32 n = rtAlign n := by
    have bound := Nat.lt_of_le_of_lt fits tiny
    exact Nat.mod_eq_of_lt (by omega)
  rw [rtMalloc, if_neg some, small]
  have room : ¬ rtAlign n > (rtSystemHeapInit raw size).memSizeAligned := Nat.not_lt.mpr fits
  rw [if_neg room]
  dsimp only
  rw [if_pos (by rw [Heap.minSizeAligned_eq]; omega), Heap.minSizeAligned_eq]
  change (match (rtSystemHeapInit raw size).view.search 12 Heap.longestWalk 0 with
    | none => none
    | Option.some none => _
    | Option.some (Option.some ptr) => _) = none
  rw [walk]

/-- Stores into the data of the blocks. -/
theorem Good.data {bytes : Nat → UInt8} (good : Good r bs)
    (frame : ∀ x b, Boundary b 0 bs → b ≤ x → x < b + 12 → bytes x = r.bytes x) : Good { r with bytes } bs := by
  refine ⟨?_, ?_, good.used_eq, good.max_bounds⟩
  · refine good.layout.congr (fun a boundary => ?_) rfl rfl
    exact readHeader_congr fun x low high => frame x a boundary low high
  · intro a boundary
    refine (half_congr ?_ ?_).trans (good.magic a boundary)
    · exact frame _ a boundary (by omega) (by omega)
    · exact frame _ a boundary (by omega) (by omega)

/-! ### Handing a block out -/

theorem assignAll_occupyWrites (r : Arena) (ptr size : Nat) :
    assignAll (readHeader r.bytes) (r.occupyWrites ptr size) = r.view.occupy ptr size := by
  unfold occupyWrites splits splitWrites Heap.occupy view Heap.heapEnd
  dsimp only
  have kept : ∀ v, Function.update (readHeader r.bytes) (ptr + sizeofStructMem + size) v ptr =
      readHeader r.bytes ptr := by
    intro v
    apply Function.update_of_ne
    rw [Heap.sizeofStructMem_eq]
    omega
  by_cases split : sub32 (readHeader r.bytes ptr).next (ptr + sizeofStructMem) ≥
      size + sizeofStructMem + minSizeAligned
  · rw [if_pos (decide_eq_true split), if_pos split]
    by_cases last : (readHeader r.bytes ptr).next ≠ r.memSizeAligned + sizeofStructMem
    · rw [if_pos last, if_pos last]
      simp only [List.cons_append, List.nil_append, assignAll, List.foldl, assign, Function.update_self,
        Function.update_idem, kept]
      rfl
    · rw [if_neg last, if_neg last]
      simp only [List.cons_append, List.nil_append, assignAll, List.foldl, assign, Function.update_self,
        Function.update_idem, kept]
      rfl
  · rw [if_neg (by simpa using split), if_neg split]
    rfl

/-- Where the writes of a split go, and that they fit the fields. -/
theorem splitWrites_within {used : List Write} {t : Nat} (linked : h.Linked bs)
    (first : Boundary p 0 bs) (second : Boundary q 0 bs) (next : Boundary t 0 bs)
    (flags : ∀ w ∈ used, Boundary w.header 0 bs ∧ w.Sound) :
    ∀ w ∈ r.splitWrites p q t used, Boundary w.header 0 bs ∧ w.Sound := by
  have small : ∀ a, Boundary a 0 bs → a < 4294967296 := by
    intro a boundary
    have bounds := boundary.bounds.2
    have bound := linked.bound
    rw [linked.total_eq] at bounds
    omega
  intro w member
  unfold splitWrites at member
  rw [List.mem_append, List.mem_append] at member
  rcases member with (member | member) | member
  · simp only [List.mem_cons, List.not_mem_nil, or_false] at member
    rcases member with rfl | rfl | rfl | rfl | rfl
    · exact ⟨second, rfl⟩
    · exact ⟨second, Nat.succ_pos 65535⟩
    · exact ⟨second, small _ next⟩
    · exact ⟨second, small _ first⟩
    · exact ⟨first, small _ second⟩
  · exact flags w member
  · split at member
    · obtain rfl := List.mem_singleton.mp member
      exact ⟨next, small _ second⟩
    · cases member

theorem Good.header (good : Good r (xs ++ b :: ys)) :
    (readHeader r.bytes (total xs)).used = b.used ∧ (readHeader r.bytes (total xs)).next = total xs + b.size :=
  Heap.chain_at good.layout.chain (mem_spots.mpr ⟨xs, ys, rfl, (Nat.zero_add _).symm⟩)

theorem Good.splits_iff (good : Good r (xs ++ b :: ys)) :
    r.splits (total xs) size = true ↔ size + 36 ≤ b.size := by
  have sized := good.layout.sized
  rw [Heap.sized_append, Heap.sized_cons] at sized
  unfold splits
  rw [decide_eq_true_iff, good.header.2, Heap.sizeofStructMem_eq, Heap.minSizeAligned_eq, Heap.sub32_eq (by omega)]
  omega

theorem boundary_carve (boundary : Boundary a 0 (xs ++ Heap.carve size b ++ ys)) :
    Boundary a 0 (xs ++ b :: ys) ∨ (size + 36 ≤ b.size ∧ a = total xs + 12 + size) := by
  unfold Heap.carve at boundary
  split at boundary
  · rename_i split
    simp only [List.append_assoc, boundary_append, List.cons_append, List.nil_append, Boundary, Nat.zero_add,
      show total xs + (size + 12) + (b.size - (size + 12)) = total xs + b.size by omega] at boundary ⊢
    rcases boundary with before | here | fresh | behind
    · exact Or.inl (Or.inl before)
    · exact Or.inl (Or.inr (Or.inl here))
    · exact Or.inr ⟨split, by omega⟩
    · exact Or.inl (Or.inr (Or.inr behind))
  · left
    simpa only [List.append_assoc, boundary_append, List.cons_append, List.nil_append, Boundary] using boundary

theorem Good.hand (good : Good r (xs ++ b :: ys)) (hole : b.used = false) (room : size + 12 ≤ b.size)
    (least : 4 ≤ size) (aligned : 4 ∣ size) :
    Good (r.hand (total xs) size) (xs ++ Heap.carve size b ++ ys) ∧
      Frame (xs ++ Heap.carve size b ++ ys) r (r.hand (total xs) size) := by
  have layout := Heap.hand_layout good.layout hole room least aligned
  have next := good.header.2
  have splits : r.splits (total xs) size = true ↔ size + 36 ≤ b.size := good.splits_iff
  have first : Boundary (total xs) 0 (xs ++ Heap.carve size b ++ ys) := by
    rw [List.append_assoc]
    exact Heap.boundary_between _ _
  have behind : Boundary (total xs + b.size) 0 (xs ++ Heap.carve size b ++ ys) := by
    have boundary := Heap.boundary_between (xs ++ Heap.carve size b) ys
    rw [total_append, Heap.total_carve] at boundary
    exact boundary
  have stores : Stores (Boundary · 0 (xs ++ Heap.carve size b ++ ys)) (r.occupyWrites (total xs) size) := by
    apply stores_boundary layout.sized
    unfold occupyWrites
    rw [next]
    split
    · rename_i split
      have second : Boundary (total xs + sizeofStructMem + size) 0 (xs ++ Heap.carve size b ++ ys) := by
        rw [Heap.carve, if_pos (splits.mp split), Heap.sizeofStructMem_eq, List.append_assoc, boundary_append]
        right
        right
        left
        dsimp only
        omega
      intro w member
      rcases List.mem_append.mp member with member | member
      · apply splitWrites_within layout.toLinked first second behind _ w member
        intro v flag
        obtain rfl := List.mem_singleton.mp flag
        exact ⟨first, by show 1 < 65536; decide⟩
      · obtain rfl := List.mem_singleton.mp member
        exact ⟨first, rfl⟩
    · intro w member
      simp only [List.mem_cons, List.not_mem_nil, or_false] at member
      rcases member with rfl | rfl
      · exact ⟨first, by show 1 < 65536; decide⟩
      · exact ⟨first, rfl⟩
  have same : ∀ a, Boundary a 0 (xs ++ Heap.carve size b ++ ys) →
      readHeader (pokeAll r.bytes (r.occupyWrites (total xs) size)) a = r.view.occupy (total xs) size a := by
    intro a boundary
    rw [readHeader_pokeAll stores boundary, assignAll_occupyWrites]
  have counted : (r.hand (total xs) size).usedMem = usedSize (xs ++ Heap.carve size b ++ ys) := by
    show r.usedMem + (if r.splits (total xs) size then _ else _) = _
    rw [good.used_eq, next, Heap.carve]
    simp only [splits]
    split
    · simp [usedSize, hole, Heap.sizeofStructMem_eq]
      omega
    · simp [usedSize, hole]
      omega
  refine ⟨⟨?_, ?_, counted, ?_⟩, fun x outside => pokeAll_outside stores outside⟩
  · refine layout.congr same ?_ rfl
    show (if total xs = r.lfree then _ else _) = (if total xs = r.lfree then _ else _)
    split
    · rename_i lowest
      have start : r.view.lfree = total xs := lowest.symm
      rw [start, ← lowest]
      exact Heap.nextFree_congr same layout.chain layout.total_eq first
    · rfl
  · intro a boundary
    refine readMagic_pokeAll stores boundary ?_
    rcases boundary_carve boundary with before | ⟨split, fresh⟩
    · exact Or.inl (good.magic a before)
    · right
      refine ⟨⟨total xs + sizeofStructMem + size, .magic, heapMagic⟩, ?_, fresh, rfl⟩
      rw [occupyWrites, if_pos (splits.mpr split)]
      simp [splitWrites]
  · have bounds := good.max_bounds
    have most := usedSize_le (xs ++ Heap.carve size b ++ ys)
    rw [← counted] at most
    have width : total (xs ++ Heap.carve size b ++ ys) = total (xs ++ b :: ys) := by
      rw [total_append, total_append, Heap.total_carve, total_append, total, Nat.add_assoc]
    have peak : (r.hand (total xs) size).maxMem =
        if r.maxMem < (r.hand (total xs) size).usedMem then (r.hand (total xs) size).usedMem else r.maxMem := rfl
    rw [peak]
    split <;> omega

theorem align32_eq (small : n ≤ 4294967292) : align32 n = rtAlign n := by
  unfold align32 rtAlign
  omega

/-- The lowest free block is one, or there is none. -/
theorem Good.lfree_rests (good : Good r bs) :
    r.lfree = r.heapEnd ∨ (readHeader r.bytes r.lfree).used = false := by
  have low : r.lfree = lowest 0 bs := good.layout.lfree_eq
  obtain ⟨xs, ys, rfl, used, start, hole⟩ := exists_lowest 0 bs
  cases ys with
  | nil =>
    left
    rw [low, start, Nat.zero_add]
    have ends : _ = r.heapEnd := good.layout.total_eq
    rw [← ends]
    simp
  | cons b ys =>
    right
    rw [low, start, Nat.zero_add, good.header.1]
    exact hole b rfl

theorem Good.handOut (good : Good r (xs ++ b :: ys)) (room : size + 12 ≤ b.size)
    (handed : Good (r.hand (total xs) size) cs) :
    r.handOut (total xs) size = some (some (total xs + 12), r.hand (total xs) size) := by
  have ends : _ = r.heapEnd := good.layout.total_eq
  rw [total_append, total] at ends
  have aligned := (Heap.sized_append.mp good.layout.sized).1.four_dvd_total
  refine if_pos ⟨fun _ => handed.lfree_rests, ?_⟩
  rw [Heap.sizeofStructMem_eq]
  omega

/-- `rt_malloc` is first fit. -/
theorem Good.rtMalloc (good : Good r bs) (positive : n ≠ 0) (small : n ≤ 4294967292) :
    (Heap.place r.memSizeAligned n bs = none ∧ r.rtMalloc n = some (none, r)) ∨
      ∃ p cs, Heap.place r.memSizeAligned n bs = some (p, cs) ∧
        r.rtMalloc n = some (some (p + 12), r.hand p (Heap.request n)) ∧
        Good (r.hand p (Heap.request n)) cs ∧ Frame cs r (r.hand p (Heap.request n)) := by
  have large := good.layout.large
  have ends := good.layout.total_eq
  have bounds := Heap.request_bounds n
  change 12 ≤ r.memSizeAligned at large
  change total bs = r.memSizeAligned + 12 at ends
  by_cases fitting : rtAlign n ≤ r.memSizeAligned
  · have inside : Heap.request n ≤ r.memSizeAligned := by
      unfold Heap.request
      rw [Heap.minSizeAligned_eq]
      split <;> omega
    have searched := good.layout.search_place inside
    have called : r.rtMalloc n =
        match r.view.search (Heap.request n) Heap.longestWalk r.lfree with
        | none => none
        | some none => some (none, r)
        | some (some ptr) => r.handOut ptr (Heap.request n) := by
      rw [Arena.rtMalloc, if_neg positive, align32_eq small]
      exact if_neg (by omega)
    change r.view.search (Heap.request n) Heap.longestWalk r.lfree =
      some ((Heap.place r.memSizeAligned n bs).map Prod.fst) at searched
    rw [searched] at called
    cases found : Heap.place r.memSizeAligned n bs with
    | none =>
      rw [found] at called
      exact Or.inl ⟨rfl, called⟩
    | some x =>
      obtain ⟨p, cs⟩ := x
      rw [found] at called
      obtain ⟨xs, b, ys, rfl, rfl, rfl, fit, -⟩ := firstFit_some found
      obtain ⟨hole, room, -⟩ := Heap.fits_iff.mp fit
      rw [Nat.zero_add] at called ⊢
      obtain ⟨handed, frame⟩ := good.hand hole room (by omega) bounds.2.2
      exact Or.inr ⟨_, _, rfl, called.trans (good.handOut room handed), handed, frame⟩
  · left
    constructor
    · rw [Heap.place, firstFit_none]
      rintro ⟨q, b⟩ member
      have bound := (spots_bounds member).2
      have aligned : rtAlign n ≤ Heap.request n := by
        unfold Heap.request
        split <;> omega
      apply Bool.eq_false_iff.mpr
      intro fit
      have room := (Heap.fits_iff.mp fit).2.1
      dsimp only at room
      omega
    · rw [Arena.rtMalloc, if_neg positive, align32_eq small]
      exact if_pos (by omega)

/-! ### Plugging holes -/

/-- The memory shows the headers of a heap, at the boundaries of `bs`. -/
structure Shows (bs : List Block) (r : Arena) (h : Heap) : Prop where
  headers : ∀ a, Boundary a 0 bs → readHeader r.bytes a = h.mem a
  magic : ∀ a, Boundary a 0 bs → readMagic r.bytes a = heapMagic
  lfree_eq : r.lfree = h.lfree
  size_eq : r.memSizeAligned = h.memSizeAligned

theorem Frame.refl (bs : List Block) (r : Arena) : Frame bs r r := fun _ _ => rfl

theorem Frame.trans {r'' : Arena} (first : Frame bs r r') (second : Frame bs r' r'') : Frame bs r r'' :=
  fun x outside => (second x outside).trans (first x outside)

theorem Shows.link (shows : Shows bs r h) (sized : Heap.Sized bs) (first : Boundary p 0 bs)
    (second : Boundary q 0 bs) (bound : total bs < 4294967296) (lfree : Nat) :
    Shows bs { r with lfree, bytes := pokeAll r.bytes [⟨p, .next, q⟩, ⟨q, .prev, p⟩] }
        { h with lfree, mem := h.link p q } ∧
      Frame bs r { r with lfree, bytes := pokeAll r.bytes [⟨p, .next, q⟩, ⟨q, .prev, p⟩] } := by
  have low := first.bounds.2
  have high := second.bounds.2
  have stores : Stores (Boundary · 0 bs) [⟨p, .next, q⟩, ⟨q, .prev, p⟩] := by
    apply stores_boundary sized
    intro w member
    simp only [List.mem_cons, List.not_mem_nil, or_false] at member
    rcases member with rfl | rfl
    · exact ⟨first, by show q < 4294967296; omega⟩
    · exact ⟨second, by show p < 4294967296; omega⟩
  refine ⟨⟨?_, ?_, rfl, shows.size_eq⟩, fun x outside => pokeAll_outside stores outside⟩
  · intro a boundary
    exact (readHeader_pokeAll stores boundary).trans (assignAll_congr (shows.headers a boundary))
  · intro a boundary
    exact readMagic_pokeAll stores boundary (Or.inl (shows.magic a boundary))

theorem Shows.plugForward (shows : Shows bs r h) (linked : h.Linked cs) (sized : Heap.Sized bs)
    (coarser : ∀ a, Boundary a 0 cs → Boundary a 0 bs) (bound : total bs < 4294967296)
    (here : Boundary p 0 cs) (inside : p ≠ total cs) :
    Shows bs (r.plugForward p) (h.plugForward p) ∧ Frame bs r (r.plugForward p) := by
  have next : Boundary (h.mem p).next 0 cs := Heap.boundary_next linked.chain here (by omega)
  have last : r.heapEnd = h.heapEnd := by rw [heapEnd, shows.size_eq, Heap.heapEnd]
  unfold Arena.plugForward Heap.plugForward
  rw [shows.headers p (coarser p here)]
  dsimp only
  rw [shows.headers _ (coarser _ next), shows.lfree_eq, last]
  split
  · rename_i plugs
    have ends := linked.total_eq
    have after : Boundary (h.mem (h.mem p).next).next 0 cs := Heap.boundary_next linked.chain next (by omega)
    exact shows.link sized (coarser p here) (coarser _ after) bound _
  · exact ⟨shows, Frame.refl bs r⟩

theorem Shows.plugBackward (shows : Shows bs r h) (linked : h.Linked cs) (sized : Heap.Sized bs)
    (coarser : ∀ a, Boundary a 0 cs → Boundary a 0 bs) (bound : total bs < 4294967296)
    (here : Boundary p 0 cs) (inside : p ≠ total cs) :
    Shows bs (r.plugBackward p) (h.plugBackward p) ∧ Frame bs r (r.plugBackward p) := by
  have next : Boundary (h.mem p).next 0 cs := Heap.boundary_next linked.chain here (by omega)
  have previous : Boundary (h.mem p).prev 0 cs := Heap.boundary_prev linked.chain here (by omega)
  unfold Arena.plugBackward Heap.plugBackward
  rw [shows.headers p (coarser p here)]
  dsimp only
  rw [shows.headers _ (coarser _ previous), shows.lfree_eq]
  split
  · exact shows.link sized (coarser _ previous) (coarser _ next) bound _
  · exact ⟨shows, Frame.refl bs r⟩

theorem plug_counters (r : Arena) (mem : Nat) :
    ((r.plugForward mem).plugBackward mem).usedMem = r.usedMem ∧
      ((r.plugForward mem).plugBackward mem).maxMem = r.maxMem ∧
      ((r.plugForward mem).plugBackward mem).memSizeAligned = r.memSizeAligned := by
  have forward : (r.plugForward mem).usedMem = r.usedMem ∧ (r.plugForward mem).maxMem = r.maxMem ∧
      (r.plugForward mem).memSizeAligned = r.memSizeAligned := by
    unfold plugForward
    dsimp only
    split
    · exact ⟨rfl, rfl, rfl⟩
    · exact ⟨rfl, rfl, rfl⟩
  rw [← forward.1, ← forward.2.1, ← forward.2.2, plugBackward]
  split
  · exact ⟨rfl, rfl, rfl⟩
  · exact ⟨rfl, rfl, rfl⟩

/-- A hole that `plug_holes` is called for, in a memory that is tidy otherwise. -/
theorem Shows.plugHoles (shows : Shows (xs ++ ⟨false, s⟩ :: ys) r h) (linked : h.Linked (xs ++ ⟨false, s⟩ :: ys))
    (before : Tidy xs) (after : Tidy ys) (low : h.lfree = lowest 0 (xs ++ ⟨false, s⟩ :: ys))
    (used : r.usedMem = usedSize (xs ++ ⟨false, s⟩ :: ys))
    (most : r.usedMem ≤ r.maxMem ∧ r.maxMem ≤ total (xs ++ ⟨false, s⟩ :: ys)) :
    ∃ r', r.plugHoles (total xs) = some r' ∧ Good r' (merge (xs ++ ⟨false, s⟩ :: ys)) ∧
      Frame (xs ++ ⟨false, s⟩ :: ys) r r' ∧ r'.memSizeAligned = r.memSizeAligned ∧ r'.maxMem = r.maxMem := by
  have sized := linked.sized
  have positive := (Heap.sized_cons.mp (Heap.sized_append.mp sized).2).1.1
  have bound : total (xs ++ ⟨false, s⟩ :: ys) < 4294967296 := by
    rw [linked.total_eq]
    exact linked.bound
  have below : h.lfree ≤ total xs := by
    rw [low]
    exact Heap.lowest_le_hole xs ys s
  obtain ⟨forward, -⟩ := Heap.plugForward_linked linked below
  have layout := Heap.plugHoles_layout linked before after low
  have coarser : ∀ a, Boundary a 0 (xs ++ join ⟨false, s⟩ ys) → Boundary a 0 (xs ++ ⟨false, s⟩ :: ys) := by
    intro a boundary
    rw [boundary_append] at boundary ⊢
    exact boundary.imp_right boundary_join
  have inside : total xs ≠ total (xs ++ ⟨false, s⟩ :: ys) := by
    rw [total_append, total]
    omega
  have inside' : total xs ≠ total (xs ++ join ⟨false, s⟩ ys) := by
    rw [total_append, total_join]
    omega
  obtain ⟨shown, kept⟩ := shows.plugForward linked sized (fun _ => id) bound (Heap.boundary_between xs _) inside
  obtain ⟨shown', kept'⟩ := shown.plugBackward forward sized coarser bound (Heap.boundary_between xs _) inside'
  obtain ⟨sameUsed, sameMax, sameSize⟩ := plug_counters r (total xs)
  have asserts : total xs < r.heapEnd ∧ (readHeader r.bytes (total xs)).used = false := by
    have ends := linked.total_eq
    have last : h.heapEnd = r.heapEnd := by rw [heapEnd, shows.size_eq, Heap.heapEnd]
    rw [total_append, total, last] at ends
    dsimp only at ends positive
    refine ⟨by omega, ?_⟩
    rw [shows.headers _ (Heap.boundary_between xs _)]
    exact (Heap.chain_at linked.chain (mem_spots.mpr ⟨xs, ys, rfl, (Nat.zero_add _).symm⟩)).1
  refine ⟨_, if_pos asserts, ⟨?_, ?_, ?_, ?_⟩, kept.trans kept', sameSize, sameMax⟩
  · exact layout.congr (fun a boundary => shown'.headers a (boundary_merge boundary)) shown'.lfree_eq
      shown'.size_eq
  · exact fun a boundary => shown'.magic a (boundary_merge boundary)
  · rw [sameUsed, used, usedSize_merge]
  · rw [sameUsed, sameMax, total_merge]
    exact most

theorem usedSize_cons_true (s : Nat) (ys : List Block) : usedSize (⟨true, s⟩ :: ys) = s + usedSize ys := rfl

theorem usedSize_cons_false (s : Nat) (ys : List Block) : usedSize (⟨false, s⟩ :: ys) = usedSize ys := by
  simp [usedSize]

/-- `rt_free` of a used block merges the holes around it. -/
theorem Good.rtFree (good : Good r (xs ++ ⟨true, s⟩ :: ys)) :
    ∃ r', r.rtFree (some (total xs + 12)) = some r' ∧ Good r' (merge (xs ++ ⟨false, s⟩ :: ys)) ∧
      Frame (xs ++ ⟨false, s⟩ :: ys) r r' ∧ r'.memSizeAligned = r.memSizeAligned ∧ r'.maxMem = r.maxMem := by
  have layout := good.layout
  have sized := Heap.sized_append.mp layout.sized
  have block := Heap.sized_cons.mp sized.2
  have ends := layout.total_eq
  have last : r.view.heapEnd = r.heapEnd := rfl
  rw [total_append, total, last] at ends
  have bound := layout.bound
  rw [last] at bound
  dsimp only at ends block
  have aligned := sized.1.four_dvd_total
  have tidy := List.isChain_append.mp layout.tidy
  obtain ⟨used, next⟩ := good.header
  have here : Boundary (total xs) 0 (xs ++ ⟨true, s⟩ :: ys) := Heap.boundary_between xs _
  have flags : ∀ a, Boundary a 0 (xs ++ ⟨false, s⟩ :: ys) ↔ Boundary a 0 (xs ++ ⟨true, s⟩ :: ys) := by
    intro a
    simp only [boundary_append, Boundary]
  obtain ⟨linked, low⟩ := Heap.unuse_linked layout
  have stores : Stores (Boundary · 0 (xs ++ ⟨false, s⟩ :: ys))
      [⟨total xs, .used, 0⟩, ⟨total xs, .magic, heapMagic⟩] := by
    apply stores_boundary linked.sized
    intro w member
    simp only [List.mem_cons, List.not_mem_nil, or_false] at member
    rcases member with rfl | rfl
    · exact ⟨(flags _).mpr here, Nat.succ_pos 65535⟩
    · exact ⟨(flags _).mpr here, rfl⟩
  have counted := good.used_eq
  have most := usedSize_le (xs ++ ⟨true, s⟩ :: ys)
  rw [total_append, total] at most
  rw [usedSize_append, usedSize_cons_true] at counted most
  dsimp only at most
  let freed : Arena :=
    { r with
      bytes := pokeAll r.bytes [⟨total xs, .used, 0⟩, ⟨total xs, .magic, heapMagic⟩]
      lfree := if total xs < r.lfree then total xs else r.lfree
      usedMem := sub32 r.usedMem ((readHeader r.bytes (total xs)).next - total xs) }
  have shows : Shows (xs ++ ⟨false, s⟩ :: ys) freed (r.view.unuse (total xs)) := by
    refine ⟨?_, ?_, rfl, rfl⟩
    · intro a boundary
      exact readHeader_pokeAll stores boundary
    · intro a boundary
      exact readMagic_pokeAll stores boundary (Or.inl (good.magic a ((flags a).mp boundary)))
  have counts : freed.usedMem = usedSize (xs ++ ⟨false, s⟩ :: ys) := by
    have span : (readHeader r.bytes (total xs)).next - total xs = s := by
      rw [next]
      exact Nat.add_sub_cancel_left (total xs) s
    show sub32 r.usedMem ((readHeader r.bytes (total xs)).next - total xs) = _
    rw [span, counted, Heap.sub32_eq (by omega), usedSize_append, usedSize_cons_false]
    omega
  have most' : freed.usedMem ≤ freed.maxMem ∧ freed.maxMem ≤ total (xs ++ ⟨false, s⟩ :: ys) := by
    have bounds := good.max_bounds
    rw [total_append, total] at bounds ⊢
    rw [counts, usedSize_append, usedSize_cons_false]
    dsimp only at bounds ⊢
    show _ ≤ r.maxMem ∧ r.maxMem ≤ _
    omega
  obtain ⟨r', plugged, good', kept, size, peak⟩ :=
    shows.plugHoles linked tidy.1 (tidy_cons.mp tidy.2.1).2 low counts most'
  have passes : (total xs + 12) % 4 = 0 ∧ sizeofStructMem ≤ total xs + 12 ∧ total xs + 12 < r.heapEnd ∧
      (readHeader r.bytes (total xs + 12 - sizeofStructMem)).used = true ∧
      readMagic r.bytes (total xs + 12 - sizeofStructMem) = heapMagic := by
    rw [Heap.sizeofStructMem_eq, Nat.add_sub_cancel]
    exact ⟨by omega, by omega, by omega, used, good.magic _ here⟩
  refine ⟨r', (if_pos passes).trans plugged, good', ?_, size, peak⟩
  intro x outside
  exact (kept x outside).trans (pokeAll_outside stores outside)

/-! ### Cutting a block down -/

theorem assignAll_splitWrites {ptr : Nat} (used : (readHeader r.bytes ptr).used = true)
    (split : sub32 (readHeader r.bytes ptr).next (ptr + sizeofStructMem) ≥ size + sizeofStructMem + minSizeAligned) :
    assignAll (readHeader r.bytes)
        (r.splitWrites ptr (ptr + sizeofStructMem + size) (readHeader r.bytes ptr).next []) =
      r.view.occupy ptr size := by
  have kept : ∀ v, Function.update (readHeader r.bytes) (ptr + sizeofStructMem + size) v ptr =
      readHeader r.bytes ptr := by
    intro v
    apply Function.update_of_ne
    rw [Heap.sizeofStructMem_eq]
    omega
  unfold splitWrites Heap.occupy view Heap.heapEnd
  dsimp only
  rw [if_pos split]
  by_cases last : (readHeader r.bytes ptr).next ≠ r.memSizeAligned + sizeofStructMem
  · rw [if_pos last, if_pos last]
    simp only [List.cons_append, List.nil_append, assignAll, List.foldl, assign, Function.update_self,
      Function.update_idem, kept, used]
    rfl
  · rw [if_neg last, if_neg last]
    simp only [List.cons_append, List.nil_append, assignAll, List.foldl, assign, Function.update_self,
      Function.update_idem, kept, used]
    rfl

/-- The headers after the cut, with the new hole at `ptr2`. -/
def cutView (r : Arena) (ptr ptr2 n : Nat) : Heap :=
  { r.view with
    mem := r.view.occupy ptr n
    lfree := if ptr2 < r.lfree then ptr2 else r.lfree }

theorem cutView_linked (good : Good r (xs ++ ⟨true, s⟩ :: ys)) (room : n + 36 < s) (least : 4 ≤ n)
    (aligned : 4 ∣ n) :
    (r.cutView (total xs) (total xs + 12 + n) n).Linked
        ((xs ++ [⟨true, n + 12⟩]) ++ ⟨false, s - (n + 12)⟩ :: ys) ∧
      (r.cutView (total xs) (total xs + 12 + n) n).lfree =
        lowest 0 ((xs ++ [⟨true, n + 12⟩]) ++ ⟨false, s - (n + 12)⟩ :: ys) := by
  have layout := good.layout
  have sized := Heap.sized_append.mp layout.sized
  have block := Heap.sized_cons.mp sized.2
  have ends := layout.total_eq
  rw [total_append, total] at ends
  dsimp only at ends block
  have room' : n + 12 ≤ (⟨true, s⟩ : Block).size := by
    dsimp only
    omega
  have cut : xs ++ Heap.carve n ⟨true, s⟩ ++ ys = (xs ++ [⟨true, n + 12⟩]) ++ ⟨false, s - (n + 12)⟩ :: ys := by
    rw [Heap.carve, if_pos (by dsimp only; omega)]
    simp
  have start : total (xs ++ [⟨true, n + 12⟩]) = total xs + 12 + n := by
    rw [total_append]
    simp only [total]
    omega
  have chain := Heap.occupy_chain layout.toLinked room'
  have last := Heap.occupy_last layout.toLinked room'
  have carved := Heap.sized_carve room' least aligned block.1.2
  rw [cut] at chain
  constructor
  · refine
      { chain := chain
        total_eq := ?_
        sized := ?_
        last_used := last.1
        last_next := last.2
        large := layout.large
        bound := layout.bound }
    · rw [total_append, start, total]
      dsimp only
      show _ = r.view.heapEnd
      omega
    · rw [← cut, Heap.sized_append, Heap.sized_append]
      exact ⟨⟨sized.1, carved⟩, block.2⟩
  · rw [lowest_unuse (by omega), start, Nat.zero_add, List.append_assoc, List.singleton_append, lowest_used,
      show n + 12 + (s - (n + 12)) = s by omega, ← layout.lfree_eq]
    rfl

theorem cutView_shows (good : Good r (xs ++ ⟨true, s⟩ :: ys)) (room : n + 36 < s) (least : 4 ≤ n)
    (aligned : 4 ∣ n) (usedMem : Nat) :
    let cut : Arena :=
      { r with
        bytes := pokeAll r.bytes (r.splitWrites (total xs) (total xs + 12 + n) (total xs + s) [])
        lfree := if total xs + 12 + n < r.lfree then total xs + 12 + n else r.lfree
        usedMem }
    Shows ((xs ++ [⟨true, n + 12⟩]) ++ ⟨false, s - (n + 12)⟩ :: ys) cut
        (r.cutView (total xs) (total xs + 12 + n) n) ∧
      Frame ((xs ++ [⟨true, n + 12⟩]) ++ ⟨false, s - (n + 12)⟩ :: ys) r cut := by
  obtain ⟨used, next⟩ := good.header
  dsimp only at used next
  obtain ⟨linked, -⟩ := cutView_linked good room least aligned
  have start : total (xs ++ [⟨true, n + 12⟩]) = total xs + 12 + n := by
    rw [total_append]
    simp only [total]
    omega
  have first : Boundary (total xs) 0 ((xs ++ [⟨true, n + 12⟩]) ++ ⟨false, s - (n + 12)⟩ :: ys) := by
    rw [List.append_assoc]
    exact Heap.boundary_between xs _
  have second : Boundary (total xs + 12 + n) 0 ((xs ++ [⟨true, n + 12⟩]) ++ ⟨false, s - (n + 12)⟩ :: ys) := by
    rw [← start]
    exact Heap.boundary_between _ _
  have behind : Boundary (total xs + s) 0 ((xs ++ [⟨true, n + 12⟩]) ++ ⟨false, s - (n + 12)⟩ :: ys) := by
    rw [boundary_append, start, Boundary, Nat.zero_add]
    right
    right
    rw [show total xs + 12 + n + (s - (n + 12)) = total xs + s by omega]
    exact boundary_start _ _
  have within : ∀ w ∈ r.splitWrites (total xs) (total xs + 12 + n) (total xs + s) [],
      Boundary w.header 0 ((xs ++ [⟨true, n + 12⟩]) ++ ⟨false, s - (n + 12)⟩ :: ys) ∧ w.Sound :=
    splitWrites_within linked first second behind fun w member => absurd member List.not_mem_nil
  have stores := stores_boundary linked.sized within
  have split : sub32 (readHeader r.bytes (total xs)).next (total xs + sizeofStructMem) ≥
      n + sizeofStructMem + minSizeAligned := by
    rw [next, Heap.sizeofStructMem_eq, Heap.minSizeAligned_eq, Heap.sub32_eq (by omega)]
    omega
  have written := assignAll_splitWrites used split
  rw [next] at written
  refine ⟨⟨?_, ?_, rfl, rfl⟩, fun x outside => pokeAll_outside stores outside⟩
  · intro a boundary
    exact (readHeader_pokeAll stores boundary).trans (congrFun written a)
  · intro a boundary
    refine readMagic_pokeAll stores boundary ?_
    have carved : Boundary a 0 (xs ++ Heap.carve n ⟨true, s⟩ ++ ys) := by
      rw [Heap.carve, if_pos (by dsimp only; omega)]
      simpa using boundary
    rcases boundary_carve carved with before | ⟨-, fresh⟩
    · exact Or.inl (good.magic a before)
    · exact Or.inr ⟨⟨total xs + 12 + n, .magic, heapMagic⟩, by simp [splitWrites], fresh, rfl⟩

/-- `rt_realloc` to a smaller size, where the rest is worth a hole. -/
theorem Good.shrink (good : Good r (xs ++ ⟨true, s⟩ :: ys)) (room : n + 36 < s) (least : 4 ≤ n) (aligned : 4 ∣ n) :
    ∃ r', r.shrink (total xs) (s - 12) n = some r' ∧
      Good r' (merge (xs ++ ⟨true, n + 12⟩ :: ⟨false, s - (n + 12)⟩ :: ys)) ∧
      Frame (xs ++ ⟨true, n + 12⟩ :: ⟨false, s - (n + 12)⟩ :: ys) r r' ∧
      r'.memSizeAligned = r.memSizeAligned ∧ r'.maxMem = r.maxMem := by
  have tidy := List.isChain_append.mp good.layout.tidy
  have before : Tidy (xs ++ [⟨true, n + 12⟩]) := by
    refine List.isChain_append.mpr ⟨tidy.1, List.isChain_singleton _, ?_⟩
    rintro x - y head
    obtain rfl := Option.some.inj head
    exact Or.inr rfl
  obtain ⟨linked, low⟩ := cutView_linked good room least aligned
  obtain ⟨shows, kept⟩ := cutView_shows good room least aligned (sub32 r.usedMem (s - 12 - n))
  have counted := good.used_eq
  rw [usedSize_append, usedSize_cons_true] at counted
  have counts : sub32 r.usedMem (s - 12 - n) =
      usedSize ((xs ++ [⟨true, n + 12⟩]) ++ ⟨false, s - (n + 12)⟩ :: ys) := by
    rw [counted, Heap.sub32_eq (by omega), usedSize_append, usedSize_append, usedSize_cons_false,
      usedSize_cons_true, usedSize]
    omega
  have most : sub32 r.usedMem (s - 12 - n) ≤ r.maxMem ∧
      r.maxMem ≤ total ((xs ++ [⟨true, n + 12⟩]) ++ ⟨false, s - (n + 12)⟩ :: ys) := by
    have bounds := good.max_bounds
    have ends := linked.total_eq
    have whole := good.layout.total_eq
    rw [ends]
    rw [whole, counted] at bounds
    rw [counted, Heap.sub32_eq (by omega)]
    show _ ≤ r.maxMem ∧ r.maxMem ≤ r.view.heapEnd
    omega
  obtain ⟨r', plugged, good', kept', size, peak⟩ :=
    shows.plugHoles linked before (tidy_cons.mp tidy.2.1).2 low counts most
  have start : total (xs ++ [⟨true, n + 12⟩]) = total xs + 12 + n := by
    rw [total_append]
    simp only [total]
    omega
  have called : r.shrink (total xs) (s - 12) n = _ := congrArg
    (fun next => ({ r with
      bytes := pokeAll r.bytes (r.splitWrites (total xs) (total xs + 12 + n) next [])
      lfree := if total xs + 12 + n < r.lfree then total xs + 12 + n else r.lfree
      usedMem := sub32 r.usedMem (s - 12 - n) } : Arena).plugHoles (total xs + 12 + n)) good.header.2
  have same : xs ++ ⟨true, n + 12⟩ :: ⟨false, s - (n + 12)⟩ :: ys =
      (xs ++ [⟨true, n + 12⟩]) ++ ⟨false, s - (n + 12)⟩ :: ys := by simp
  rw [start] at plugged
  rw [same]
  exact ⟨r', called.trans plugged, good', kept.trans kept', size, peak⟩

end Arena

end BleSpeaker.Kernel
