import BleSpeaker.Kernel.Heap
import BleSpeaker.Lib.Blocks

/-!
# The heap as an arena of blocks

The headers of `mem.c` as a list of blocks. `Layout` says what a heap looks like between two calls: the
headers are linked in both directions, no two holes lie side by side, and `lfree` is the lowest hole. Only
the `prev` of the header at the end of the heap is nobody's business: `rt_malloc` does not keep it, and
nothing reads it.

Under that, `rt_malloc` is first fit. It never looks at a block that starts at `mem_size_aligned - size` or
behind, so a last hole that would fit exactly is not handed out.
-/

namespace BleSpeaker.Kernel.Heap
open Lib

/-- The headers of `bs`, the first one at `p` with `q` before it. -/
def Chain (mem : Nat → HeapMem) : Nat → Nat → List Block → Prop
  | _, _, [] => True
  | p, q, b :: bs => mem p = ⟨b.used, p + b.size, q⟩ ∧ Chain mem (p + b.size) p bs

/-- The start of the last block, or `q`. -/
def lastStart : Nat → Nat → List Block → Nat
  | _, q, [] => q
  | p, _, b :: bs => lastStart (p + b.size) p bs

def Sized (bs : List Block) : Prop := ∀ b ∈ bs, 16 ≤ b.size ∧ 4 ∣ b.size

structure Linked (h : Heap) (bs : List Block) : Prop where
  chain : Chain h.mem 0 0 bs
  total_eq : total bs = h.heapEnd
  sized : Sized bs
  last_used : (h.mem h.heapEnd).used = true
  last_next : (h.mem h.heapEnd).next = h.heapEnd
  large : 12 ≤ h.memSizeAligned
  bound : h.heapEnd < 4294967296

structure Layout (h : Heap) (bs : List Block) : Prop extends Linked h bs where
  tidy : Tidy bs
  lfree_eq : h.lfree = lowest 0 bs

variable {h : Heap} {mem mem' : Nat → HeapMem} {b : Block} {bs xs ys : List Block} {p q a s size : Nat}

/-! ### Chains -/

theorem chain_append : Chain mem p q (xs ++ ys) ↔
    Chain mem p q xs ∧ Chain mem (p + total xs) (lastStart p q xs) ys := by
  induction xs generalizing p q with
  | nil => simp [Chain, total, lastStart]
  | cons b xs ih => simp only [List.cons_append, Chain, total, lastStart, ih, ← Nat.add_assoc, and_assoc]

theorem chain_cons : Chain mem p q (b :: bs) ↔
    mem p = ⟨b.used, p + b.size, q⟩ ∧ Chain mem (p + b.size) p bs := Iff.rfl

theorem sized_cons : Sized (b :: bs) ↔ (16 ≤ b.size ∧ 4 ∣ b.size) ∧ Sized bs := List.forall_mem_cons

theorem sized_append : Sized (xs ++ ys) ↔ Sized xs ∧ Sized ys := List.forall_mem_append

/-- A chain is a matter of the headers at its own blocks. -/
theorem chain_congr (sized : Sized bs) (same : ∀ a, p ≤ a → a < p + total bs → mem' a = mem a)
    (chain : Chain mem p q bs) : Chain mem' p q bs := by
  induction bs generalizing p q with
  | nil => trivial
  | cons b bs ih =>
    rw [sized_cons] at sized
    simp only [total] at same
    obtain ⟨here, later⟩ := chain
    constructor
    · rw [same p (by omega) (by omega), here]
    · exact ih sized.2 (fun a low high => same a (by omega) (by omega)) later

theorem chain_update {v : HeapMem} (sized : Sized bs) (outside : a < p ∨ p + total bs ≤ a)
    (chain : Chain mem p q bs) : Chain (Function.update mem a v) p q bs := by
  apply chain_congr sized _ chain
  intro c low high
  apply Function.update_of_ne
  omega

theorem chain_setPrev (sized : Sized bs) (chain : Chain mem p q bs) (r : Nat) :
    Chain (Function.update mem p { mem p with prev := r }) p r bs := by
  cases bs with
  | nil => trivial
  | cons b bs =>
    rw [sized_cons] at sized
    obtain ⟨here, later⟩ := chain
    constructor
    · rw [Function.update_self, here]
    · exact chain_update sized.2 (by omega) later

theorem chain_setUsed (sized : Sized (xs ++ b :: ys)) (chain : Chain mem p q (xs ++ b :: ys)) (used : Bool) :
    Chain (Function.update mem (p + total xs) { mem (p + total xs) with used }) p q
      (xs ++ ⟨used, b.size⟩ :: ys) := by
  rw [sized_append, sized_cons] at sized
  rw [chain_append, chain_cons] at chain ⊢
  obtain ⟨before, here, after⟩ := chain
  dsimp only
  refine ⟨chain_update sized.1 (by omega) before, ?_, chain_update sized.2.2 (by omega) after⟩
  rw [Function.update_self, here]

theorem Sized.length_le (sized : Sized bs) : 12 * bs.length ≤ total bs := by
  induction bs with
  | nil => exact Nat.le_refl 0
  | cons b bs ih =>
    rw [sized_cons] at sized
    have later := ih sized.2
    rw [total, List.length_cons]
    omega

theorem Sized.four_dvd_total (sized : Sized bs) : 4 ∣ total bs := by
  induction bs with
  | nil => exact Nat.dvd_zero 4
  | cons b bs ih =>
    rw [sized_cons] at sized
    exact Nat.dvd_add sized.1.2 (ih sized.2)

theorem chain_at (chain : Chain mem p q bs) (member : (a, b) ∈ spots p bs) :
    (mem a).used = b.used ∧ (mem a).next = a + b.size := by
  obtain ⟨xs, ys, rfl, rfl⟩ := mem_spots.mp member
  rw [chain_append, chain_cons] at chain
  rw [chain.2.1]
  exact ⟨rfl, rfl⟩

/-! ### Looking for a hole -/

/-- A hole that the `for` loop stops at. -/
def fits (limit size : Nat) (p : Nat) (b : Block) : Bool := !b.used && size + 12 ≤ b.size && p < limit

def carve (size : Nat) (b : Block) : List Block :=
  if size + 36 ≤ b.size then [⟨true, size + 12⟩, ⟨false, b.size - (size + 12)⟩] else [⟨true, b.size⟩]

theorem fits_iff {limit : Nat} :
    fits limit size p b = true ↔ b.used = false ∧ size + 12 ≤ b.size ∧ p < limit := by
  simp [fits, and_assoc]

theorem total_carve (b : Block) : total (carve size b) = b.size := by
  unfold carve
  split
  · simp only [total]
    omega
  · rfl

theorem search_eq {turns : Nat} (small : size ≤ h.memSizeAligned) (sized : Sized bs)
    (chain : Chain h.mem p q bs) (last : p + total bs = h.heapEnd) (enough : bs.length < turns) :
    h.search size turns p =
      some ((firstFit (fits (h.memSizeAligned - size) size) (carve size) p bs).map Prod.fst) := by
  have limit : sub32 h.memSizeAligned size = h.memSizeAligned - size := sub32_eq small
  have final : h.heapEnd = h.memSizeAligned + 12 := rfl
  induction bs generalizing p q turns with
  | nil =>
    obtain ⟨turns, rfl⟩ := Nat.exists_eq_add_of_lt enough
    rw [total] at last
    rw [search, limit, if_neg (by omega)]
    rfl
  | cons b bs ih =>
    obtain ⟨turns, rfl⟩ := Nat.exists_eq_succ_of_ne_zero (Nat.ne_of_gt (Nat.zero_lt_of_lt enough))
    rw [sized_cons] at sized
    rw [total] at last
    obtain ⟨here, later⟩ := chain
    rw [search, limit, here]
    dsimp only
    rw [sizeofStructMem_eq, sub32_eq (by omega), show p + b.size - (p + 12) = b.size - 12 by omega]
    by_cases before : p < h.memSizeAligned - size
    · rw [if_pos before, firstFit]
      by_cases fit : fits (h.memSizeAligned - size) size p b = true
      · obtain ⟨hole, room, -⟩ := fits_iff.mp fit
        rw [if_pos ⟨hole, by omega⟩, if_pos fit]
        rfl
      · have unfit : ¬ (b.used = false ∧ b.size - 12 ≥ size) := by
          rintro ⟨hole, room⟩
          exact fit (fits_iff.mpr ⟨hole, by omega, before⟩)
        have rest : h.search size turns (p + b.size) = _ :=
          ih sized.2 later (by omega) (by rw [List.length_cons] at enough; omega)
        rw [if_neg unfit, if_neg fit, rest, Option.map_map]
        rfl
    · rw [if_neg before, eq_comm, Option.some_inj, Option.map_eq_none_iff, firstFit_none]
      rintro ⟨r, c⟩ member
      have start := (spots_bounds member).1
      apply Bool.eq_false_iff.mpr
      intro fit
      have low := (fits_iff.mp fit).2.2
      dsimp only at low
      omega

theorem nextFree_eq {last turns : Nat} (sized : Sized bs) (chain : Chain mem p q bs)
    (ends : p + total bs = last) (enough : bs.length < turns) : nextFree mem last turns p = lowest p bs := by
  induction bs generalizing p q turns with
  | nil =>
    obtain ⟨turns, rfl⟩ := Nat.exists_eq_succ_of_ne_zero (Nat.ne_of_gt (Nat.zero_lt_of_lt enough))
    exact nextFree_stops (Or.inr ends)
  | cons b bs ih =>
    obtain ⟨turns, rfl⟩ := Nat.exists_eq_succ_of_ne_zero (Nat.ne_of_gt (Nat.zero_lt_of_lt enough))
    rw [sized_cons] at sized
    rw [total] at ends
    obtain ⟨here, later⟩ := chain
    rw [lowest]
    cases used : b.used with
    | true =>
      rw [nextFree_used (by rw [here]; exact used) (by omega), here, if_pos rfl]
      dsimp only
      exact ih sized.2 later (by omega) (by rw [List.length_cons] at enough; omega)
    | false => exact nextFree_stops (Or.inl (by rw [here]; exact used))

/-! ### Handing a block out -/

theorem occupy_chain (linked : Linked h (xs ++ b :: ys)) (room : size + 12 ≤ b.size) :
    Chain (h.occupy (total xs) size) 0 0 (xs ++ carve size b ++ ys) := by
  have chain := linked.chain
  have sized := linked.sized
  have ends := linked.total_eq
  have final : h.heapEnd = h.memSizeAligned + 12 := rfl
  rw [total_append, total] at ends
  have parts := chain
  rw [chain_append, Nat.zero_add, chain_cons] at parts
  obtain ⟨before, here, after⟩ := parts
  rw [sized_append, sized_cons] at sized
  unfold occupy carve
  rw [here]
  dsimp only
  rw [sizeofStructMem_eq, minSizeAligned_eq, sub32_eq (by omega)]
  by_cases split : size + 36 ≤ b.size
  · rw [if_pos (by omega), if_pos split, List.append_assoc, chain_append, Nat.zero_add, List.cons_append,
      List.cons_append, List.nil_append, chain_cons, chain_cons]
    dsimp only
    rw [show total xs + (size + 12) = total xs + 12 + size by omega,
      show total xs + 12 + size + (b.size - (size + 12)) = total xs + b.size by omega]
    have rest : Chain (Function.update (Function.update h.mem (total xs + 12 + size)
        ⟨false, total xs + b.size, total xs⟩) (total xs) ⟨true, total xs + 12 + size, lastStart 0 0 xs⟩)
        (total xs + b.size) (total xs) ys :=
      chain_update sized.2.2 (by omega) (chain_update sized.2.2 (by omega) after)
    by_cases last : total xs + b.size = h.heapEnd
    · -- The hole was the last block, and nothing lies behind the rest.
      have none : ys = [] := by
        cases ys with
        | nil => rfl
        | cons c ys =>
          have positive := (sized_cons.mp sized.2.2).1.1
          rw [total] at ends
          omega
      subst none
      rw [if_neg (not_not.mpr last)]
      refine ⟨?_, ?_, ?_, trivial⟩
      · exact chain_update sized.1 (by omega) (chain_update sized.1 (by omega) before)
      · rw [Function.update_self]
      · rw [Function.update_of_ne (by omega), Function.update_self]
    · rw [if_pos last]
      refine ⟨?_, ?_, ?_, chain_setPrev sized.2.2 rest _⟩
      · exact chain_update sized.1 (by omega) (chain_update sized.1 (by omega)
          (chain_update sized.1 (by omega) before))
      · rw [Function.update_of_ne (by omega), Function.update_self]
      · rw [Function.update_of_ne (by omega), Function.update_of_ne (by omega), Function.update_self]
  · rw [if_neg (by omega), if_neg split, List.append_assoc, List.singleton_append]
    have marked := chain_setUsed linked.sized chain true
    rw [Nat.zero_add, here] at marked
    exact marked

theorem occupy_last (linked : Linked h (xs ++ b :: ys)) (room : size + 12 ≤ b.size) :
    (h.occupy (total xs) size h.heapEnd).used = true ∧ (h.occupy (total xs) size h.heapEnd).next = h.heapEnd := by
  have ends := linked.total_eq
  have sized := linked.sized
  rw [sized_append, sized_cons] at sized
  rw [total_append, total] at ends
  have parts := linked.chain
  rw [chain_append, Nat.zero_add, chain_cons] at parts
  have kept : ∀ a v, a ≠ h.heapEnd → ∀ mem : Nat → HeapMem,
      Function.update mem a v h.heapEnd = mem h.heapEnd := by
    intro a v differs mem
    exact Function.update_of_ne differs.symm _ _
  unfold occupy
  rw [parts.2.1]
  dsimp only
  rw [sizeofStructMem_eq, minSizeAligned_eq, sub32_eq (by omega)]
  split
  · rename_i split
    split
    · rename_i inside
      rw [kept _ _ inside, kept _ _ (by omega), kept _ _ (by omega)]
      exact ⟨linked.last_used, linked.last_next⟩
    · rw [kept _ _ (by omega), kept _ _ (by omega)]
      exact ⟨linked.last_used, linked.last_next⟩
  · rw [kept _ _ (by omega)]
    exact ⟨linked.last_used, linked.last_next⟩

theorem sized_carve (room : size + 12 ≤ b.size) (least : 4 ≤ size) (aligned : 4 ∣ size) (whole : 4 ∣ b.size) :
    Sized (carve size b) := by
  unfold carve Sized
  split
  · simp only [List.forall_mem_cons, List.not_mem_nil, false_implies, implies_true, and_true]
    omega
  · simp only [List.forall_mem_cons, List.not_mem_nil, false_implies, implies_true, and_true]
    omega

theorem tidy_carve (tidy : Tidy (xs ++ b :: ys)) (hole : b.used = false) : Tidy (xs ++ carve size b ++ ys) := by
  obtain ⟨before, after, seam⟩ := List.isChain_append.mp tidy
  obtain ⟨beside, rest⟩ := tidy_cons.mp after
  have next : ∀ c ∈ ys.head?, c.used = true := by
    intro c head
    rcases beside c head with used | used
    · rw [hole] at used
      cases used
    · exact used
  rw [List.append_assoc]
  refine List.isChain_append.mpr ⟨before, ?_, ?_⟩
  · unfold carve
    split
    · refine tidy_cons.mpr ⟨fun _ _ => Or.inl rfl, tidy_cons.mpr ⟨fun c head => Or.inr (next c head), rest⟩⟩
    · exact tidy_cons.mpr ⟨fun _ _ => Or.inl rfl, rest⟩
  · intro x _ y head
    right
    unfold carve at head
    split at head
    · obtain rfl := Option.some.inj head
      rfl
    · obtain rfl := Option.some.inj head
      rfl

theorem lowest_append_hole (hole : ∃ b ∈ xs, b.used = false) : lowest p (xs ++ ys) = lowest p xs := by
  induction xs generalizing p with
  | nil =>
    obtain ⟨b, member, -⟩ := hole
    cases member
  | cons c xs ih =>
    rw [List.cons_append, lowest, lowest]
    split
    · rename_i used
      apply ih
      obtain ⟨b, member, unused⟩ := hole
      rcases List.mem_cons.mp member with rfl | later
      · rw [used] at unused
        cases unused
      · exact ⟨b, later, unused⟩
    · rfl

theorem hand_layout (layout : Layout h (xs ++ b :: ys)) (hole : b.used = false) (room : size + 12 ≤ b.size)
    (least : 4 ≤ size) (aligned : 4 ∣ size) : Layout (h.hand (total xs) size) (xs ++ carve size b ++ ys) := by
  have sized := layout.sized
  rw [sized_append, sized_cons] at sized
  have carved := sized_carve room least aligned sized.2.1.2
  have chain := occupy_chain layout.toLinked room
  have ends := layout.total_eq
  have final : h.heapEnd = h.memSizeAligned + 12 := rfl
  have lfree := layout.lfree_eq
  rw [total_append, total] at ends
  have moved : (h.hand (total xs) size).lfree = lowest 0 (xs ++ carve size b ++ ys) := by
    show (if total xs = h.lfree then _ else _) = _
    by_cases all : ∀ c ∈ xs, c.used = true
    · rw [lowest_append_used all, Nat.zero_add, lowest, hole, if_neg Bool.false_ne_true] at lfree
      have rest : Chain (h.occupy (total xs) size) (0 + total xs) _ (carve size b ++ ys) :=
        (chain_append.mp (by rw [← List.append_assoc]; exact chain)).2
      have few : (carve size b ++ ys).length < longestWalk := by
        have count := Sized.length_le (sized_append.mpr ⟨carved, sized.2.2⟩)
        have bound := layout.bound
        rw [total_append, total_carve] at count
        unfold longestWalk
        omega
      rw [Nat.zero_add] at rest
      rw [if_pos lfree.symm, lfree, List.append_assoc, lowest_append_used all, Nat.zero_add]
      apply nextFree_eq (sized_append.mpr ⟨carved, sized.2.2⟩) rest _ few
      rw [total_append, total_carve]
      exact ends
    · have before : ∃ c ∈ xs, c.used = false := by
        simpa using all
      rw [lowest_append_hole before] at lfree
      have low : lowest 0 xs ≠ total xs := by
        obtain ⟨us, vs, rfl, used, start, head⟩ := exists_lowest 0 xs
        cases vs with
        | nil =>
          obtain ⟨c, member, unused⟩ := before
          rw [List.append_nil] at member
          rw [used c member] at unused
          cases unused
        | cons v vs =>
          have positive := (sized_cons.mp (sized_append.mp sized.1).2).1.1
          rw [start, total_append, total]
          omega
      rw [if_neg (by omega), lfree, List.append_assoc, lowest_append_hole before]
  refine
    { chain := chain
      total_eq := ?_
      sized := sized_append.mpr ⟨sized_append.mpr ⟨sized.1, carved⟩, sized.2.2⟩
      tidy := tidy_carve layout.tidy hole
      lfree_eq := moved
      last_used := (occupy_last layout.toLinked room).1
      last_next := (occupy_last layout.toLinked room).2
      large := layout.large
      bound := layout.bound }
  rw [total_append, total_append, total_carve]
  show _ = h.heapEnd
  omega

/-! ### `rt_malloc` -/

/-- The size that is looked for: aligned, and twelve bytes at least. -/
def request (n : Nat) : Nat := if rtAlign n < minSizeAligned then minSizeAligned else rtAlign n

theorem request_bounds (n : Nat) : n ≤ request n ∧ 12 ≤ request n ∧ 4 ∣ request n := by
  unfold request rtAlign
  rw [minSizeAligned_eq]
  split <;> omega

theorem init_layout (raw : Nat → HeapMem) {size : Nat} (large : 12 ≤ size) (aligned : 4 ∣ size)
    (bound : size + 12 < 4294967296) : Layout (rtSystemHeapInit raw size) [⟨false, size + 12⟩] := by
  have last := rtSystemHeapInit_last raw size
  refine
    { chain := ⟨?_, trivial⟩
      total_eq := rfl
      sized := ?_
      tidy := List.isChain_singleton _
      lfree_eq := rfl
      last_used := by rw [last]
      last_next := by rw [last]
      large := large
      bound := bound }
  · rw [rtSystemHeapInit_first, Nat.zero_add]
    rfl
  · intro b member
    obtain rfl := List.mem_singleton.mp member
    dsimp only
    omega

/-- What `rt_malloc` finds: the first hole that fits, from the start of the heap. -/
def place (memSizeAligned n : Nat) (bs : List Block) : Option (Nat × List Block) :=
  firstFit (fits (memSizeAligned - request n) (request n)) (carve (request n)) 0 bs

theorem Layout.search_place {n : Nat} (layout : Layout h bs) (small : request n ≤ h.memSizeAligned) :
    h.search (request n) longestWalk h.lfree = some ((place h.memSizeAligned n bs).map Prod.fst) := by
  obtain ⟨xs, ys, rfl, used, start, -⟩ := exists_lowest 0 bs
  have sized := sized_append.mp layout.sized
  have chain := (chain_append.mp layout.chain).2
  have ends := layout.total_eq
  rw [total_append] at ends
  have few : ys.length < longestWalk := by
    have count := sized.2.length_le
    have bound := layout.bound
    unfold longestWalk
    omega
  have unfit : ∀ x ∈ spots 0 xs, fits (h.memSizeAligned - request n) (request n) x.1 x.2 = false := by
    rintro ⟨r, c⟩ member
    obtain ⟨us, vs, rfl, -⟩ := mem_spots.mp member
    have taken := used c (by simp)
    simp [fits, taken]
  rw [layout.lfree_eq, start, search_eq small sized.2 chain (by omega) few, place, firstFit_skip unfit,
    Option.map_map]
  rfl

end BleSpeaker.Kernel.Heap
