import BleSpeaker.Kernel.Layout

/-!
# The headers of a freed block

`rt_free` marks a block as unused and `plug_holes` joins it with the holes on its two sides. On a tidy
heap that is the same as merging all holes, and the heap is tidy again: `plugHoles_layout`. As in `Heap`,
this is what becomes of the headers; the asserts are in `Arena`.
-/

namespace BleSpeaker.Kernel.Heap
open Lib

/-- The headers once everything from `mem` up to `after` is one block. -/
def link (h : Heap) (mem after : Nat) : Nat → HeapMem :=
  let heap := Function.update h.mem mem { h.mem mem with next := after }
  Function.update heap after { heap after with prev := mem }

def plugForward (h : Heap) (mem : Nat) : Heap :=
  let nmem := (h.mem mem).next
  if mem ≠ nmem ∧ (h.mem nmem).used = false ∧ nmem ≠ h.heapEnd then
    { h with
      lfree := if h.lfree = nmem then mem else h.lfree
      mem := h.link mem (h.mem nmem).next }
  else h

def plugBackward (h : Heap) (mem : Nat) : Heap :=
  let pmem := (h.mem mem).prev
  if pmem ≠ mem ∧ (h.mem pmem).used = false then
    { h with
      lfree := if h.lfree = mem then pmem else h.lfree
      mem := h.link pmem (h.mem mem).next }
  else h

def plugHoles (h : Heap) (mem : Nat) : Heap := (h.plugForward mem).plugBackward mem

def unuse (h : Heap) (mem : Nat) : Heap :=
  { h with
    mem := Function.update h.mem mem { h.mem mem with used := false }
    lfree := if mem < h.lfree then mem else h.lfree }

variable {h : Heap} {b c : Block} {xs ys : List Block} {s : Nat}

theorem boundary_between (xs ys : List Block) : Boundary (total xs) 0 (xs ++ ys) := by
  rw [boundary_append, Nat.zero_add]
  exact Or.inr (boundary_start _ _)

/-! ### Joining two blocks -/

theorem link_chain (linked : Linked h (xs ++ b :: c :: ys)) :
    Chain (h.link (total xs) (total xs + b.size + c.size)) 0 0 (xs ++ ⟨b.used, b.size + c.size⟩ :: ys) := by
  have sized := linked.sized
  have chain := linked.chain
  rw [sized_append, sized_cons, sized_cons] at sized
  rw [chain_append, Nat.zero_add, chain_cons, chain_cons] at chain
  obtain ⟨before, here, -, after⟩ := chain
  rw [chain_append, Nat.zero_add, chain_cons]
  dsimp only
  rw [← Nat.add_assoc]
  unfold link
  refine ⟨?_, ?_, ?_⟩
  · exact chain_update sized.1 (by omega) (chain_update sized.1 (by omega) before)
  · rw [Function.update_of_ne (by omega), Function.update_self, here]
  · exact chain_setPrev sized.2.2.2 (chain_update sized.2.2.2 (by omega) after) _

theorem link_last (linked : Linked h (xs ++ b :: c :: ys)) :
    (h.link (total xs) (total xs + b.size + c.size) h.heapEnd).used = true ∧
      (h.link (total xs) (total xs + b.size + c.size) h.heapEnd).next = h.heapEnd := by
  have sized := linked.sized
  have ends := linked.total_eq
  rw [sized_append, sized_cons, sized_cons] at sized
  rw [total_append, total, total] at ends
  have inside : h.heapEnd ≠ total xs := by omega
  unfold link
  by_cases last : total xs + b.size + c.size = h.heapEnd
  · rw [last, Function.update_self]
    dsimp only
    rw [Function.update_of_ne inside]
    exact ⟨linked.last_used, linked.last_next⟩
  · rw [Function.update_of_ne (Ne.symm last), Function.update_of_ne inside]
    exact ⟨linked.last_used, linked.last_next⟩

theorem link_linked (linked : Linked h (xs ++ b :: c :: ys)) (lfree : Nat) :
    Linked { h with lfree, mem := h.link (total xs) (total xs + b.size + c.size) }
      (xs ++ ⟨b.used, b.size + c.size⟩ :: ys) := by
  have sized := linked.sized
  have ends := linked.total_eq
  rw [sized_append, sized_cons, sized_cons] at sized
  rw [total_append, total, total] at ends
  obtain ⟨before, first, second, after⟩ := sized
  refine
    { chain := link_chain linked
      total_eq := ?_
      sized := sized_append.mpr ⟨before, sized_cons.mpr ⟨?_, after⟩⟩
      last_used := (link_last linked).1
      last_next := (link_last linked).2
      large := linked.large
      bound := linked.bound }
  · rw [total_append, total]
    dsimp only
    show _ = h.heapEnd
    omega
  · dsimp only
    omega

/-! ### The two sides of a hole -/

theorem lastStart_snoc (p q : Nat) (xs : List Block) (b : Block) :
    lastStart p q (xs ++ [b]) = p + total xs := by
  induction xs generalizing p q with
  | nil => rfl
  | cons c xs ih => rw [List.cons_append, lastStart, ih, total, Nat.add_assoc]

theorem plugForward_linked (linked : Linked h (xs ++ ⟨false, s⟩ :: ys)) (low : h.lfree ≤ total xs) :
    Linked (h.plugForward (total xs)) (xs ++ join ⟨false, s⟩ ys) ∧
      (h.plugForward (total xs)).lfree = h.lfree := by
  have sized := linked.sized
  have ends := linked.total_eq
  have chain := linked.chain
  rw [sized_append, sized_cons] at sized
  rw [total_append, total] at ends
  rw [chain_append, Nat.zero_add, chain_cons] at chain
  dsimp only at sized ends chain
  unfold plugForward
  rw [chain.2.1]
  dsimp only
  cases ys with
  | nil =>
    rw [total] at ends
    rw [if_neg (by omega)]
    exact ⟨linked, rfl⟩
  | cons c ys =>
    have next := (chain_cons.mp chain.2.2).1
    have positive := (sized_cons.mp sized.2.2).1.1
    rw [total] at ends
    rw [next, join]
    dsimp only
    cases used : c.used with
    | true =>
      rw [if_neg (by simp), if_neg (by simp)]
      exact ⟨linked, rfl⟩
    | false =>
      have plugs : total xs ≠ total xs + s ∧ false = false ∧ total xs + s ≠ h.heapEnd :=
        ⟨by omega, rfl, by omega⟩
      have higher : h.lfree ≠ total xs + s := by omega
      have holes : false = false ∧ false = false := ⟨rfl, rfl⟩
      rw [if_pos plugs, if_neg higher, if_pos holes]
      exact ⟨link_linked linked h.lfree, rfl⟩

/-- The holes before and behind: the list that `plug_holes` leaves. -/
def plugged (s : Nat) (xs ys : List Block) : List Block :=
  match xs.getLast? with
  | some c => if c.used = false then xs.dropLast ++ ⟨false, c.size + s⟩ :: ys else xs ++ ⟨false, s⟩ :: ys
  | none => ⟨false, s⟩ :: ys

theorem plugBackward_linked (linked : Linked h (xs ++ ⟨false, s⟩ :: ys))
    (low : h.lfree = lowest 0 (xs ++ ⟨false, s⟩ :: ys)) :
    Linked (h.plugBackward (total xs)) (plugged s xs ys) ∧ (h.plugBackward (total xs)).lfree = h.lfree := by
  have sized := linked.sized
  have chain := linked.chain
  rw [sized_append, sized_cons] at sized
  rw [chain_append, Nat.zero_add, chain_cons] at chain
  dsimp only at sized chain
  unfold plugBackward plugged
  rw [chain.2.1]
  dsimp only
  rcases List.eq_nil_or_concat' xs with rfl | ⟨us, c, rfl⟩
  · rw [if_neg (by simp [lastStart, total])]
    exact ⟨linked, rfl⟩
  · have before := (sized_append.mp sized.1).2
    have positive := (sized_cons.mp before).1.1
    have previous := (chain_append.mp chain.1).2
    rw [Nat.zero_add, chain_cons] at previous
    rw [lastStart_snoc, Nat.zero_add, previous.1, List.getLast?_concat, List.dropLast_concat, total_append, total,
      total, Nat.add_zero]
    dsimp only
    cases used : c.used with
    | true =>
      rw [if_neg (by simp), if_neg (by simp)]
      exact ⟨linked, rfl⟩
    | false =>
      have lower : h.lfree ≠ total us + c.size := by
        -- The hole before is lower than this one.
        have hole : ∃ d ∈ us ++ [c], d.used = false := ⟨c, by simp, used⟩
        rw [low, lowest_append_hole hole]
        obtain ⟨vs, ws, same, all, start, -⟩ := exists_lowest 0 (us ++ [c])
        rw [start]
        cases ws with
        | nil =>
          rw [List.append_nil] at same
          rw [← same] at all
          rw [all c (by simp)] at used
          cases used
        | cons w ws =>
          have sizes : Sized (vs ++ w :: ws) := by
            rw [← same]
            exact sized.1
          have step := (sized_cons.mp (sized_append.mp sizes).2).1.1
          have whole := congrArg total same
          rw [total_append, total_append, total, total, total] at whole
          omega
      have plugs : total us ≠ total us + c.size ∧ false = false := ⟨by omega, rfl⟩
      rw [List.append_assoc, List.singleton_append] at linked
      have joined := link_linked linked h.lfree
      rw [used] at joined
      rw [if_pos plugs, if_neg lower, if_pos rfl]
      exact ⟨joined, rfl⟩

/-! ### Plugging holes -/

theorem plugged_eq (before : Tidy xs) (after : Tidy (⟨false, s⟩ :: ys)) :
    plugged s xs ys = merge (xs ++ ⟨false, s⟩ :: ys) := by
  unfold plugged
  rcases List.eq_nil_or_concat' xs with rfl | ⟨us, c, rfl⟩
  · rw [List.nil_append, merge_of_tidy after]
    rfl
  · rw [List.getLast?_concat, List.dropLast_concat]
    dsimp only
    obtain ⟨used, size⟩ := c
    cases used with
    | true =>
      have tidy : Tidy ((us ++ [⟨true, size⟩]) ++ ⟨false, s⟩ :: ys) := by
        refine List.isChain_append.mpr ⟨before, after, ?_⟩
        rintro x last y -
        rw [List.getLast?_concat] at last
        obtain rfl := Option.some.inj last
        exact Or.inl rfl
      rw [if_neg (by simp), merge_of_tidy tidy]
    | false =>
      have tidy : Tidy (us ++ ⟨false, size + s⟩ :: ys) := by
        obtain ⟨start, -, seam⟩ := List.isChain_append.mp before
        obtain ⟨beside, rest⟩ := tidy_cons.mp after
        refine List.isChain_append.mpr ⟨start, tidy_cons.mpr ⟨beside, rest⟩, ?_⟩
        rintro x last y head
        obtain rfl := Option.some.inj head
        rcases seam x last ⟨false, size⟩ rfl with used | used
        · exact Or.inl used
        · cases used
      rw [if_pos rfl, List.append_assoc, List.singleton_append, merge_holes, merge_of_tidy tidy]

theorem unuse_linked (layout : Layout h (xs ++ ⟨true, s⟩ :: ys)) :
    Linked (h.unuse (total xs)) (xs ++ ⟨false, s⟩ :: ys) ∧
      (h.unuse (total xs)).lfree = lowest 0 (xs ++ ⟨false, s⟩ :: ys) := by
  have sized := layout.sized
  have ends := layout.total_eq
  rw [sized_append, sized_cons] at sized
  rw [total_append, total] at ends
  have positive := sized.2.1.1
  dsimp only at ends positive
  have inside : h.heapEnd ≠ total xs := by omega
  have marked := chain_setUsed layout.sized layout.chain false
  rw [Nat.zero_add] at marked
  constructor
  · refine
      { chain := marked
        total_eq := ?_
        sized := sized_append.mpr ⟨sized.1, sized_cons.mpr sized.2⟩
        last_used := ?_
        last_next := ?_
        large := layout.large
        bound := layout.bound }
    · rw [total_append, total]
      exact ends
    · exact (congrArg HeapMem.used (Function.update_of_ne inside _ _)).trans layout.last_used
    · exact (congrArg HeapMem.next (Function.update_of_ne inside _ _)).trans layout.last_next
  · rw [lowest_unuse (by omega), ← layout.lfree_eq, Nat.zero_add]
    rfl

theorem lowest_le_hole (xs ys : List Block) (s : Nat) : lowest 0 (xs ++ ⟨false, s⟩ :: ys) ≤ total xs := by
  have bounds := (lowest_bounds 0 (xs ++ [⟨false, 0⟩])).2
  rw [lowest_hole 0 s 0 xs ys []]
  simpa [total] using bounds

/-- `plug_holes` merges all holes, once the heap was tidy but for the block it is called for. -/
theorem plugHoles_layout (linked : Linked h (xs ++ ⟨false, s⟩ :: ys)) (before : Tidy xs) (after : Tidy ys)
    (low : h.lfree = lowest 0 (xs ++ ⟨false, s⟩ :: ys)) :
    Layout (h.plugHoles (total xs)) (merge (xs ++ ⟨false, s⟩ :: ys)) := by
  have below : h.lfree ≤ total xs := by
    rw [low]
    exact lowest_le_hole xs ys s
  obtain ⟨forward, lfree⟩ := plugForward_linked linked below
  have tidy : Tidy (join ⟨false, s⟩ ys) := tidy_join after
  -- With or without a hole behind it, there is one block for this hole now.
  obtain ⟨t, zs, same, merged⟩ : ∃ t zs, join ⟨false, s⟩ ys = ⟨false, t⟩ :: zs ∧
      merge (xs ++ ⟨false, s⟩ :: ys) = merge (xs ++ ⟨false, t⟩ :: zs) := by
    rcases join_cases ⟨false, s⟩ ys with apart | ⟨m, ds, -, rfl, joined⟩
    · exact ⟨s, ys, apart, rfl⟩
    · exact ⟨s + m, ds, joined, merge_holes xs ds s m⟩
  rw [same] at forward tidy
  have lowest' : (h.plugForward (total xs)).lfree = lowest 0 (xs ++ ⟨false, t⟩ :: zs) := by
    rw [lfree, low, lowest_hole]
  obtain ⟨backward, lfree'⟩ := plugBackward_linked forward lowest'
  rw [plugged_eq before tidy, ← merged] at backward
  refine { toLinked := backward, tidy := tidy_merge _, lfree_eq := ?_ }
  rw [lowest_merge, ← low, ← lfree]
  exact lfree'

end BleSpeaker.Kernel.Heap
