import Mathlib.Data.List.Nodup
import BleSpeaker.Kernel.Objects

/-!
# What the heap can still serve

`rt_malloc` hands out the lowest hole that fits, and a hole that ends the heap only if it starts below
`mem_size_aligned - size`. `rt_free` leaves no trace of the block it takes back: the blocks are those from
before, so a run that gives everything back ends with the heap it started with.

The answers depend on the blocks alone. Two heaps with the same blocks and with objects at the same places are
`Alike`, and every run of calls gets the same answers from both.
-/

namespace BleSpeaker.Kernel
open Lib

variable {r r' : Arena} {bs cs xs ys : List Block} {b : Block} {objs : List Object} {s s' t t' : HeapState}
  {act : HeapAct} {p q n size : Nat}

/-! ### The lowest hole -/

/-- The answer of `rt_malloc`: the lowest hole that suits. -/
theorem Arena.Good.rtMalloc_lowest (good : r.Good bs) (positive : n ≠ 0) (small : n ≤ 4294967292) :
    ∃ answer r', r.rtMalloc n = some (answer, r') ∧
      ((answer = none ∧ ∀ q, ¬ Suits bs r.memSizeAligned n q) ∨
        ∃ q, answer = some (q + 12) ∧ Suits bs r.memSizeAligned n q ∧
          ∀ q' < q, ¬ Suits bs r.memSizeAligned n q') := by
  rcases good.rtMalloc positive small with ⟨nothing, fails⟩ | ⟨p, cs, found, called, -, -⟩
  · exact ⟨none, r, fails, Or.inl ⟨rfl, place_none.mp nothing⟩⟩
  · refine ⟨some (p + 12), _, called, Or.inr ?_⟩
    obtain ⟨xs, b, ys, rfl, rfl, rfl, fit, before⟩ := firstFit_some found
    have here : (0 + total xs, b) ∈ spots 0 (xs ++ b :: ys) := mem_spots.mpr ⟨xs, ys, rfl, rfl⟩
    obtain ⟨hole, room, low⟩ := fits_suits.mp fit
    obtain ⟨used, t⟩ := b
    obtain rfl : used = false := hole
    refine ⟨0 + total xs, rfl, ⟨t, here, room, low⟩, ?_⟩
    rintro q below ⟨t', member, room', low'⟩
    rw [spots_append, List.mem_append] at member
    rcases member with member | member
    · have unfit := before _ member
      exact absurd (fits_suits.mpr ⟨rfl, room', low'⟩) (Bool.eq_false_iff.mp unfit)
    · have bound := (spots_bounds member).1
      omega

/-! ### The same blocks -/

/-- The places of the objects. -/
def shapes (objs : List Object) : List (Nat × Nat) := objs.map fun o => (o.addr, o.data.length)

structure Alike (bs : List Block) (s s' : HeapState) : Prop where
  owns : Owns s.arena bs s.objs
  owns' : Owns s'.arena bs s'.objs
  size_eq : s'.arena.memSizeAligned = s.arena.memSizeAligned
  shapes_eq : shapes s'.objs = shapes s.objs

theorem exists_shape {objs' : List Object} {o : Object} (same : shapes objs' = shapes objs) (member : o ∈ objs) :
    ∃ o' ∈ objs', o'.addr = o.addr ∧ o'.data.length = o.data.length := by
  have shape : (o.addr, o.data.length) ∈ shapes objs' := by
    rw [same]
    exact List.mem_map.mpr ⟨o, member, rfl⟩
  obtain ⟨o', member', equal⟩ := List.mem_map.mp shape
  exact ⟨o', member', Prod.mk.inj equal⟩

theorem shapes_remove (p : Nat) (objs : List Object) :
    shapes (remove p objs) = (shapes objs).filter fun x => x.1 != p := by
  simp only [shapes, remove, List.filter_map]
  rfl

/-- What is allowed depends on the places of the objects. -/
theorem Alike.calls (alike : Alike bs s s') (calls : Calls s act) : Calls s' act := by
  cases act with
  | malloc n => exact calls
  | calloc count k => exact calls
  | realloc p n =>
    obtain ⟨⟨o, member, rfl⟩, small⟩ := calls
    obtain ⟨o', member', same, -⟩ := exists_shape alike.shapes_eq member
    exact ⟨⟨o', member', same⟩, small⟩
  | free p =>
    obtain ⟨o, member, rfl⟩ := calls
    obtain ⟨o', member', same, -⟩ := exists_shape alike.shapes_eq member
    exact ⟨o', member', same⟩
  | store p i v =>
    obtain ⟨o, member, rfl, inside⟩ := calls
    obtain ⟨o', member', same, length⟩ := exists_shape alike.shapes_eq member
    exact ⟨o', member', same, by omega⟩

/-- The places of the objects after a call follow from those before it and the answer. -/
theorem Serves.shapes_eq {objs' cs cs' : List Object} {answer : Option Nat} (distinct : (objs.map Object.addr).Nodup)
    (same : shapes objs' = shapes objs) (serves : Serves bs size objs act answer cs)
    (serves' : Serves bs size objs' act answer cs') : shapes cs' = shapes cs := by
  have removed : ∀ p, shapes (remove p objs') = shapes (remove p objs) := by
    intro p
    rw [shapes_remove, shapes_remove, same]
  have front : ∀ (o o' : Object) (us vs : List Object), o'.addr = o.addr → o'.data.length = o.data.length →
      shapes us = shapes vs → shapes (o' :: us) = shapes (o :: vs) := by
    intro o o' us vs place length rest
    simp only [shapes, List.map_cons, place, length] at rest ⊢
    rw [rest]
  cases serves with
  | none_malloc => cases serves' with | none_malloc => exact same
  | none_calloc => cases serves' with | none_calloc => exact same
  | none_realloc p n nonzero =>
    cases serves' with
    | none_realloc => exact same
    | realloc_zero => exact absurd rfl nonzero
  | malloc n o _ length =>
    generalize place : some o.addr = answer at serves'
    cases serves' with
    | none_malloc => cases place
    | malloc _ o' _ length' =>
      exact front o o' _ _ (Option.some.inj place).symm (by omega) same
  | calloc count k p =>
    cases serves' with
    | calloc => exact front _ _ _ _ rfl rfl same
  | realloc n o₁ o₂ _ _ length =>
    generalize first : o₁.addr = p, place : some o₂.addr = answer at serves'
    cases serves' with
    | none_realloc => cases place
    | realloc _ o₁' o₂' _ _ length' =>
      exact front _ _ _ _ (Option.some.inj place).symm (by omega) (removed _)
    | realloc_zero => cases place
  | realloc_zero p =>
    cases serves' with
    | none_realloc _ _ nonzero => exact absurd rfl nonzero
    | realloc_zero => exact removed p
  | free p => cases serves' with | free => exact removed p
  | store i v o member =>
    generalize place : o.addr = p at serves'
    cases serves' with
    | store _ _ o' member' =>
      obtain ⟨o'', member'', place'', length''⟩ := exists_shape same.symm member'
      obtain rfl : o'' = o := List.inj_on_of_nodup_map distinct member'' member (place''.trans place.symm)
      exact front _ _ _ _ rfl (by simp only [List.length_set]; exact length''.symm) (removed _)

theorem Alike.next (alike : Alike bs s s') (calls : Calls s act) :
    ∃ t t' cs, s.next act = some t ∧ s'.next act = some t' ∧ t'.answer = t.answer ∧ Alike cs t t' := by
  obtain ⟨t, moved, answer, owns, size, serves⟩ := alike.owns.next calls
  obtain ⟨t', moved', answer', owns', size', serves'⟩ := alike.owns'.next (alike.calls calls)
  rw [alike.size_eq] at answer' owns' serves' size'
  have same : t'.answer = t.answer := answer'.trans answer.symm
  rw [same] at serves'
  exact ⟨t, t', _, moved, moved', same, owns, owns', size'.trans size.symm,
    serves.shapes_eq alike.owns.distinct alike.shapes_eq serves'⟩

/-- The answers that a run of calls gets. -/
def answers : List HeapAct → HeapState → List (Option Nat)
  | [], _ => []
  | act :: rest, s =>
    match s.next act with
    | none => []
    | some t => t.answer :: answers rest t

/-- Heaps that are alike give the same answers for ever. -/
theorem Alike.answers_eq {raw : Nat → UInt8} {acts : List HeapAct} (alike : Alike bs s s')
    (meets : (heapSystem raw size).Meets Calls acts s) : answers acts s' = answers acts s := by
  induction acts generalizing bs s s' with
  | nil => rfl
  | cons act rest ih =>
    obtain ⟨calls, later⟩ := meets
    obtain ⟨t, t', cs, moved, moved', same, alike'⟩ := alike.next calls
    simp only [answers, moved, moved']
    rw [same, ih alike' (later t moved)]

/-! ### Giving back -/

theorem merge_carve (tidy : Tidy (xs ++ b :: ys)) (hole : b.used = false) (room : size + 12 ≤ b.size) :
    ∃ t zs, Heap.carve size b = ⟨true, t⟩ :: zs ∧ merge (xs ++ ⟨false, t⟩ :: (zs ++ ys)) = xs ++ b :: ys := by
  obtain ⟨used, width⟩ := b
  obtain rfl : used = false := hole
  dsimp only at room
  by_cases split : size + 36 ≤ width
  · refine ⟨size + 12, [⟨false, width - (size + 12)⟩], if_pos split, ?_⟩
    rw [List.singleton_append, merge_holes, show size + 12 + (width - (size + 12)) = width by omega,
      merge_of_tidy tidy]
  · exact ⟨width, [], if_neg split, merge_of_tidy tidy⟩

/-- A block that was placed and is freed again leaves the blocks from before. -/
theorem freeBlocks_place (good : r.Good bs) (good' : r'.Good cs)
    (placed : Heap.place size n bs = some (q, cs)) : freeBlocks q cs = bs := by
  obtain ⟨xs, b, ys, rfl, rfl, rfl, fit, -⟩ := firstFit_some placed
  obtain ⟨hole, room, -⟩ := Heap.fits_iff.mp fit
  obtain ⟨t, zs, carved, merged⟩ := merge_carve good.layout.tidy hole room
  have sized := good'.layout.sized
  rw [carved, List.append_assoc, List.cons_append] at sized ⊢
  rw [Nat.zero_add, freeBlocks, replace_append (positive_of_sized sized), List.append_assoc]
  exact merged

theorem remove_fresh (fresh : p ∉ objs.map Object.addr) : remove p objs = objs := by
  rw [remove, List.filter_eq_self]
  intro o member
  simp only [bne_iff_ne, ne_eq]
  rintro rfl
  exact fresh (List.mem_map.mpr ⟨o, member, rfl⟩)

/-- A block that is freed leaves no trace, whatever was stored in it. -/
theorem Owns.malloc_free {r₁ : Arena} {bytes : Nat → UInt8} (owns : Owns r bs objs) (small : n ≤ 4294967292)
    (got : r.rtMalloc n = some (some p, r₁)) (stored : ∀ x, x < p ∨ p + n ≤ x → bytes x = r₁.bytes x) :
    ∃ r₂, Arena.rtFree { r₁ with bytes } (some p) = some r₂ ∧ Owns r₂ bs objs ∧
      r₂.memSizeAligned = r.memSizeAligned := by
  have positive : n ≠ 0 := by
    rintro rfl
    rw [Arena.rtMalloc, if_pos rfl] at got
    cases got
  rcases owns.rtMalloc positive small with ⟨-, fails⟩ | ⟨q, r', cs, placed, called, fresh, -, size⟩
  · rw [fails] at got
    cases got
  obtain ⟨same, rfl⟩ := Prod.mk.inj (Option.some.inj (called.symm.trans got))
  obtain rfl := Option.some.inj same
  obtain ⟨_, t, begins, spot, fits⟩ := fresh.blocks _ List.mem_cons_self
  obtain rfl := Nat.add_right_cancel begins
  rw [read_length] at fits
  have filled := fresh.rewrite spot fits fun x outside => stored x (by omega)
  obtain ⟨new, -⟩ := List.nodup_cons.mp fresh.distinct
  rw [remove, List.filter_cons_of_neg (by simp), ← remove, remove_fresh new] at filled
  obtain ⟨r₂, freed, served, size₂⟩ := filled.rtFree List.mem_cons_self
  rw [remove, List.filter_cons_of_neg (by simp), ← remove, remove_fresh new, Nat.add_sub_cancel,
    freeBlocks_place owns.good fresh.good placed] at served
  exact ⟨r₂, freed, served, size₂.trans size⟩

theorem Owns.empty (owns : Owns r bs []) (large : bs ≠ []) : bs = [⟨false, total bs⟩] := by
  apply eq_singleton_of_unused owns.good.layout.tidy _ large
  intro b member
  obtain ⟨xs, ys, rfl⟩ := List.append_of_mem member
  obtain ⟨used, s⟩ := b
  cases used with
  | false => rfl
  | true =>
    obtain ⟨o, nobody, -⟩ := owns.owners (total xs) s (mem_spots.mpr ⟨xs, ys, rfl, (Nat.zero_add _).symm⟩)
    cases nobody

/-! ### In every run -/

section Runs
variable {raw : Nat → UInt8}

/-- `rt_malloc` finds the lowest hole that suits, in every run. -/
theorem malloc_lowest (large : 12 ≤ size) (aligned : 4 ∣ size) (bound : size + 12 < 4294967296)
    (reached : (heapSystem raw size).Guarded Calls s) :
    ∃ bs, Owns s.arena bs s.objs ∧ ∀ n, n ≠ 0 → n ≤ 4294967292 →
      ∃ answer r', s.arena.rtMalloc n = some (answer, r') ∧
        ∀ p, answer = some p ↔ ∃ q, p = q + 12 ∧ Suits bs size n q ∧ ∀ q' < q, ¬ Suits bs size n q' := by
  obtain ⟨bs, owns, rfl⟩ := reached_owns large aligned bound reached
  refine ⟨bs, owns, ?_⟩
  intro n positive small
  obtain ⟨answer, r', called, lowest⟩ := owns.good.rtMalloc_lowest positive small
  refine ⟨answer, r', called, ?_⟩
  intro p
  rcases lowest with ⟨rfl, nothing⟩ | ⟨q, rfl, suits, lowest⟩
  · constructor
    · intro answer
      cases answer
    · rintro ⟨q, -, suits, -⟩
      exact absurd suits (nothing q)
  · constructor
    · intro answer
      exact ⟨q, (Option.some.inj answer).symm, suits, lowest⟩
    · rintro ⟨q', rfl, suits', lowest'⟩
      rcases Nat.lt_trichotomy q q' with below | rfl | above
      · exact absurd suits (lowest' q below)
      · rfl
      · exact absurd suits' (lowest q' above)

/-- Of the three holes at 0, 48 and 124, the first is too small for forty bytes. -/
theorem malloc_lowest_fragmented :
    ∃ s bs, fragmented = some s ∧ Owns s.arena bs s.objs ∧ Suits bs 200 40 48 ∧
      ¬ Suits bs 200 40 0 ∧ ∃ r', s.arena.rtMalloc 40 = some (some 60, r') := by
  obtain ⟨s, ran, reached⟩ := fragmented_reached
  obtain ⟨bs, owns, answers⟩ := malloc_lowest (by decide) (by decide) (by decide) reached
  obtain ⟨answer, r', called, lowest⟩ := answers 40 (by decide) (by decide)
  have found : (fragmented.bind fun s => (s.arena.rtMalloc 40).bind Prod.fst) = some 60 := by decide +kernel
  rw [ran, Option.bind_some, called] at found
  change answer = _ at found
  obtain ⟨q, same, suits, below⟩ := (lowest 60).mp found
  obtain rfl : 48 = q := by omega
  exact ⟨s, bs, ran, owns, suits, below 0 (by decide), r', by rw [called, found]⟩

/-- A block that was taken and given back leaves the heap as able as it was. -/
theorem turn_without_trace {n p : Nat} {r₁ : Arena} {bytes : Nat → UInt8} (large : 12 ≤ size) (aligned : 4 ∣ size)
    (bound : size + 12 < 4294967296) (reached : (heapSystem raw size).Guarded Calls s) (small : n ≤ 4294967292)
    (got : s.arena.rtMalloc n = some (some p, r₁))
    (stored : ∀ x, x < p ∨ p + n ≤ x → bytes x = r₁.bytes x) :
    ∃ r₂, Arena.rtFree { r₁ with bytes } (some p) = some r₂ ∧ r₂.lfree = s.arena.lfree ∧
      r₂.usedMem = s.arena.usedMem ∧ ∀ acts, (heapSystem raw size).Meets Calls acts s →
        answers acts { s with arena := r₂ } = answers acts s := by
  obtain ⟨bs, owns, -⟩ := reached_owns large aligned bound reached
  obtain ⟨r₂, freed, served, same⟩ := owns.malloc_free small got stored
  refine ⟨r₂, freed, ?_, ?_, ?_⟩
  · exact served.good.layout.lfree_eq.trans owns.good.layout.lfree_eq.symm
  · rw [served.good.used_eq, owns.good.used_eq]
  · intro acts meets
    exact Alike.answers_eq ⟨owns, served, same, rfl⟩ meets

theorem turn_without_trace_fragmented :
    ∃ s r₁ r₂, fragmented = some s ∧ s.arena.rtMalloc 40 = some (some 60, r₁) ∧
      Arena.rtFree { r₁ with bytes := Function.update r₁.bytes 61 9 } (some 60) = some r₂ ∧
      answers [.malloc 50, .malloc 12] { s with arena := r₂ } = [some 136, some 12] := by
  obtain ⟨s, ran, reached⟩ := fragmented_reached
  have found : (fragmented.bind fun s => (s.arena.rtMalloc 40).bind Prod.fst) = some 60 := by decide +kernel
  have later : fragmented.map (answers [.malloc 50, .malloc 12]) = some [some 136, some 12] := by decide +kernel
  have allowed : ∀ t ∈ fragmented, (heapSystem (fun _ => 0) 200).Meets Calls [.malloc 50, .malloc 12] t := by
    have meets : (heapSystem (fun _ => 0) 200).Meets Calls (fragmenting ++ [.malloc 50, .malloc 12])
      (heapSystem (fun _ => 0) 200).start := by decide +kernel
    exact meets.append.2
  rw [ran] at found later
  rw [Option.bind_some] at found
  obtain ⟨⟨answer, r₁⟩, got, place⟩ := Option.bind_eq_some_iff.mp found
  obtain rfl : answer = some 60 := place
  have stored : ∀ x, x < 60 ∨ 60 + 40 ≤ x → Function.update r₁.bytes 61 9 x = r₁.bytes x := by
    intro x outside
    exact Function.update_of_ne (by omega) _ _
  obtain ⟨r₂, freed, -, -, same⟩ :=
    turn_without_trace (by decide) (by decide) (by decide) reached (by decide) got stored
  exact ⟨s, r₁, r₂, ran, got, freed, (same _ (allowed s ran)).trans (Option.some.inj later)⟩

/-- A run that gives everything back ends with the heap it started with, and the counters are right. -/
theorem heap_restored (large : 12 ≤ size) (aligned : 4 ∣ size) (bound : size + 12 < 4294967296)
    (reached : (heapSystem raw size).Guarded Calls s) :
    (s.arena.usedMem = 0 ↔ s.objs = []) ∧ s.arena.usedMem ≤ s.arena.maxMem ∧ s.arena.maxMem ≤ size + 12 ∧
      (s.objs = [] → ∀ acts, (heapSystem raw size).Meets Calls acts (heapSystem raw size).start →
        answers acts s = answers acts (heapSystem raw size).start) := by
  obtain ⟨bs, owns, same⟩ := reached_owns large aligned bound reached
  have ends : total bs = size + 12 := by
    rw [← same]
    exact owns.good.layout.total_eq
  have some : bs ≠ [] := by
    rintro rfl
    rw [total] at ends
    omega
  have bounds := owns.good.max_bounds
  rw [ends] at bounds
  refine ⟨⟨?_, ?_⟩, bounds.1, bounds.2, ?_⟩
  · intro zero
    rw [List.eq_nil_iff_forall_not_mem]
    intro o member
    obtain ⟨q, t, -, spot, -⟩ := owns.blocks o member
    obtain ⟨xs, ys, rfl, -⟩ := mem_spots.mp spot
    have positive := (Heap.sized_cons.mp (Heap.sized_append.mp owns.good.layout.sized).2).1.1
    rw [owns.good.used_eq, usedSize_append, Arena.usedSize_cons_true] at zero
    dsimp only at positive
    omega
  · intro nothing
    rw [nothing] at owns
    rw [owns.good.used_eq, owns.empty some, Arena.usedSize_cons_false, usedSize]
  · intro nothing acts meets
    have whole : bs = [⟨false, size + 12⟩] := by
      rw [nothing] at owns
      rw [owns.empty some, ends]
    rw [whole] at owns
    refine Alike.answers_eq ⟨init_owns raw large aligned bound, owns, same, ?_⟩ meets
    rw [nothing]
    rfl

/-- Two objects are left of the fragmented heap. Once they are given back too, it is the heap from the start. -/
theorem heap_restored_fragmented :
    ∃ s, (fragmented.bind fun s => (heapSystem (fun _ => 0) 200).run [.free 36, .free 112] s) = some s ∧
      s.arena.usedMem = 0 ∧ answers [.malloc 180] s = [some 12] := by
  have run : fragmented.bind (fun s => (heapSystem (fun _ => 0) 200).run [.free 36, .free 112] s) =
      (heapSystem (fun _ => 0) 200).run (fragmenting ++ [.free 36, .free 112]) (heapSystem (fun _ => 0) 200).start :=
    (System.run_append _ _ _).symm
  have empty : ((heapSystem (fun _ => 0) 200).run (fragmenting ++ [.free 36, .free 112])
      (heapSystem (fun _ => 0) 200).start).map (fun s => s.objs.isEmpty) = some true := by decide +kernel
  obtain ⟨s, ran, nothing⟩ := Option.map_eq_some_iff.mp empty
  have reached : (heapSystem (fun _ => 0) 200).Guarded Calls s :=
    System.guarded_of_run .start (by decide +kernel) ran
  obtain ⟨counter, -, -, restored⟩ := heap_restored (by decide) (by decide) (by decide) reached
  have left : s.objs = [] := List.isEmpty_iff.mp nothing
  refine ⟨s, run.trans ran, counter.mpr left, ?_⟩
  rw [restored left [.malloc 180] (by decide +kernel)]
  decide +kernel

end Runs

end BleSpeaker.Kernel
