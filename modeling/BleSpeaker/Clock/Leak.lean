import Mathlib.Data.List.Range
import BleSpeaker.Clock.ChangeTime
import BleSpeaker.Kernel.Objects

/-!
# The blocks of `changeTime`

`u8g2_dst_thread` calls `changeTime` once in each turn of its loop, and `changeTime` starts every
call with six `malloc`s, whether there is a mail or not, and never frees a block. On a heap that
nobody else uses, the `n`-th call gets the six blocks behind those of the calls before it, until the
heap is used up and every pointer is null.

The tokens of a mail are stored into the memory that the headers are in. `fits` are the turns whose
mail leaves the headers alone, because each of its tokens fits the block of its slot with its NUL;
what a longer token makes of the heap is not the subject here.

`liveBlocks_le_six_iff` says in which turns the number of blocks is at most six and a mail finds its
slots: in the first one, and later only on a heap that has room for one call and no more, in the turns
without a mail. On a heap of 4 or 8 bytes there is no second turn, because the first request never
returns.
-/

namespace BleSpeaker.Clock
open Ble Kernel Lib

def mallocs : Nat → Arena → Option (List (Option Nat) × Arena)
  | 0, r => some ([], r)
  | n + 1, r =>
    match r.rtMalloc 4 with
    | none => none
    | some (p, r) => (mallocs n r).map fun x => (p :: x.1, x.2)

/-- The bytes of the heap, with the header at its end. -/
def memory (r : Arena) : List UInt8 := (List.range (r.heapEnd + 12)).map r.bytes

def stored (r : Arena) (mem : List UInt8) : Arena := { r with bytes := fun x => mem.getD x (r.bytes x) }

/-- The bytes of the block that a pointer was handed out for. -/
def blockRoom (r : Arena) (p : Nat) : Nat := (readHeader r.bytes (p - sizeofStructMem)).next - p

/-- The display thread between two turns. `turns` and `live`, the number of turns made and of blocks
that `changeTime` got in them and has not freed, are history. -/
structure Display where
  arena : Arena
  timeParse : List (Option Nat)
  rtc : SoftRtc
  turns : Nat
  live : Nat

structure Turn where
  mail : Option (List UInt8)
  ticks : DateTicks

def timeTokens (timeInput : List UInt8) : List (List UInt8) :=
  tokens spl (cstr (rtStrncpy maxStr (timeInput.drop 1)))

namespace Display

/-- One turn of the loop, as far as it touches the clock and the heap. -/
def iteration (s : Display) (turn : Turn) : Option Display :=
  match mallocs 6 s.arena with
  | none => none
  | some (slots, arena) =>
    (changeTime ⟨memory arena, s.timeParse, s.rtc⟩ slots turn.mail turn.ticks).map fun task =>
      { arena := stored arena task.mem
        timeParse := task.timeParse
        rtc := task.rtc
        turns := s.turns + 1
        live := s.live + slots.countP Option.isSome }

def fits (s : Display) (turn : Turn) : Bool :=
  match mallocs 6 s.arena, turn.mail with
  | some (slots, arena), some timeInput =>
    (slots.zip (timeTokens timeInput)).all fun x => x.1.all fun p => x.2.length < blockRoom arena p
  | _, _ => true

def u8g2DstThread (raw : Nat → UInt8) (size : Nat) (rtc : SoftRtc) : System Display Turn where
  start := { arena := .rtSystemHeapInit raw size, timeParse := List.replicate 6 none, rtc, turns := 0, live := 0 }
  next := iteration

end Display

variable {r r' : Arena} {bs cs : List Block} {k n size : Nat}

/-! ### What the requests get -/

def granted (size k : Nat) : Option Nat := if 24 * k + 12 < size then some (24 * k + 12) else none

/-- The blocks after `k` requests: as long as one more gets its block, they lie side by side. -/
def Bumped (size k : Nat) (bs : List Block) : Prop :=
  (24 * k + 12 < size ∧ bs = List.replicate k ⟨true, 24⟩ ++ [⟨false, size + 12 - 24 * k⟩]) ∨
    (size ≤ 24 * k + 12 ∧ Heap.place size 4 bs = none)

theorem total_replicate (k : Nat) (b : Block) : total (List.replicate k b) = b.size * k := by
  induction k with
  | zero => rfl
  | succ k ih =>
    rw [List.replicate_succ, total, ih, Nat.mul_succ, Nat.add_comm]

/-- Behind `k` used blocks there is at most the last one to look at. -/
theorem place_last (size k : Nat) (b : Block) :
    Heap.place size 4 (List.replicate k ⟨true, 24⟩ ++ [b]) =
      if Heap.fits (size - 12) 12 (24 * k) b then some (24 * k, List.replicate k ⟨true, 24⟩ ++ Heap.carve 12 b)
      else none := by
  have unfit : ∀ x ∈ spots 0 (List.replicate k (⟨true, 24⟩ : Block)), Heap.fits (size - 12) 12 x.1 x.2 = false := by
    rintro ⟨q, c⟩ member
    obtain ⟨xs, ys, same, -⟩ := mem_spots.mp member
    have whole : c ∈ List.replicate k (⟨true, 24⟩ : Block) := by simp [same]
    obtain rfl := List.eq_of_mem_replicate whole
    simp [Heap.fits]
  have twelve : Heap.request 4 = 12 := rfl
  rw [Heap.place, twelve, firstFit_skip unfit, total_replicate, Nat.zero_add, firstFit]
  split
  · simp
  · rfl

theorem bumped_start (large : 12 ≤ size) : Bumped size 0 [⟨false, size + 12⟩] := by
  rcases Nat.lt_or_ge 12 size with room | full
  · exact Or.inl ⟨by omega, rfl⟩
  · refine Or.inr ⟨by omega, ?_⟩
    have last := place_last size 0 ⟨false, size + 12⟩
    rw [if_neg (by simp [Heap.fits]; omega)] at last
    exact last

theorem bumped_carve (room : 24 * k + 12 < size) (aligned : 4 ∣ size) :
    Bumped size (k + 1) (List.replicate k ⟨true, 24⟩ ++ Heap.carve 12 ⟨false, size + 12 - 24 * k⟩) := by
  unfold Heap.carve
  split
  · rename_i split
    dsimp only at split ⊢
    have more : List.replicate k (⟨true, 24⟩ : Block) ++ [⟨true, 12 + 12⟩, ⟨false, size + 12 - 24 * k - (12 + 12)⟩] =
        List.replicate (k + 1) ⟨true, 24⟩ ++ [⟨false, size + 12 - 24 * (k + 1)⟩] := by
      have rest : size + 12 - 24 * k - (12 + 12) = size + 12 - 24 * (k + 1) := by omega
      rw [List.replicate_succ', List.append_assoc, rest]
      rfl
    rw [more]
    rcases Nat.lt_or_ge (24 * (k + 1) + 12) size with next | full
    · exact Or.inl ⟨next, rfl⟩
    · refine Or.inr ⟨full, ?_⟩
      rw [place_last, if_neg (by simp [Heap.fits]; omega)]
  · rename_i whole
    dsimp only at whole
    refine Or.inr ⟨by omega, ?_⟩
    rw [place_last, if_neg (by simp [Heap.fits])]

/-- What holds for each pointer: there is a used block that it was handed out for. -/
def Handed (bs : List Block) (p : Nat) : Prop := ∃ q t, p = q + 12 ∧ (q, ⟨true, t⟩) ∈ spots 0 bs

theorem rtMalloc_granted (good : r.Good bs) (bumped : Bumped r.memSizeAligned k bs) :
    ∃ r' cs, r.rtMalloc 4 = some (granted r.memSizeAligned k, r') ∧ r'.Good cs ∧
      Bumped r.memSizeAligned (k + 1) cs ∧ r'.memSizeAligned = r.memSizeAligned ∧
      (∀ p, Handed bs p → Handed cs p) ∧ ∀ p ∈ granted r.memSizeAligned k, Handed cs p := by
  have aligned : 4 ∣ r.memSizeAligned := by
    have whole := good.layout.sized.four_dvd_total
    have ends : total bs = r.memSizeAligned + 12 := good.layout.total_eq
    omega
  unfold granted
  rcases bumped with ⟨room, rfl⟩ | ⟨full, nothing⟩
  · rw [if_pos room]
    have fit : Heap.fits (r.memSizeAligned - 12) 12 (24 * k) ⟨false, r.memSizeAligned + 12 - 24 * k⟩ = true :=
      Heap.fits_iff.mpr ⟨rfl, by dsimp only; omega, by omega⟩
    have placed := place_last r.memSizeAligned k ⟨false, r.memSizeAligned + 12 - 24 * k⟩
    rw [if_pos fit] at placed
    rcases good.rtMalloc (n := 4) (by decide) (by decide) with ⟨nothing, -⟩ | ⟨p, cs, found, called, good', -⟩
    · rw [placed] at nothing
      cases nothing
    obtain ⟨rfl, rfl⟩ := Prod.mk.inj (Option.some.inj (placed.symm.trans found))
    have large : 12 + 12 ≤ (⟨false, r.memSizeAligned + 12 - 24 * k⟩ : Block).size := by
      dsimp only
      omega
    obtain ⟨t, -, used⟩ := used_carve (List.replicate k ⟨true, 24⟩) [] rfl large
    rw [List.append_nil, total_replicate] at used
    refine ⟨_, _, called, good', bumped_carve room aligned, rfl, ?_, ?_⟩
    · rintro p ⟨q, s, rfl, spot⟩
      exact ⟨q, s, rfl, (used q s).mpr (Or.inl spot)⟩
    · rintro p ⟨⟩
      exact ⟨24 * k, t, rfl, (used _ _).mpr (Or.inr ⟨rfl, rfl⟩)⟩
  · rw [if_neg (by omega)]
    rcases good.rtMalloc (n := 4) (by decide) (by decide) with ⟨-, fails⟩ | ⟨p, cs, found, -, -, -⟩
    · refine ⟨r, bs, fails, good, Or.inr ⟨by omega, nothing⟩, rfl, fun _ => id, ?_⟩
      intro p none
      cases none
    · rw [nothing] at found
      cases found

theorem mallocs_granted (good : r.Good bs) (bumped : Bumped r.memSizeAligned k bs) (n : Nat) :
    ∃ r' cs, mallocs n r = some ((List.range' k n).map (granted r.memSizeAligned), r') ∧ r'.Good cs ∧
      Bumped r.memSizeAligned (k + n) cs ∧ r'.memSizeAligned = r.memSizeAligned ∧
      (∀ p, Handed bs p → Handed cs p) ∧
      ∀ p, some p ∈ (List.range' k n).map (granted r.memSizeAligned) → Handed cs p := by
  induction n generalizing r bs k with
  | zero => exact ⟨r, bs, rfl, good, bumped, rfl, fun _ => id, by simp⟩
  | succ n ih =>
    obtain ⟨r₁, ds, called, good₁, bumped₁, size₁, kept₁, fresh₁⟩ := rtMalloc_granted good bumped
    rw [← size₁] at bumped₁
    obtain ⟨r₂, cs, rest, good₂, bumped₂, size₂, kept₂, fresh₂⟩ := ih good₁ bumped₁
    rw [size₁] at rest bumped₂ size₂ fresh₂
    refine ⟨r₂, cs, ?_, good₂, ?_, size₂, fun p handed => kept₂ p (kept₁ p handed), ?_⟩
    · rw [mallocs, called]
      dsimp only
      rw [rest, List.range'_succ]
      rfl
    · rw [show k + (n + 1) = k + 1 + n by omega]
      exact bumped₂
    · intro p member
      rw [List.range'_succ, List.map_cons, List.mem_cons] at member
      rcases member with first | later
      · exact kept₂ p (fresh₁ p first.symm)
      · exact fresh₂ p later

def capacity (size : Nat) : Nat := (size + 11) / 24

theorem countP_granted (size k n : Nat) :
    ((List.range' k n).map (granted size)).countP Option.isSome + min k (capacity size) =
      min (k + n) (capacity size) := by
  induction n generalizing k with
  | zero => simp
  | succ n ih =>
    have later := ih (k + 1)
    have here : (granted size k).isSome = true ↔ k < capacity size := by
      unfold granted capacity
      split <;> simp <;> omega
    rw [List.range'_succ, List.map_cons, List.countP_cons]
    by_cases room : k < capacity size
    · rw [if_pos (here.mpr room)]
      omega
    · rw [if_neg (fun some => room (here.mp some))]
      omega

/-- A heap of no bytes refuses everything. -/
theorem mallocs_empty (empty : r.memSizeAligned = 0) (k n : Nat) :
    mallocs n r = some ((List.range' k n).map (granted 0), r) := by
  have refused : r.rtMalloc 4 = some (none, r) := by
    rw [Arena.rtMalloc, if_neg (by decide), empty]
    rfl
  induction n generalizing k with
  | zero => rfl
  | succ n ih =>
    rw [mallocs, refused]
    dsimp only
    rw [ih (k + 1), List.range'_succ]
    rfl

/-- On a heap of 4 or 8 bytes the first request never returns. -/
theorem mallocs_endless (raw : Nat → UInt8) (positive : 4 ≤ size) (tiny : size < 12) (aligned : 4 ∣ size) :
    mallocs 6 (.rtSystemHeapInit raw size) = none := by
  rw [mallocs, Arena.init_endless (n := 4) raw positive tiny aligned (by decide) positive]

/-! ### What a mail stores -/

/-- Each `strcpy` stores its token and a NUL. -/
theorem copyTokens_outside {timeParse : List (Option Nat)} {mem mem' : List UInt8} {cnt x : Nat}
    {toks : List (List UInt8)} (copied : copyTokens timeParse mem cnt toks = some mem')
    (outside : ∀ y ∈ (timeParse.drop cnt).zip toks, ∀ p ∈ y.1, x < p ∨ p + y.2.length < x) : mem'[x]? = mem[x]? := by
  induction toks generalizing mem cnt with
  | nil =>
    obtain rfl := Option.some.inj copied
    rfl
  | cons token toks ih =>
    rw [copyTokens] at copied
    split at copied
    · rename_i p here
      obtain ⟨inside, slot⟩ := List.getElem?_eq_some_iff.mp here
      rw [List.drop_eq_getElem_cons inside, slot, List.zip_cons_cons, List.forall_mem_cons] at outside
      rw [ih copied outside.2, getElem?_strcpy, if_neg]
      have apart : x < p ∨ p + token.length < x := outside.1 p rfl
      omega
    · cases copied

theorem changeTime_outside {task done : TimeTask} {slots : List (Option Nat)} {mail : Option (List UInt8)}
    {ticks : DateTicks} {x : Nat} (called : changeTime task slots mail ticks = some done)
    (outside : ∀ timeInput ∈ mail, ∀ y ∈ slots.zip (timeTokens timeInput), ∀ p ∈ y.1, x < p ∨ p + y.2.length < x) :
    done.mem[x]? = task.mem[x]? := by
  unfold changeTime at called
  cases mail with
  | none =>
    obtain rfl := Option.some.inj called
    rfl
  | some timeInput =>
    dsimp only at called
    split at called
    · cases called
    · rename_i mem copied
      have same : mem[x]? = task.mem[x]? := copyTokens_outside copied (outside timeInput rfl)
      split at called
      · cases called
      · split at called
        · obtain rfl := Option.some.inj called
          exact same
        · obtain rfl := Option.some.inj called
          exact same

theorem stored_bytes {mem : List UInt8} {x : Nat} (same : mem[x]? = (memory r)[x]?) :
    (stored r mem).bytes x = r.bytes x := by
  show mem.getD x (r.bytes x) = r.bytes x
  rw [List.getD_eq_getElem?_getD, same, memory, List.getElem?_map]
  cases found : (List.range (r.heapEnd + 12))[x]? with
  | none => rfl
  | some y =>
    obtain ⟨inside, rfl⟩ := List.getElem?_eq_some_iff.mp found
    simp

/-! ### Turn after turn -/

namespace Display
variable {raw : Nat → UInt8} {rtc : SoftRtc} {s t : Display} {turn : Turn}

structure Spent (raw : Nat → UInt8) (size : Nat) (s : Display) : Prop where
  heap : (∃ bs, s.arena.Good bs ∧ Bumped size (6 * s.turns) bs) ∨ size = 0 ∨
    (4 ≤ size ∧ size < 12 ∧ s.arena = .rtSystemHeapInit raw size ∧ s.turns = 0)
  size_eq : s.arena.memSizeAligned = size
  live_eq : s.live = min (6 * s.turns) (capacity size)

theorem start_spent (aligned : 4 ∣ size) (bound : size + 12 < 4294967296) :
    (u8g2DstThread raw size rtc).start.Spent raw size := by
  refine ⟨?_, rfl, (Nat.zero_min _).symm⟩
  rcases Nat.lt_or_ge size 12 with tiny | large
  · right
    rcases Nat.eq_zero_or_pos size with rfl | positive
    · exact Or.inl rfl
    · exact Or.inr ⟨by omega, tiny, rfl, rfl⟩
  · exact Or.inl ⟨_, Arena.init_good raw large aligned bound, bumped_start large⟩

/-- The six pointers of a turn, when the requests return. -/
theorem Spent.slots_eq {slots : List (Option Nat)} (spent : s.Spent raw size) (aligned : 4 ∣ size)
    (requests : mallocs 6 s.arena = some (slots, r)) :
    slots = (List.range' (6 * s.turns) 6).map (granted size) ∧ r.memSizeAligned = size := by
  have same := spent.size_eq
  rcases spent.heap with ⟨bs, good, bumped⟩ | rfl | ⟨positive, tiny, start, -⟩
  · subst same
    obtain ⟨r', cs, called, -, -, size', -, -⟩ := mallocs_granted good bumped 6
    obtain ⟨rfl, rfl⟩ := Prod.mk.inj (Option.some.inj (called.symm.trans requests))
    exact ⟨rfl, size'⟩
  · obtain ⟨rfl, rfl⟩ := Prod.mk.inj (Option.some.inj ((mallocs_empty same (6 * s.turns) 6).symm.trans requests))
    exact ⟨rfl, same⟩
  · rw [start, mallocs_endless raw positive tiny aligned] at requests
    cases requests

theorem Spent.live_after {slots : List (Option Nat)} (spent : s.Spent raw size) (aligned : 4 ∣ size)
    (requests : mallocs 6 s.arena = some (slots, r)) :
    s.live + slots.countP Option.isSome = min (6 * s.turns + 6) (capacity size) := by
  have more := countP_granted size (6 * s.turns) 6
  rw [spent.live_eq, (spent.slots_eq aligned requests).1]
  omega

theorem served_iff (size k : Nat) :
    (∀ p ∈ (List.range' k 6).map (granted size), p ≠ none) ↔ k + 6 ≤ capacity size := by
  rw [List.forall_mem_map]
  unfold granted capacity
  constructor
  · intro served
    have last := served (k + 5) (List.mem_range'_1.mpr ⟨by omega, by omega⟩)
    by_contra
    exact last (if_neg (by omega))
  · intro room j member
    have bound := List.mem_range'_1.mp member
    rw [if_pos (by omega)]
    simp

/-- A mail that fits leaves every header alone. -/
theorem stored_good {slots : List (Option Nat)} {done : TimeTask} {timeParse : List (Option Nat)}
    (good : r.Good bs) (handed : ∀ p, some p ∈ slots → Handed bs p) (requests : mallocs 6 s.arena = some (slots, r))
    (fits : s.fits turn = true)
    (called : changeTime ⟨memory r, timeParse, rtc⟩ slots turn.mail turn.ticks = some done) :
    (stored r done.mem).Good bs := by
  apply good.data
  intro x b boundary low high
  apply stored_bytes
  refine changeTime_outside called ?_
  rintro timeInput mail ⟨slot, token⟩ member p here
  obtain rfl : slot = some p := here
  obtain ⟨q, t, rfl, spot⟩ := handed p (List.of_mem_zip member).1
  rw [Display.fits, requests, mail] at fits
  have room := List.all_eq_true.mp fits _ member
  simp only [Option.all_some, decide_eq_true_eq] at room
  have next : (readHeader r.bytes q).next = q + t := (Heap.chain_at good.layout.chain spot).2
  rw [blockRoom, Heap.sizeofStructMem_eq, Nat.add_sub_cancel, next] at room
  have outside := boundary.outside spot
  dsimp only at outside ⊢
  omega

theorem iteration_spent (spent : s.Spent raw size) (aligned : 4 ∣ size) (fits : s.fits turn = true)
    (turned : s.iteration turn = some t) : t.Spent raw size := by
  unfold iteration at turned
  split at turned
  · cases turned
  · rename_i slots r requests
    obtain ⟨done, called, rfl⟩ := Option.map_eq_some_iff.mp turned
    have same := spent.slots_eq aligned requests
    refine ⟨?_, same.2, ?_⟩
    · rcases spent.heap with ⟨bs, good, bumped⟩ | empty | ⟨positive, tiny, start, -⟩
      · rw [← spent.size_eq] at bumped
        obtain ⟨r', cs, called', good', bumped', -, -, handed⟩ := mallocs_granted good bumped 6
        obtain ⟨rfl, rfl⟩ := Prod.mk.inj (Option.some.inj (called'.symm.trans requests))
        rw [spent.size_eq] at bumped'
        exact Or.inl ⟨cs, stored_good good' handed requests fits called, by rw [Nat.mul_succ]; exact bumped'⟩
      · exact Or.inr (Or.inl empty)
      · rw [start, mallocs_endless raw positive tiny aligned] at requests
        cases requests
    · dsimp only
      rw [spent.live_after aligned requests, Nat.mul_succ]

theorem reached_spent (aligned : 4 ∣ size) (bound : size + 12 < 4294967296)
    (reached : (u8g2DstThread raw size rtc).Guarded (fun s turn => s.fits turn = true) s) : s.Spent raw size :=
  reached.invariant (start_spent aligned bound) fun _ _ _ spent fits turned => iteration_spent spent aligned fits turned

/-- The heap could serve the first call. -/
def ServesFirst (raw : Nat → UInt8) (size : Nat) (rtc : SoftRtc) : Prop :=
  ∃ slots r, mallocs 6 (u8g2DstThread raw size rtc).start.arena = some (slots, r) ∧ ∀ p ∈ slots, p ≠ none

theorem servesFirst_iff (aligned : 4 ∣ size) (bound : size + 12 < 4294967296) :
    ServesFirst raw size rtc ↔ 6 ≤ capacity size := by
  have spent : (u8g2DstThread raw size rtc).start.Spent raw size := start_spent aligned bound
  constructor
  · rintro ⟨slots, r, requests, served⟩
    rw [(spent.slots_eq aligned requests).1] at served
    exact (served_iff size 0).mp served
  · intro room
    have large : 12 ≤ size := by
      unfold capacity at room
      omega
    obtain ⟨r, cs, called, -⟩ :=
      mallocs_granted (Arena.init_good raw large aligned bound) (bumped_start large) 6
    exact ⟨_, r, called, (served_iff size 0).mpr room⟩

/-- In every run of the loop whose mails fit: the next turn leaves at most six blocks and, being a later one
with a mail on a heap that could serve the first, finds its slots, exactly when it is the first turn, or the
heap has no room for a second call and the turn has no mail or the heap is too small for any. -/
theorem liveBlocks_le_six_iff (aligned : 4 ∣ size) (bound : size + 12 < 4294967296)
    (reached : (u8g2DstThread raw size rtc).Guarded (fun s turn => s.fits turn = true) s)
    (mail : Option (List UInt8)) :
    (∀ slots r, mallocs 6 s.arena = some (slots, r) → s.live + slots.countP Option.isSome ≤ 6 ∧
      (ServesFirst raw size rtc → s.turns ≠ 0 → mail ≠ none → ∀ p ∈ slots, p ≠ none)) ↔
      s.turns = 0 ∨ (size ≤ 156 ∧ (mail = none ∨ size < 133)) := by
  have spent := reached_spent aligned bound reached
  rw [servesFirst_iff aligned bound]
  constructor
  · intro bounded
    by_cases start : s.turns = 0
    · exact Or.inl start
    right
    obtain ⟨slots, r, requests⟩ : ∃ slots r, mallocs 6 s.arena = some (slots, r) := by
      rcases spent.heap with ⟨bs, good, bumped⟩ | empty | ⟨-, -, -, first⟩
      · rw [← spent.size_eq] at bumped
        obtain ⟨r, cs, called, -⟩ := mallocs_granted good bumped 6
        exact ⟨_, r, called⟩
      · exact ⟨_, _, mallocs_empty (spent.size_eq.trans empty) 0 6⟩
      · exact absurd first start
    obtain ⟨few, later⟩ := bounded slots r requests
    rw [spent.live_after aligned requests] at few
    rw [(spent.slots_eq aligned requests).1, served_iff] at later
    unfold capacity at few later
    refine ⟨by omega, ?_⟩
    by_cases mailed : mail = none
    · exact Or.inl mailed
    · by_contra room
      have needed := later (by omega) start mailed
      omega
  · intro holds slots r requests
    rw [spent.live_after aligned requests, (spent.slots_eq aligned requests).1, served_iff]
    unfold capacity
    rcases holds with start | ⟨small, quiet | tiny⟩
    · exact ⟨by omega, fun _ again => absurd start again⟩
    · exact ⟨by omega, fun _ _ mailed => absurd quiet mailed⟩
    · exact ⟨by omega, fun served => by omega⟩

def mailTurn : Turn := ⟨some (84 :: timeText leapDay ++ [0]), ⟨⟨5000, 5001⟩, ⟨5002, 5003⟩⟩⟩

/-- A heap of 152 bytes serves one call. After a turn with a time message, a second one without a mail
allocates nothing more. -/
theorem liveBlocks_le_six_second :
    ∃ s slots r, (u8g2DstThread (fun _ => 255) 152 ⟨0, 1514764800⟩).run [mailTurn]
        (u8g2DstThread (fun _ => 255) 152 ⟨0, 1514764800⟩).start = some s ∧ s.turns = 1 ∧
      mallocs 6 s.arena = some (slots, r) ∧ s.live + slots.countP Option.isSome ≤ 6 := by
  have requested : (((u8g2DstThread (fun _ => 255) 152 ⟨0, 1514764800⟩).run [mailTurn]
      (u8g2DstThread (fun _ => 255) 152 ⟨0, 1514764800⟩).start).map fun s =>
        decide (s.turns = 1) && (mallocs 6 s.arena).isSome) = some true := by decide +kernel
  obtain ⟨s, ran, facts⟩ := Option.map_eq_some_iff.mp requested
  obtain ⟨turns, requests⟩ := Bool.and_eq_true_iff.mp facts
  obtain ⟨⟨slots, r⟩, requests⟩ := Option.isSome_iff_exists.mp requests
  have reached : (u8g2DstThread (fun _ => 255) 152 ⟨0, 1514764800⟩).Guarded (fun s turn => s.fits turn = true) s :=
    System.guarded_of_run .start (by decide +kernel) ran
  have quiet := (liveBlocks_le_six_iff (by decide) (by decide) reached none).mpr (Or.inr ⟨by decide, Or.inl rfl⟩)
  exact ⟨s, slots, r, ran, of_decide_eq_true turns, requests, (quiet slots r requests).1⟩

def quietTurn : Turn := ⟨none, ⟨⟨0, 0⟩, ⟨0, 0⟩⟩⟩

/-- Two turns without a mail on a heap of 1000 bytes leave twelve blocks. -/
theorem liveBlocks_twelve :
    ¬ ∀ (raw : Nat → UInt8) (size : Nat) (rtc : SoftRtc) (s : Display) (mail : Option (List UInt8)),
      (u8g2DstThread raw size rtc).Reachable s →
      ∀ slots r, mallocs 6 s.arena = some (slots, r) → s.live + slots.countP Option.isSome ≤ 6 ∧
        (ServesFirst raw size rtc → s.turns ≠ 0 → mail ≠ none → ∀ p ∈ slots, p ≠ none) := by
  intro always
  have counted : (((u8g2DstThread (fun _ => 255) 1000 ⟨0, 1514764800⟩).run [quietTurn]
      (u8g2DstThread (fun _ => 255) 1000 ⟨0, 1514764800⟩).start).bind fun s =>
        (mallocs 6 s.arena).map fun x => s.live + x.1.countP Option.isSome) = some 12 := by decide +kernel
  obtain ⟨s, ran, counted⟩ := Option.bind_eq_some_iff.mp counted
  obtain ⟨⟨slots, r⟩, requests, twelve⟩ := Option.map_eq_some_iff.mp counted
  have bounded := (always _ _ _ s none (System.reachable_of_run ran) slots r requests).1
  change s.live + slots.countP Option.isSome = 12 at twelve
  omega

end Display
end BleSpeaker.Clock
