import BleSpeaker.Clock.ChangeTime
import BleSpeaker.Kernel.Heap
import BleSpeaker.Lib.Memory

/-!
# Where `changeTime` stores the tokens

The loop of `changeTime` copies token after token into slot after slot, whatever their number and
length. Here each `strcpy` is the list of its stores, each with its slot and its index in the block of
that slot. `timeStores_inside_iff` says for which messages the stores stay in the six blocks.
-/

namespace BleSpeaker.Clock
open Ble Kernel Lib

/-- The stores of `while(token!=NULL)`, each with the `cnt` of its slot. -/
def slotStores (cnt : Nat) : List (List UInt8) → List (Nat × Store)
  | [] => []
  | token :: rest => (copyStores 0 (token ++ [0])).map (cnt, ·) ++ slotStores (cnt + 1) rest

def timeStores (timeInput : List UInt8) : List (Nat × Store) :=
  slotStores 0 (tokens spl (cstr (rtStrncpy maxStr (timeInput.drop 1))))

/-- The size of the block that `rt_malloc` hands out for the four bytes of a field. -/
def fieldBlock : Nat := if rtAlign 4 < minSizeAligned then minSizeAligned else rtAlign 4

def storeSlots (slots : List Nat) (mem : List UInt8) (stores : List (Nat × Store)) : List UInt8 :=
  stores.foldl (fun mem x => mem.set (slots.getD x.1 0 + x.2.index) x.2.byte) mem

variable {mem : List UInt8} {slots : List Nat} {toks : List (List UInt8)} {cnt : Nat}

/-! ### The stores are those of the loop -/

theorem splice_eq_storeSlots (slots : List Nat) (mem bytes : List UInt8) (cnt start : Nat) :
    splice mem (slots.getD cnt 0 + start) bytes =
      storeSlots slots mem ((copyStores start bytes).map (cnt, ·)) := by
  induction bytes generalizing mem start with
  | nil => rfl
  | cons b bytes ih =>
    rw [splice, copyStores, List.map_cons, Nat.add_assoc, ih]
    rfl

theorem slot_found (inside : cnt < slots.length) : (slots.map some)[cnt]? = some (some (slots.getD cnt 0)) := by
  rw [List.getElem?_map, List.getD_eq_getElem?_getD, List.getElem?_eq_getElem inside]
  rfl

theorem copyTokens_stores (few : cnt + toks.length ≤ slots.length) :
    copyTokens (slots.map some) mem cnt toks = some (storeSlots slots mem (slotStores cnt toks)) := by
  induction toks generalizing mem cnt with
  | nil => rfl
  | cons token toks ih =>
    rw [List.length_cons] at few
    rw [copyTokens, slot_found (by omega)]
    dsimp only
    rw [ih (by omega), strcpy, ← Nat.add_zero (slots.getD cnt 0), splice_eq_storeSlots, slotStores, storeSlots,
      storeSlots, storeSlots, List.foldl_append]

theorem copyTokens_none (start : cnt ≤ slots.length) (many : slots.length < cnt + toks.length) :
    copyTokens (slots.map some) mem cnt toks = none := by
  induction toks generalizing mem cnt with
  | nil =>
    rw [List.length_nil] at many
    omega
  | cons token toks ih =>
    rw [List.length_cons] at many
    rcases Nat.lt_or_ge cnt slots.length with inside | behind
    · rw [copyTokens, slot_found inside]
      exact ih (by omega) (by omega)
    · have missing : (slots.map some)[cnt]? = none := by
        rw [List.getElem?_map, List.getElem?_eq_none behind]
        rfl
      rw [copyTokens, missing]

/-! ### Bounds -/

theorem token_stores_inside_iff {token : List UInt8} {n size : Nat} :
    (∀ x ∈ (copyStores 0 (token ++ [0])).map (cnt, ·), x.1 < n ∧ x.2.index < size) ↔
      cnt < n ∧ token.length < size := by
  constructor
  · intro inside
    have last : token.length < (token ++ [0]).length := by simp
    obtain ⟨store, member, index⟩ := exists_copyStores 0 last
    have bounds := inside (cnt, store) (List.mem_map_of_mem member)
    dsimp only at bounds
    omega
  · intro bounds x member
    obtain ⟨store, stored, rfl⟩ := List.mem_map.mp member
    have inside := (mem_copyStores stored).2
    rw [List.length_append, List.length_singleton] at inside
    dsimp only
    omega

theorem slotStores_inside_iff {n size : Nat} (start : cnt ≤ n) :
    (∀ x ∈ slotStores cnt toks, x.1 < n ∧ x.2.index < size) ↔
      cnt + toks.length ≤ n ∧ ∀ token ∈ toks, token.length < size := by
  induction toks generalizing cnt with
  | nil => simp [slotStores, start]
  | cons token toks ih =>
    rw [slotStores, List.forall_mem_append, token_stores_inside_iff, List.forall_mem_cons, List.length_cons]
    constructor
    · rintro ⟨⟨first, fits⟩, later⟩
      obtain ⟨count, short⟩ := (ih first).mp later
      exact ⟨by omega, fits, short⟩
    · rintro ⟨count, fits, short⟩
      exact ⟨⟨by omega, fits⟩, (ih (by omega)).mpr ⟨by omega, short⟩⟩

theorem token_lengths_iff {size : Nat} (positive : 0 < size) (p : List UInt8) :
    (∀ token ∈ tokens spl p, token.length < size) ↔
      ∀ run, run <:+: p → run.length = size → ∃ b ∈ run, spl b = true := by
  have tokenized := tokens_tokenized spl p
  constructor
  · intro short run inside length
    by_contra none
    have plain : ∀ b ∈ run, spl b = false := by
      intro b member
      by_contra separates
      exact none ⟨b, member, by simpa using separates⟩
    have nonempty : run ≠ [] := List.ne_nil_of_length_pos (by omega)
    obtain ⟨token, member, within⟩ := tokenized.exists_token nonempty plain inside
    have fits := short token member
    have le := within.length_le
    omega
  · intro separated token member
    obtain ⟨inside, plain⟩ := tokenized.mem_infix token member
    by_contra long
    have start : token.take size <+: token := List.take_prefix _ _
    obtain ⟨b, taken, separates⟩ := separated (token.take size) (start.isInfix.trans inside)
      (List.length_take_of_le (by omega))
    rw [plain b (List.take_subset _ _ taken)] at separates
    exact absurd separates (by decide)

/-- The tokens of a message stay in the six blocks exactly if it has at most six words and no twelve
bytes of it in a row are without a separator. -/
theorem timeStores_inside_iff {p : List UInt8} (rest : List UInt8) (free : 0 ∉ p) (short : p.length ≤ 29) :
    (∀ x ∈ timeStores (84 :: p ++ 0 :: rest), x.1 < 6 ∧ x.2.index < fieldBlock) ↔
      wordStarts spl true p ≤ 6 ∧ ∀ run, run <:+: p → run.length = 12 → ∃ b ∈ run, spl b = true := by
  have string := timeGet_eq rest free short
  have stores : timeStores (84 :: p ++ 0 :: rest) = slotStores 0 (tokens spl p) := by
    rw [timeStores, List.cons_append, List.drop_succ_cons, List.drop_zero, string]
  have block : fieldBlock = 12 := rfl
  have count := (tokens_tokenized spl p).length_eq
  rw [stores, slotStores_inside_iff (by omega), block, count, Nat.zero_add, token_lengths_iff (by decide)]

theorem timeStores_inside_date : wordStarts spl true [50, 48, 50, 50, 45, 48, 53] = 2 ∧
    ∀ x ∈ timeStores (84 :: [50, 48, 50, 50, 45, 48, 53] ++ [0]), x.1 < 6 ∧ x.2.index < fieldBlock := by
  have free : 0 ∉ ([50, 48, 50, 50, 45, 48, 53] : List UInt8) := by decide
  refine ⟨by decide, (timeStores_inside_iff [] free (by decide)).mpr ⟨by decide, ?_⟩⟩
  intro run inside length
  have le := inside.length_le
  rw [length] at le
  exact absurd le (by decide)

/-- Twelve digits in a row: their NUL is stored behind the block of slot 0. -/
theorem timeStores_outside : ¬ ∀ p : List UInt8, 0 ∉ p → 97 ∉ p → p.length ≤ 29 →
    ∀ x ∈ timeStores (84 :: p ++ [0]), x.1 < 6 ∧ x.2.index < fieldBlock := by
  intro always
  have inside := always [50, 48, 50, 50, 48, 53, 49, 53, 49, 50, 48, 48] (by decide) (by decide) (by decide)
    (0, ⟨12, 0⟩) (by decide)
  exact absurd inside.2 (by decide)

end BleSpeaker.Clock
