import BleSpeaker.Kernel.Kservice
import BleSpeaker.Kernel.Release

/-!
# The headers in memory

The heap as `mem.c` has it: one array of bytes in which the headers lie between the data. A header is a
`struct heap_mem` of 12 bytes, and what the allocator does to the headers is a list of stores into their
fields, in the order of the source. Where all these headers are those of one list of blocks, they do not
overlap, and reading the headers back gives what `Heap` computes: `readHeader_pokeAll`.
-/

namespace BleSpeaker.Kernel
open Lib

inductive Field where
  | magic
  | used
  | next
  | prev

structure Write where
  header : Nat
  field : Field
  value : Nat

/-- `HEAP_MAGIC` -/
def heapMagic : Nat := 7840

def poke (m : Nat → UInt8) : Write → Nat → UInt8
  | ⟨header, .magic, value⟩ => setHalf m header value
  | ⟨header, .used, value⟩ => setHalf m (header + 2) value
  | ⟨header, .next, value⟩ => setWord m (header + 4) value
  | ⟨header, .prev, value⟩ => setWord m (header + 8) value

def pokeAll (m : Nat → UInt8) (ws : List Write) : Nat → UInt8 := ws.foldl poke m

def readMagic (m : Nat → UInt8) (a : Nat) : Nat := half m a

def readHeader (m : Nat → UInt8) (a : Nat) : HeapMem where
  used := half m (a + 2) != 0
  next := word m (a + 4)
  prev := word m (a + 8)

/-- The same store into headers that do not share any bytes. -/
def assign (mem : Nat → HeapMem) : Write → Nat → HeapMem
  | ⟨_, .magic, _⟩ => mem
  | ⟨header, .used, value⟩ => Function.update mem header { mem header with used := value != 0 }
  | ⟨header, .next, value⟩ => Function.update mem header { mem header with next := value }
  | ⟨header, .prev, value⟩ => Function.update mem header { mem header with prev := value }

def assignAll (mem : Nat → HeapMem) (ws : List Write) : Nat → HeapMem := ws.foldl assign mem

/-- What the allocator stores: halfwords and words, and no other magic than its own. -/
def Write.Sound : Write → Prop
  | ⟨_, .magic, value⟩ => value = heapMagic
  | ⟨_, .used, value⟩ => value < 65536
  | ⟨_, .next, value⟩ => value < 4294967296
  | ⟨_, .prev, value⟩ => value < 4294967296

variable {m : Nat → UInt8} {mem mem' : Nat → HeapMem} {w : Write} {ws : List Write} {a x : Nat}

/-! ### One store -/

theorem poke_outside (outside : x < w.header ∨ w.header + 12 ≤ x) : poke m w x = m x := by
  obtain ⟨header, field, value⟩ := w
  dsimp only at outside
  cases field with
  | magic => exact setHalf_outside (by omega)
  | used => exact setHalf_outside (by omega)
  | next => exact setWord_outside (by omega)
  | prev => exact setWord_outside (by omega)

theorem readHeader_congr {m' : Nat → UInt8} (same : ∀ x, a ≤ x → x < a + 12 → m' x = m x) :
    readHeader m' a = readHeader m a := by
  have used : half m' (a + 2) = half m (a + 2) :=
    half_congr (same _ (by omega) (by omega)) (same _ (by omega) (by omega))
  have next : word m' (a + 4) = word m (a + 4) := word_congr fun i _ => same _ (by omega) (by omega)
  have prev : word m' (a + 8) = word m (a + 8) := word_congr fun i _ => same _ (by omega) (by omega)
  rw [readHeader, readHeader, used, next, prev]

theorem assign_apart (apart : a ≠ w.header) : assign mem w a = mem a := by
  obtain ⟨header, field, value⟩ := w
  cases field with
  | magic => rfl
  | used => exact Function.update_of_ne apart _ _
  | next => exact Function.update_of_ne apart _ _
  | prev => exact Function.update_of_ne apart _ _

theorem assign_congr (same : mem' a = mem a) : assign mem' w a = assign mem w a := by
  by_cases here : a = w.header
  · obtain ⟨header, field, value⟩ := w
    obtain rfl : a = header := here
    cases field with
    | magic => exact same
    | used => rw [assign, assign, Function.update_self, Function.update_self, same]
    | next => rw [assign, assign, Function.update_self, Function.update_self, same]
    | prev => rw [assign, assign, Function.update_self, Function.update_self, same]
  · rw [assign_apart here, assign_apart here, same]

/-- Two headers that are one or do not share any bytes. -/
def Clear (a b : Nat) : Prop := a = b ∨ a + 12 ≤ b ∨ b + 12 ≤ a

theorem readHeader_poke (sound : w.Sound) (clear : Clear a w.header) :
    readHeader (poke m w) a = assign (readHeader m) w a := by
  rcases clear with here | apart
  · obtain ⟨header, field, value⟩ := w
    obtain rfl : a = header := here
    cases field with
    | magic =>
      rw [poke, assign, readHeader, readHeader, half_setHalf_apart (by omega), word_setHalf_apart (by omega),
        word_setHalf_apart (by omega)]
    | used =>
      rw [poke, assign, Function.update_self, readHeader, readHeader, half_setHalf _ _ sound,
        word_setHalf_apart (by omega), word_setHalf_apart (by omega)]
    | next =>
      rw [poke, assign, Function.update_self, readHeader, readHeader, half_setWord_apart (by omega),
        word_setWord _ _ sound, word_setWord_apart (by omega)]
    | prev =>
      rw [poke, assign, Function.update_self, readHeader, readHeader, half_setWord_apart (by omega),
        word_setWord _ _ sound, word_setWord_apart (by omega)]
  · rw [assign_apart (by omega)]
    exact readHeader_congr fun x _ _ => poke_outside (by omega)

theorem readMagic_poke (sound : w.Sound) (clear : Clear a w.header)
    (magic : readMagic m a = heapMagic ∨ (a = w.header ∧ w.field = .magic)) :
    readMagic (poke m w) a = heapMagic := by
  rcases clear with here | apart
  · obtain ⟨header, field, value⟩ := w
    obtain rfl : a = header := here
    cases field with
    | magic =>
      obtain rfl : value = heapMagic := sound
      exact half_setHalf _ _ (by decide)
    | used =>
      obtain magic | ⟨-, same⟩ := magic
      · exact (half_setHalf_apart (by omega)).trans magic
      · cases same
    | next =>
      obtain magic | ⟨-, same⟩ := magic
      · exact (half_setWord_apart (by omega)).trans magic
      · cases same
    | prev =>
      obtain magic | ⟨-, same⟩ := magic
      · exact (half_setWord_apart (by omega)).trans magic
      · cases same
  · obtain magic | ⟨here, -⟩ := magic
    · exact (half_congr (poke_outside (by omega)) (poke_outside (by omega))).trans magic
    · omega

/-! ### Many stores -/

/-- Stores into headers at the addresses of `P`, which lie apart. -/
structure Stores (P : Nat → Prop) (ws : List Write) : Prop where
  spaced : ∀ a b, P a → P b → Clear a b
  within : ∀ w ∈ ws, P w.header ∧ w.Sound

variable {P : Nat → Prop}

theorem Stores.tail (stores : Stores P (w :: ws)) : Stores P ws :=
  ⟨stores.spaced, fun v member => stores.within v (List.mem_cons_of_mem w member)⟩

theorem assignAll_congr (same : mem' a = mem a) : assignAll mem' ws a = assignAll mem ws a := by
  induction ws generalizing mem mem' with
  | nil => exact same
  | cons w ws ih => exact ih (assign_congr same)

/-- Reading the headers back. -/
theorem readHeader_pokeAll (stores : Stores P ws) (here : P a) :
    readHeader (pokeAll m ws) a = assignAll (readHeader m) ws a := by
  induction ws generalizing m with
  | nil => rfl
  | cons w ws ih =>
    obtain ⟨place, sound⟩ := stores.within w List.mem_cons_self
    have first := readHeader_poke (m := m) sound (stores.spaced a _ here place)
    calc readHeader (pokeAll (poke m w) ws) a
        = assignAll (readHeader (poke m w)) ws a := ih stores.tail
      _ = assignAll (assign (readHeader m) w) ws a := assignAll_congr first

theorem readMagic_pokeAll (stores : Stores P ws) (here : P a)
    (magic : readMagic m a = heapMagic ∨ ∃ w ∈ ws, a = w.header ∧ w.field = .magic) :
    readMagic (pokeAll m ws) a = heapMagic := by
  induction ws generalizing m with
  | nil =>
    obtain magic | ⟨w, member, -⟩ := magic
    · exact magic
    · cases member
  | cons w ws ih =>
    obtain ⟨place, sound⟩ := stores.within w List.mem_cons_self
    have clear := stores.spaced a _ here place
    apply ih stores.tail
    rcases magic with magic | ⟨v, member, same, field⟩
    · exact Or.inl (readMagic_poke sound clear (Or.inl magic))
    · rcases List.mem_cons.mp member with rfl | later
      · exact Or.inl (readMagic_poke sound clear (Or.inr ⟨same, field⟩))
      · exact Or.inr ⟨v, later, same, field⟩

/-- All that changes lies in headers. -/
theorem pokeAll_outside (stores : Stores P ws) (outside : ∀ b, P b → x < b ∨ b + 12 ≤ x) :
    pokeAll m ws x = m x := by
  induction ws generalizing m with
  | nil => rfl
  | cons w ws ih =>
    exact (ih stores.tail).trans (poke_outside (outside _ (stores.within w List.mem_cons_self).1))

/-! ### The headers of a list of blocks -/

namespace Heap
variable {h : Heap} {bs xs ys : List Block} {b p q last turns : Nat}

theorem boundary_clear (sized : Sized bs) (first : Boundary a p bs) (second : Boundary b p bs) : Clear a b := by
  induction bs generalizing p with
  | nil =>
    rw [Boundary] at first second
    exact Or.inl (first.trans second.symm)
  | cons c bs ih =>
    rw [sized_cons] at sized
    rcases first with rfl | first
    · rcases second with rfl | second
      · exact Or.inl rfl
      · have bound := second.bounds.1
        exact Or.inr (Or.inl (by omega))
    · rcases second with rfl | second
      · have bound := first.bounds.1
        exact Or.inr (Or.inr (by omega))
      · exact ih sized.2 first second

theorem boundary_next (chain : Chain mem p q bs) (boundary : Boundary a p bs) (inside : a ≠ p + total bs) :
    Boundary (mem a).next p bs := by
  induction bs generalizing p q with
  | nil => exact absurd boundary inside
  | cons c bs ih =>
    obtain ⟨here, later⟩ := chain
    rw [total, ← Nat.add_assoc] at inside
    rcases boundary with rfl | boundary
    · rw [here]
      exact Or.inr (boundary_start _ _)
    · exact Or.inr (ih later boundary inside)

theorem boundary_prev (chain : Chain mem 0 0 bs) (boundary : Boundary a 0 bs) (inside : a ≠ total bs) :
    Boundary (mem a).prev 0 bs := by
  have general : ∀ (cs : List Block) (p q : Nat), Chain mem p q cs → Boundary a p cs → a ≠ p + total cs →
      (mem a).prev = q ∨ Boundary (mem a).prev p cs := by
    intro cs
    induction cs with
    | nil =>
      intro p q _ boundary inside
      exact absurd boundary inside
    | cons c cs ih =>
      intro p q chain boundary inside
      obtain ⟨here, later⟩ := chain
      rw [total, ← Nat.add_assoc] at inside
      rcases boundary with rfl | boundary
      · exact Or.inl (by rw [here])
      · rcases ih _ _ later boundary inside with before | behind
        · exact Or.inr (Or.inl before)
        · exact Or.inr (Or.inr behind)
  rcases general bs 0 0 chain boundary (by omega) with first | later
  · rw [first]
    exact boundary_start _ _
  · exact later

theorem chain_boundary (same : ∀ a, Boundary a p bs → mem' a = mem a) (chain : Chain mem p q bs) :
    Chain mem' p q bs := by
  induction bs generalizing p q with
  | nil => trivial
  | cons c bs ih =>
    obtain ⟨here, later⟩ := chain
    exact ⟨(same p (Or.inl rfl)).trans here, ih (fun a boundary => same a (Or.inr boundary)) later⟩

theorem nextFree_congr (same : ∀ a, Boundary a 0 bs → mem' a = mem a) (chain : Chain mem 0 0 bs)
    (ends : total bs = last) (boundary : Boundary a 0 bs) :
    nextFree mem' last turns a = nextFree mem last turns a := by
  induction turns generalizing a with
  | zero => rfl
  | succ turns ih =>
    rw [nextFree, nextFree, same a boundary]
    split
    · rename_i going
      exact ih (boundary_next chain boundary (by omega))
    · rfl

/-- A layout is a matter of the headers of its blocks. -/
theorem Layout.congr {h' : Heap} (layout : Layout h bs) (same : ∀ a, Boundary a 0 bs → h'.mem a = h.mem a)
    (lfree : h'.lfree = h.lfree) (size : h'.memSizeAligned = h.memSizeAligned) : Layout h' bs := by
  have last : h'.heapEnd = h.heapEnd := by rw [heapEnd, size, heapEnd]
  have ends : Boundary h.heapEnd 0 bs := by
    have boundary := boundary_between bs []
    rw [List.append_nil, layout.total_eq] at boundary
    exact boundary
  exact
    { chain := chain_boundary same layout.chain
      total_eq := layout.total_eq.trans last.symm
      sized := layout.sized
      last_used := by rw [last, same _ ends, layout.last_used]
      last_next := by rw [last, same _ ends, layout.last_next]
      large := by rw [size]; exact layout.large
      bound := by rw [last]; exact layout.bound
      tidy := layout.tidy
      lfree_eq := lfree.trans layout.lfree_eq }

end Heap

end BleSpeaker.Kernel
