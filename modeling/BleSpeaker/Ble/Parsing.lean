import Mathlib.Data.List.Induction
import BleSpeaker.Lib.CString
import BleSpeaker.Lib.Segments

/-!
# The receive buffer of `data_parsing`

The body of the loop in `bluetooth.c`, one received byte at a time, with its echo, its stores into
`_data_` and its sends as events. `_data_` is a local array that nothing initialises, so a parser
starts with any 31 bytes. `Holds` relates the buffer to the segment received so far; it is what
every result about the parser rests on.

A store past the array is kept as an event and has no effect on `data`: what it hits is not part
of the buffer.
-/

namespace BleSpeaker.Ble
open Lib

/-- `DATA_CMD_END`, the character `a`. -/
def dataCmdEnd : UInt8 := 97

/-- `ONE_DATA_MAXLEN`; the macro is `30+1` without brackets, which `ONE_DATA_MAXLEN - 1` survives. -/
def oneDataMaxlen : Nat := 30 + 1

inductive Box where
  | mb6288 | mbOled | mbTime
  deriving DecidableEq, Repr

structure Parser where
  data : List UInt8
  i : Nat
  data_length : data.length = oneDataMaxlen
  deriving DecidableEq

namespace Parser
variable {p : Parser} {seg : List UInt8} {ch : UInt8}

def restart (p : Parser) : Parser := { p with i := 0 }

def payloadIndex (p : Parser) : Nat :=
  if p.i ≥ oneDataMaxlen - 1 then oneDataMaxlen - 1 else p.i

def storePayload (p : Parser) (ch : UInt8) : Parser where
  data := p.data.set p.payloadIndex ch
  i := p.payloadIndex + 1
  data_length := by rw [List.length_set, p.data_length]

def storeEnd (p : Parser) : Parser where
  data := p.data.set p.i 0
  i := p.i + 1
  data_length := by rw [List.length_set, p.data_length]

def zeroed : Parser := ⟨List.replicate 31 0, 0, rfl⟩

theorem storeEnd_data (p : Parser) : p.storeEnd.data = p.data.set p.i 0 := rfl

end Parser

/-- The boxes that get the address of `_data_`, in the order of the sends. 84 is `T`, 91 is `[`. -/
def route (data : List UInt8) : List Box :=
  if data[0]? ≠ some 84 ∧ strchr data 91 = none then [.mb6288, .mbOled]
  else if data[0]? = some 84 then [.mbTime]
  else [.mb6288]

inductive Event where
  | echo (ch : UInt8)
  | store (index : Nat) (b : UInt8)
  | mail (box : Box) (data : List UInt8)
  deriving DecidableEq

def parseByte (p : Parser) (ch : UInt8) : Parser × List Event :=
  if ch = dataCmdEnd then
    (p.storeEnd.restart,
      [.echo ch, .store p.i 0] ++ (route p.storeEnd.data).map (.mail · p.storeEnd.data))
  else (p.storePayload ch, [.echo ch, .store p.payloadIndex ch])

def dataParsing (p : Parser) : List UInt8 → Parser × List Event
  | [] => (p, [])
  | ch :: rest =>
    let (q, first) := parseByte p ch
    let (r, later) := dataParsing q rest
    (r, first ++ later)

theorem dataParsing_snoc (p : Parser) (s : List UInt8) (ch : UInt8) :
    dataParsing p (s ++ [ch]) =
      ((parseByte (dataParsing p s).1 ch).1,
        (dataParsing p s).2 ++ (parseByte (dataParsing p s).1 ch).2) := by
  induction s generalizing p with
  | nil => simp [dataParsing]
  | cons c s ih => simp [dataParsing, ih]

/-! ### What the buffer holds -/

/-- `seg` has been received since the last terminator. Its first 30 bytes are in place; from the
31st byte on every further byte lands on the last place of the array. -/
structure Parser.Holds (p : Parser) (seg : List UInt8) : Prop where
  i_eq : p.i = min seg.length 31
  first : p.data.take (min seg.length 30) = seg.take 30
  last : 31 ≤ seg.length → p.data[30]? = seg.getLast?

namespace Parser
variable {p : Parser} {seg : List UInt8} {ch : UInt8}

theorem holds_restart (p : Parser) : p.restart.Holds [] :=
  ⟨rfl, by simp, by simp⟩

theorem Holds.payloadIndex_eq (h : p.Holds seg) : p.payloadIndex = min seg.length 30 := by
  have := h.i_eq
  unfold payloadIndex oneDataMaxlen
  split <;> omega

theorem Holds.storePayload (h : p.Holds seg) : (p.storePayload ch).Holds (seg ++ [ch]) := by
  have index := h.payloadIndex_eq
  have size := p.data_length
  unfold oneDataMaxlen at size
  have first := h.first
  refine ⟨?_, ?_, ?_⟩
  · simp only [Parser.storePayload, index, List.length_append, List.length_singleton]
    omega
  · simp only [Parser.storePayload, index, List.length_append, List.length_singleton]
    rcases Nat.lt_or_ge seg.length 30 with short | long
    · have whole : seg.take 30 = seg := List.take_of_length_le (by omega)
      rw [Nat.min_eq_left (by omega), whole] at first
      rw [Nat.min_eq_left (by omega), Nat.min_eq_left (by omega), List.set_eq_take_append_cons_drop,
        if_pos (by omega), first, List.take_append, List.take_append, whole, List.take_of_length_le (by omega),
        show seg.length + 1 - seg.length = 1 by omega, show 30 - seg.length = (29 - seg.length) + 1 by omega]
      simp
    · rw [Nat.min_eq_right (by omega)] at first
      rw [Nat.min_eq_right (by omega), Nat.min_eq_right (by omega), List.take_set_of_le (by omega), first,
        List.take_append_of_le_length (by omega)]
  · intro long
    simp only [List.length_append, List.length_singleton] at long
    simp only [Parser.storePayload, index]
    rw [Nat.min_eq_right (by omega), List.getElem?_set_self (by omega), List.getLast?_concat]

theorem Holds.storeEnd_short (h : p.Holds seg) (fits : seg.length ≤ 30) :
    p.storeEnd.data = seg ++ 0 :: p.data.drop (seg.length + 1) := by
  have first := h.first
  have size := p.data_length
  unfold oneDataMaxlen at size
  rw [Nat.min_eq_left fits, List.take_of_length_le fits] at first
  rw [storeEnd_data, h.i_eq, Nat.min_eq_left (by omega), List.set_eq_take_append_cons_drop,
    if_pos (by omega), first]

/-- A longer one fills the array, and the NUL is stored behind it. -/
theorem Holds.storeEnd_long (h : p.Holds seg) (long : 31 ≤ seg.length) :
    p.storeEnd.data = seg.take 30 ++ seg.getLast?.toList := by
  have size := p.data_length
  have first := h.first
  unfold oneDataMaxlen at size
  rw [Nat.min_eq_right (by omega)] at first
  rw [storeEnd_data, h.i_eq, Nat.min_eq_right long, List.set_eq_of_length_le (by omega), ← first,
    ← h.last long, ← List.take_add_one, List.take_of_length_le (by omega)]

theorem holds_parseByte (h : p.Holds seg) (ch : UInt8) :
    (parseByte p ch).1.Holds (if ch = dataCmdEnd then [] else seg ++ [ch]) := by
  unfold parseByte
  split
  · exact holds_restart _
  · exact h.storePayload

theorem holds_dataParsing (p : Parser) (s : List UInt8) :
    (dataParsing p.restart s).1.Holds (unfinished dataCmdEnd s) := by
  induction s using List.reverseRecOn with
  | nil => exact holds_restart p
  | append_singleton s ch ih =>
    rw [dataParsing_snoc]
    have next := holds_parseByte ih ch
    by_cases ends : ch = dataCmdEnd
    · subst ends
      rw [if_pos rfl] at next
      rwa [unfinished_snoc_sep]
    · rwa [if_neg ends, ← unfinished_snoc_ne ends] at next

end Parser

/-! ### Stores and mails inside the array -/

/-- A store is inside `_data_`; a mail finds a NUL inside `_data_`. -/
def Event.InBounds : Event → Prop
  | .echo _ => True
  | .store index _ => index < 31
  | .mail _ data => ∃ k ≤ 30, data[k]? = some 0

instance : DecidablePred Event.InBounds
  | .echo _ => .isTrue trivial
  | .store index _ => inferInstanceAs (Decidable (index < 31))
  | .mail _ data => decidable_of_iff (∃ k < 31, data[k]? = some 0) (by simp [Event.InBounds, Nat.lt_succ_iff])

namespace Parser
variable {p : Parser} {seg : List UInt8} {ch : UInt8}

theorem Holds.payload_inBounds (h : p.Holds seg) (payload : ch ≠ dataCmdEnd) :
    ∀ e ∈ (parseByte p ch).2, e.InBounds := by
  have index := h.payloadIndex_eq
  simp only [parseByte, if_neg payload, List.forall_mem_cons, List.not_mem_nil, false_implies, implies_true, and_true]
  refine ⟨trivial, ?_⟩
  show p.payloadIndex < 31
  omega

theorem Holds.end_inBounds (h : p.Holds seg) :
    (∀ e ∈ (parseByte p dataCmdEnd).2, e.InBounds) ↔ seg.length ≤ 30 := by
  constructor
  · intro inside
    have stored : (Event.store p.i 0).InBounds := inside _ (by simp [parseByte])
    have index := h.i_eq
    change p.i < 31 at stored
    omega
  · intro fits e member
    have data := h.storeEnd_short fits
    have index := h.i_eq
    simp only [parseByte, if_true, List.mem_append, List.mem_cons, List.not_mem_nil, or_false, List.mem_map] at member
    rcases member with (rfl | rfl) | ⟨box, _, rfl⟩
    · trivial
    · show p.i < 31
      omega
    · exact ⟨seg.length, fits, by rw [data]; simp⟩

end Parser

/-- Over every stream: all stores of `data_parsing` are inside `_data_`, and every mail finds a NUL
there, exactly when every terminated segment has at most 30 bytes. -/
theorem dataParsing_inBounds (p : Parser) (s : List UInt8) :
    (∀ e ∈ (dataParsing p.restart s).2, e.InBounds) ↔
      ∀ seg ∈ completed dataCmdEnd s, seg.length ≤ 30 := by
  induction s using List.reverseRecOn with
  | nil => simp [dataParsing]
  | append_singleton s ch ih =>
    have holds := Parser.holds_dataParsing p s
    rw [dataParsing_snoc, List.forall_mem_append, ih]
    by_cases ends : ch = dataCmdEnd
    · subst ends
      rw [holds.end_inBounds, completed_snoc_sep, List.forall_mem_append, List.forall_mem_singleton]
    · rw [completed_snoc_ne ends]
      exact ⟨fun both => both.1, fun old => ⟨old, holds.payload_inBounds ends⟩⟩

/-- 31 payload bytes and a terminator: the NUL is stored at index 31. -/
theorem dataParsing_overruns :
    ¬ ∀ (p : Parser) (s : List UInt8), ∀ e ∈ (dataParsing p.restart s).2, e.InBounds := by
  intro always
  have stored : Event.store 31 0 ∈ (dataParsing Parser.zeroed.restart
      (List.replicate 31 98 ++ [dataCmdEnd])).2 := by decide
  exact absurd (always _ _ _ stored) (by decide)

/-! ### Routing -/

def routeText (m : List UInt8) : List Box :=
  if m.head? ≠ some 84 ∧ 91 ∉ m then [.mb6288, .mbOled]
  else if m.head? = some 84 then [.mbTime]
  else [.mb6288]

theorem cstr_head?_eq {b : UInt8} (s rest : List UInt8) (present : b ≠ 0) :
    (cstr s).head? = some b ↔ (s ++ 0 :: rest)[0]? = some b := by
  cases s with
  | nil => simp [present.symm]
  | cons c s =>
    by_cases nul : c = 0
    · simp [nul, present.symm]
    · simp [nul]

theorem route_eq_routeText (s rest : List UInt8) : route (s ++ 0 :: rest) = routeText (cstr s) := by
  have first := cstr_head?_eq s rest (show (84 : UInt8) ≠ 0 by decide)
  simp only [route, routeText, ne_eq, strchr_eq_none, cstr_append_zero, first]

theorem Parser.Holds.route_short {p : Parser} {seg : List UInt8} (h : p.Holds seg)
    (fits : seg.length ≤ 30) : route p.storeEnd.data = routeText (cstr seg) := by
  rw [h.storeEnd_short fits, route_eq_routeText]

theorem mem_routeText {m : List UInt8} :
    (Box.mb6288 ∈ routeText m ↔ m.head? ≠ some 84) ∧
      (Box.mbOled ∈ routeText m ↔ m.head? ≠ some 84 ∧ 91 ∉ m) ∧
      (Box.mbTime ∈ routeText m ↔ m.head? = some 84) := by
  unfold routeText
  by_cases time : m.head? = some 84
  · simp [time]
  · by_cases control : 91 ∈ m
    · simp [time, control]
    · simp [time, control]

theorem Parser.Holds.route_text {p : Parser} {seg : List UInt8} (h : p.Holds seg)
    (noTime : seg.head? ≠ some 84) (noControl : 91 ∉ seg) :
    route p.storeEnd.data = [.mb6288, .mbOled] := by
  have both : ∀ data : List UInt8, data[0]? ≠ some 84 → 91 ∉ cstr data →
      route data = [.mb6288, .mbOled] := by
    intro data first control
    rw [route, if_pos ⟨first, strchr_eq_none.mpr control⟩]
  rcases Nat.lt_or_ge 30 seg.length with long | short
  · rw [h.storeEnd_long long]
    apply both
    · cases seg with
      | nil => simp at long
      | cons b seg => simpa using noTime
    · intro control
      have member := cstr_subset _ control
      simp only [List.mem_append, Option.mem_toList] at member
      rcases member with early | last
      · exact noControl (List.mem_of_mem_take early)
      · exact noControl (List.mem_of_getLast? last)
  · rw [h.storeEnd_short short]
    apply both
    · rw [ne_eq, ← cstr_head?_eq seg _ (show (84 : UInt8) ≠ 0 by decide)]
      cases seg with
      | nil => simp
      | cons b seg =>
        by_cases nul : b = 0
        · simp [nul]
        · simpa [nul] using noTime
    · rw [cstr_append_zero]
      exact fun control => noControl (cstr_subset _ control)

end BleSpeaker.Ble
