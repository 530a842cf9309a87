import BleSpeaker.Lib.Ring

/-!
# The serial driver

The receive FIFO of `serial.c` with its reader and its interrupt handler, and polled transmission.
The FIFO overwrites its oldest byte when it is full; `is_full` is then set until the next read.
The two indices never meet while it is set, which is why the length the interrupt handler
computes from them is zero only for an empty FIFO.
-/

namespace BleSpeaker.Kernel
open Lib

structure RxFifo where
  bufsz : Nat
  buffer : List UInt8
  putIndex : Nat
  getIndex : Nat
  isFull : Bool
  bufsz_ge : 2 ≤ bufsz
  buffer_length : buffer.length = bufsz
  put_lt : putIndex < bufsz
  get_lt : getIndex < bufsz
  full_apart : isFull = true → putIndex ≠ getIndex

namespace RxFifo
variable {f : RxFifo} {ch : UInt8} {bytes : List UInt8}

def rtSerialOpen (bufsz : Nat) (large : 2 ≤ bufsz) : RxFifo where
  bufsz := bufsz
  buffer := List.replicate bufsz 0
  putIndex := 0
  getIndex := 0
  isFull := false
  bufsz_ge := large
  buffer_length := List.length_replicate
  put_lt := by omega
  get_lt := by omega
  full_apart := by simp

def empty (f : RxFifo) : Bool := f.getIndex == f.putIndex && !f.isFull

theorem bump_ne {n i : Nat} (large : 2 ≤ n) : bump n i ≠ i := by
  unfold bump
  split <;> omega

def put (f : RxFifo) (ch : UInt8) : RxFifo :=
  if meets : bump f.bufsz f.putIndex = f.getIndex then
    { f with
      buffer := f.buffer.set f.putIndex ch
      putIndex := bump f.bufsz f.putIndex
      getIndex := bump f.bufsz f.getIndex
      isFull := true
      buffer_length := by rw [List.length_set, f.buffer_length]
      put_lt := bump_lt f.put_lt
      get_lt := bump_lt f.get_lt
      full_apart := fun _ => by rw [meets]; exact (bump_ne f.bufsz_ge).symm }
  else
    { f with
      buffer := f.buffer.set f.putIndex ch
      putIndex := bump f.bufsz f.putIndex
      buffer_length := by rw [List.length_set, f.buffer_length]
      put_lt := bump_lt f.put_lt
      full_apart := fun _ => meets }

/-- `_serial_int_rx` for one byte, as `rt_device_read(dev, pos, &ch, 1)` calls it. -/
def serialIntRx (f : RxFifo) : Option (UInt8 × RxFifo) :=
  if f.empty then none
  else
    some (f.buffer.get ⟨f.getIndex, f.buffer_length ▸ f.get_lt⟩,
      { f with
        getIndex := bump f.bufsz f.getIndex
        isFull := false
        get_lt := bump_lt f.get_lt
        full_apart := by simp })

def rxLength (f : RxFifo) : Nat :=
  if f.putIndex ≥ f.getIndex then f.putIndex - f.getIndex
  else f.bufsz - (f.getIndex - f.putIndex)

/-- The receive case of `rt_hw_serial_isr`: all bytes `getc` has are put, then the length is
taken. The callback is called when the length is not zero. -/
def rtHwSerialIsr (f : RxFifo) (bytes : List UInt8) : RxFifo × Nat :=
  let g := bytes.foldl put f
  (g, g.rxLength)

theorem empty_iff : f.empty = true ↔ f.getIndex = f.putIndex := by
  have apart := f.full_apart
  simp only [empty, Bool.and_eq_true, beq_iff_eq, Bool.not_eq_true', Bool.eq_false_iff, ne_eq]
  exact ⟨fun h => h.1, fun same => ⟨same, fun full => apart full same.symm⟩⟩

theorem rxLength_eq_zero : f.rxLength = 0 ↔ f.empty = true := by
  have put := f.put_lt
  have get := f.get_lt
  rw [empty_iff]
  unfold rxLength
  split <;> omega

theorem serialIntRx_none : f.serialIntRx = none ↔ f.empty = true := by
  unfold serialIntRx
  split <;> simp [*]

theorem put_not_empty (f : RxFifo) (ch : UInt8) : (f.put ch).empty = false := by
  apply Bool.eq_false_iff.mpr
  rw [ne_eq, empty_iff]
  unfold put
  split
  · rename_i meets
    show bump f.bufsz f.getIndex ≠ bump f.bufsz f.putIndex
    rw [meets]
    exact bump_ne f.bufsz_ge
  · rename_i apart
    exact fun same => apart same.symm

theorem foldl_put_not_empty (nonempty : bytes ≠ []) : (bytes.foldl put f).empty = false := by
  obtain ⟨front, last, rfl⟩ : ∃ front last, bytes = front ++ [last] :=
    ⟨bytes.dropLast, bytes.getLast nonempty, (List.dropLast_append_getLast nonempty).symm⟩
  rw [List.foldl_append]
  exact put_not_empty _ _

/-- An interrupt after which the FIFO is empty brought nothing. -/
theorem rtHwSerialIsr_quiet (quiet : (f.rtHwSerialIsr bytes).2 = 0) : bytes = [] := by
  by_contra arrives
  have filled : (bytes.foldl put f).empty = false := foldl_put_not_empty arrives
  rw [rxLength_eq_zero.mp quiet] at filled
  cases filled

/-! ### The bytes in the FIFO -/

/-- The next byte to be read first. -/
def queue (f : RxFifo) : List UInt8 := window f.buffer f.getIndex f.rxLength

theorem rxLength_eq (f : RxFifo) : f.rxLength = span f.bufsz f.getIndex f.putIndex := rfl

theorem window_put (f : RxFifo) (ch : UInt8) :
    window (f.buffer.set f.putIndex ch) f.getIndex (f.rxLength + 1) = f.queue ++ [ch] := by
  have room : f.rxLength < f.buffer.length := by
    rw [f.buffer_length]
    exact span_lt f.get_lt f.put_lt
  have index : f.putIndex = (f.getIndex + f.rxLength) % f.buffer.length := by
    rw [f.buffer_length]
    exact next_eq_mod f.get_lt f.put_lt
  rw [index, window_push room, queue]

/-- A byte joins the end, and a full FIFO drops its first one for it. -/
theorem queue_put (f : RxFifo) (ch : UInt8) :
    (f.put ch).queue = f.queue ++ [ch] ∨ (f.put ch).queue = (f.queue ++ [ch]).tail := by
  have pushed := f.window_put ch
  by_cases meets : bump f.bufsz f.putIndex = f.getIndex
  · right
    have inside : f.getIndex < (f.buffer.set f.putIndex ch).length := by
      rw [List.length_set, f.buffer_length]
      exact f.get_lt
    have wrap : bump (f.buffer.set f.putIndex ch).length f.getIndex = bump f.bufsz f.getIndex := by
      rw [List.length_set, f.buffer_length]
    rw [window_pop inside, wrap] at pushed
    rw [← pushed, List.tail_cons, rxLength_eq, ← span_bump_both f.bufsz_ge f.put_lt meets, RxFifo.put,
      dif_pos meets]
    rfl
  · left
    rw [rxLength_eq, ← span_bump_next f.get_lt f.put_lt meets] at pushed
    rw [← pushed, RxFifo.put, dif_neg meets]
    rfl

theorem queue_foldl_put (f : RxFifo) (bytes : List UInt8) :
    ((bytes.foldl put f).queue).Sublist (f.queue ++ bytes) := by
  induction bytes generalizing f with
  | nil => simp
  | cons ch bytes ih =>
    have first : ((f.put ch).queue).Sublist (f.queue ++ [ch]) := by
      rcases f.queue_put ch with joined | dropped
      · rw [joined]
      · rw [dropped]
        exact List.tail_sublist _
    have later := ih (f.put ch)
    rw [show f.queue ++ ch :: bytes = f.queue ++ [ch] ++ bytes by simp]
    exact later.trans (first.append_right bytes)

theorem queue_serialIntRx {g : RxFifo} (read : f.serialIntRx = some (ch, g)) : f.queue = ch :: g.queue := by
  unfold serialIntRx at read
  split at read
  · simp at read
  · rename_i filled
    obtain ⟨rfl, rfl⟩ := Prod.mk.inj (Option.some.inj read)
    have apart : f.getIndex ≠ f.putIndex := fun same => filled (empty_iff.mpr same)
    have inside : f.getIndex < f.buffer.length := f.buffer_length ▸ f.get_lt
    have wrap : bump f.buffer.length f.getIndex = bump f.bufsz f.getIndex := by rw [f.buffer_length]
    rw [queue, rxLength_eq, span_bump_first f.get_lt f.put_lt apart, window_pop inside, wrap]
    rfl

end RxFifo

/-! ### Polled transmission -/

/-- `RT_DEVICE_FLAG_STREAM` in the open flag that `rt_serial_open` leaves. -/
def serialStream (oflag openFlag : UInt16) : Bool :=
  oflag &&& 0x040 != 0 || openFlag &&& 0x040 != 0

/-- `_serial_poll_tx`: the bytes on the wire. 10 is a line feed, 13 a carriage return. -/
def serialPollTx (stream : Bool) : List UInt8 → List UInt8
  | [] => []
  | b :: data => (if b = 10 ∧ stream then [13, b] else [b]) ++ serialPollTx stream data

theorem serialPollTx_plain (data : List UInt8) : serialPollTx false data = data := by
  induction data with
  | nil => rfl
  | cons b data ih => simp [serialPollTx, ih]

/-- `RT_DEVICE_FLAG_INT_RX`, the flag both UARTs of the application are opened with. -/
def rtDeviceFlagIntRx : UInt16 := 0x100

def deviceWrite (data : List UInt8) : List UInt8 :=
  serialPollTx (serialStream rtDeviceFlagIntRx 0) data

theorem deviceWrite_eq (data : List UInt8) : deviceWrite data = data := serialPollTx_plain data

end BleSpeaker.Kernel
