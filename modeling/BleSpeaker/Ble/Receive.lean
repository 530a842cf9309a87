import BleSpeaker.Kernel.Ipc
import BleSpeaker.Kernel.Serial
import BleSpeaker.Lib.Transition

/-!
# Waiting for a byte

`uart_sample_get_char` of `bluetooth.c` against the receive interrupt. The thread reads the FIFO,
resets the semaphore and takes it in three separate steps; the interrupt handler runs to its end
before the thread moves again, so it is one step.

`suspended_fifo_empty` says that a suspended parser has read everything, in every run in which no
byte arrives between a failed read and the reset that follows it. The reset throws away the
release of such a byte, and only another one before the thread is suspended makes up for it:
`reset_loses_byte`.
-/

namespace BleSpeaker.Ble.Receive
open Kernel Lib

inductive Pc where
  | reading | resetting | taking | suspended
  deriving DecidableEq, Repr

structure Receiver where
  fifo : RxFifo
  bleRxsem : Semaphore Unit
  pc : Pc
  chars : List UInt8

inductive Act where
  | isr (bytes : List UInt8)
  | thread

def uartRxInd (size : Nat) (sem : Semaphore Unit) : Option Unit × Semaphore Unit :=
  if size > 0 then sem.rtSemRelease.2 else (none, sem)

/-- The interrupt: the driver fills the FIFO and calls `uart_rx_ind`. A thread that the release
resumes returns from `rt_sem_take` and reads again. -/
def interrupt (s : Receiver) (bytes : List UInt8) : Receiver :=
  let isr := s.fifo.rtHwSerialIsr bytes
  let release := uartRxInd isr.2 s.bleRxsem
  { s with
    fifo := isr.1
    bleRxsem := release.2
    pc := if release.1.isSome then .reading else s.pc }

def uartSampleGetChar (s : Receiver) : Option Receiver :=
  match s.pc with
  | .reading =>
    match s.fifo.serialIntRx with
    | some (ch, fifo) => some { s with fifo, chars := s.chars ++ [ch] }
    | none => some { s with pc := .resetting }
  | .resetting => some { s with bleRxsem := (s.bleRxsem.rtSemControlReset 0).2, pc := .taking }
  | .taking =>
    let take := s.bleRxsem.rtSemTake () true
    some { s with bleRxsem := take.2, pc := if take.1 = .suspended then .suspended else .reading }
  | .suspended => none

def receiver : System Receiver Act where
  start :=
    { fifo := .rtSerialOpen 64 (by decide)
      bleRxsem := { value := 0, value_le := Nat.zero_le _ }
      pc := .reading
      chars := [] }
  next s
    | .isr bytes => some (interrupt s bytes)
    | .thread => uartSampleGetChar s

def Undisturbed (s : Receiver) : Act → Prop
  | .isr bytes => s.pc = .resetting → bytes = []
  | .thread => True

instance : ∀ s a, Decidable (Undisturbed s a)
  | s, .isr bytes => inferInstanceAs (Decidable (s.pc = .resetting → bytes = []))
  | _, .thread => .isTrue trivial

/-! ### The invariant -/

/-- The thread waits on the semaphore exactly when it is suspended, and a byte it has not read is
announced by a positive semaphore as soon as it is about to take it. -/
structure Announced (s : Receiver) : Prop where
  waiters : s.bleRxsem.suspendThread = if s.pc = .suspended then [()] else []
  unread : s.pc ≠ .reading → s.fifo.empty = true ∨ (s.pc = .taking ∧ 0 < s.bleRxsem.value)

theorem start_announced : Announced receiver.start := ⟨rfl, fun away => absurd rfl away⟩

theorem interrupt_nothing {s : Receiver} (quiet : (s.fifo.rtHwSerialIsr []).2 = 0) :
    interrupt s [] = s := by
  have length : s.fifo.rxLength = 0 := quiet
  simp [interrupt, RxFifo.rtHwSerialIsr, length, uartRxInd]

theorem interrupt_suspended {s : Receiver} {bytes : List UInt8}
    (announced : Announced s) (parked : s.pc = .suspended) (arrived : (s.fifo.rtHwSerialIsr bytes).2 ≠ 0) :
    (interrupt s bytes).pc = .reading ∧ (interrupt s bytes).bleRxsem.suspendThread = [] := by
  have waits : s.bleRxsem.suspendThread = [()] := by rw [announced.waiters, if_pos parked]
  have resumed := Semaphore.rtSemRelease_resumes waits
  simp [interrupt, uartRxInd, Nat.pos_of_ne_zero arrived, resumed]

theorem interrupt_running {s : Receiver} {bytes : List UInt8}
    (announced : Announced s) (runs : s.pc ≠ .suspended) (arrived : (s.fifo.rtHwSerialIsr bytes).2 ≠ 0) :
    (interrupt s bytes).pc = s.pc ∧ 0 < (interrupt s bytes).bleRxsem.value ∧
      (interrupt s bytes).bleRxsem.suspendThread = [] := by
  have idle : s.bleRxsem.suspendThread = [] := by rw [announced.waiters, if_neg runs]
  obtain ⟨nobody, positive, empty⟩ := Semaphore.rtSemRelease_pos idle
  simp [interrupt, uartRxInd, Nat.pos_of_ne_zero arrived, nobody, positive, empty]

theorem interrupt_announced {s : Receiver} {bytes : List UInt8} (announced : Announced s)
    (undisturbed : s.pc = .resetting → bytes = []) : Announced (interrupt s bytes) := by
  by_cases arrived : (s.fifo.rtHwSerialIsr bytes).2 = 0
  · obtain rfl := RxFifo.rtHwSerialIsr_quiet arrived
    rw [interrupt_nothing arrived]
    exact announced
  · by_cases parked : s.pc = .suspended
    · obtain ⟨awake, nobody⟩ := interrupt_suspended announced parked arrived
      exact ⟨by rw [nobody, awake]; rfl, fun away => absurd awake away⟩
    · obtain ⟨same, positive, nobody⟩ := interrupt_running announced parked arrived
      refine ⟨by rw [nobody, same, if_neg parked], fun away => ?_⟩
      rw [same] at away ⊢
      cases pc : s.pc with
      | reading => exact absurd pc away
      | resetting =>
        -- Bytes that were in the FIFO would have been read: it was empty, and it stays so.
        have nothing := undisturbed pc
        subst nothing
        rcases announced.unread away with empty | ⟨taking, _⟩
        · exact Or.inl empty
        · exact absurd (pc.symm.trans taking) (by decide)
      | taking => exact Or.inr ⟨rfl, positive⟩
      | suspended => exact absurd pc parked

theorem thread_announced {s t : Receiver} (announced : Announced s)
    (moved : uartSampleGetChar s = some t) : Announced t := by
  have waiters := announced.waiters
  unfold uartSampleGetChar at moved
  split at moved
  · rename_i pc
    rw [pc] at waiters
    split at moved
    · obtain rfl := Option.some.inj moved
      exact ⟨by rw [pc]; exact waiters, fun away => absurd pc away⟩
    · rename_i none
      obtain rfl := Option.some.inj moved
      exact ⟨waiters, fun _ => Or.inl (RxFifo.serialIntRx_none.mp none)⟩
  · rename_i pc
    obtain rfl := Option.some.inj moved
    refine ⟨rfl, fun _ => ?_⟩
    rcases announced.unread (by rw [pc]; decide) with empty | ⟨taking, _⟩
    · exact Or.inl empty
    · exact absurd (pc.symm.trans taking) (by decide)
  · rename_i pc
    obtain rfl := Option.some.inj moved
    rw [pc] at waiters
    by_cases available : 0 < s.bleRxsem.value
    · obtain ⟨taken, -, list⟩ := Semaphore.rtSemTake_pos () true available
      refine ⟨?_, fun away => ?_⟩
      · simp only [taken, list, waiters]
        rfl
      · simp [taken] at away
    · rw [Semaphore.rtSemTake_suspends available]
      refine ⟨?_, fun _ => ?_⟩
      · show s.bleRxsem.suspendThread ++ [()] = [()]
        rw [waiters]
        rfl
      · rcases announced.unread (by rw [pc]; decide) with empty | ⟨_, positive⟩
        · exact Or.inl empty
        · exact absurd positive available
  · simp at moved

theorem guarded_announced {s : Receiver} (reached : receiver.Guarded Undisturbed s) : Announced s := by
  refine reached.invariant start_announced ?_
  intro s a t announced undisturbed moved
  cases a with
  | isr bytes =>
    obtain rfl := Option.some.inj moved
    exact interrupt_announced announced undisturbed
  | thread => exact thread_announced announced moved

/-- A suspended parser has read every byte, in every run in which no byte arrives between a failed
read and the reset. -/
theorem suspended_fifo_empty {s : Receiver} (reached : receiver.Guarded Undisturbed s)
    (parked : s.pc = .suspended) : s.fifo.empty = true := by
  rcases (guarded_announced reached).unread (by rw [parked]; decide) with empty | ⟨taking, _⟩
  · exact empty
  · exact absurd (parked.symm.trans taking) (by decide)

theorem suspended_fifo_empty_once : ∃ s, receiver.Guarded Undisturbed s ∧ s.pc = .suspended ∧
    s.chars = [98] ∧ s.fifo.empty = true := by
  have parks : (receiver.run [.isr [98], .thread, .thread, .thread, .thread] receiver.start).map
      (fun s => (s.pc, s.chars)) = some (.suspended, [98]) := by decide
  obtain ⟨s, ran, parked⟩ := Option.map_eq_some_iff.mp parks
  obtain ⟨pc, chars⟩ := Prod.mk.inj parked
  have reached := System.guarded_of_run .start (show receiver.Meets Undisturbed _ _ by decide) ran
  exact ⟨s, reached, pc, chars, suspended_fifo_empty reached pc⟩

/-- Wherever a byte arrives between a failed read and the reset, and none behind it, the next two steps of the
thread suspend it with that byte unread. -/
theorem reset_loses_byte {s : Receiver} {bytes : List UInt8} (announced : Announced s)
    (pc : s.pc = .resetting) (arrives : bytes ≠ []) :
    ∃ t, receiver.run [.isr bytes, .thread, .thread] s = some t ∧ t.pc = .suspended ∧
      t.fifo.empty = false := by
  have filled := RxFifo.foldl_put_not_empty (f := s.fifo) arrives
  have arrived : (s.fifo.rtHwSerialIsr bytes).2 ≠ 0 := fun quiet => arrives (RxFifo.rtHwSerialIsr_quiet quiet)
  obtain ⟨same, -, -⟩ := interrupt_running announced (by rw [pc]; decide) arrived
  have resets : (interrupt s bytes).pc = .resetting := same.trans pc
  obtain ⟨u, reset, taking, zero, kept⟩ : ∃ u, uartSampleGetChar (interrupt s bytes) = some u ∧
      u.pc = .taking ∧ u.bleRxsem.value = 0 ∧ u.fifo = (interrupt s bytes).fifo := by
    unfold uartSampleGetChar
    rw [resets]
    exact ⟨_, rfl, rfl, rfl, rfl⟩
  obtain ⟨t, took, parked, fifo⟩ : ∃ t, uartSampleGetChar u = some t ∧ t.pc = .suspended ∧
      t.fifo = u.fifo := by
    unfold uartSampleGetChar
    rw [taking]
    simp only [Semaphore.rtSemTake_suspends (show ¬ 0 < u.bleRxsem.value by omega), if_true]
    exact ⟨_, rfl, rfl, rfl⟩
  refine ⟨t, ?_, parked, by rw [fifo, kept]; exact filled⟩
  simp only [System.run, receiver, reset, took, Option.bind_some]

theorem suspended_with_unread_byte :
    ¬ ∀ s, receiver.Reachable s → s.pc = .suspended → s.fifo.empty = true := by
  intro always
  have failed : receiver.run [.thread] receiver.start =
      some { receiver.start with pc := .resetting } := rfl
  have reached := System.reachable_of_run failed
  have announced := guarded_announced (System.guarded_of_run .start (by decide) failed)
  obtain ⟨t, ran, parked, unread⟩ := reset_loses_byte announced rfl (show [98] ≠ [] by simp)
  have empty := always t (System.guarded_of_run reached (System.meets_true _ _) ran) parked
  rw [unread] at empty
  exact absurd empty (by decide)

end BleSpeaker.Ble.Receive
