import BleSpeaker.Kernel.Ipc
import BleSpeaker.Kernel.Serial
import BleSpeaker.Lib.Transition

/-!
# Waiting for an answer of the SYN6288

`SYN6288_thread_entry` of `syn6288.c` against the receive interrupt. The thread reads a byte and prints
it; when there is none it takes `syn_rx_sem` and tries again. It never resets the semaphore, so a
release between its failed read and its take is still there when it takes: a thread that is suspended
has an empty FIFO.

A release is not tied to a byte. The thread may take the semaphore several times and find nothing, and
one release may stand for many bytes; the invariant counts neither.
-/

namespace BleSpeaker.Speech.Receive
open Kernel Lib

inductive Pc where
  | reading
  | taking
  | suspended
  | printing (ch : UInt8)
  deriving DecidableEq

/-- `received` has every byte that the interrupt put into the FIFO, `readOut` those that a read took
out of it. -/
structure Receiver where
  fifo : RxFifo
  synRxSem : Semaphore Unit
  pc : Pc
  received : List UInt8
  readOut : List UInt8
  printed : List UInt8

inductive Act where
  | isr (bytes : List UInt8)
  | thread

def syn6288Input (sem : Semaphore Unit) : Option Unit × Semaphore Unit := sem.rtSemRelease.2

/-- The driver calls `syn6288_input` only when its FIFO has a byte. -/
def interrupt (s : Receiver) (bytes : List UInt8) : Receiver :=
  let isr := s.fifo.rtHwSerialIsr bytes
  let release := if isr.2 ≠ 0 then syn6288Input s.synRxSem else (none, s.synRxSem)
  { s with
    fifo := isr.1
    synRxSem := release.2
    pc := if release.1.isSome then .reading else s.pc
    received := s.received ++ bytes }

def syn6288ThreadEntry (s : Receiver) : Option Receiver :=
  match s.pc with
  | .reading =>
    match s.fifo.serialIntRx with
    | some (ch, fifo) => some { s with fifo, pc := .printing ch, readOut := s.readOut ++ [ch] }
    | none => some { s with pc := .taking }
  | .taking =>
    let take := s.synRxSem.rtSemTake () true
    some { s with synRxSem := take.2, pc := if take.1 = .suspended then .suspended else .reading }
  | .suspended => none
  | .printing ch => some { s with pc := .reading, printed := s.printed ++ [ch] }

/-- `config.bufsz` is 128. -/
def receiver : System Receiver Act where
  start :=
    { fifo := .rtSerialOpen 128 (by decide)
      synRxSem := { value := 0, value_le := Nat.zero_le _ }
      pc := .reading
      received := []
      readOut := []
      printed := [] }
  next s
    | .isr bytes => some (interrupt s bytes)
    | .thread => syn6288ThreadEntry s

/-! ### One step of the thread -/

inductive ThreadStep (s : Receiver) : Receiver → Prop where
  | reads {ch : UInt8} {fifo : RxFifo} : s.pc = .reading → s.fifo.serialIntRx = some (ch, fifo) →
      ThreadStep s { s with fifo, pc := .printing ch, readOut := s.readOut ++ [ch] }
  | fails : s.pc = .reading → s.fifo.empty = true → ThreadStep s { s with pc := .taking }
  | takes {sem : Semaphore Unit} : s.pc = .taking → sem.suspendThread = s.synRxSem.suspendThread →
      ThreadStep s { s with synRxSem := sem, pc := .reading }
  | parks {sem : Semaphore Unit} : s.pc = .taking → ¬ 0 < s.synRxSem.value →
      sem.suspendThread = s.synRxSem.suspendThread ++ [()] →
      ThreadStep s { s with synRxSem := sem, pc := .suspended }
  | prints {ch : UInt8} : s.pc = .printing ch →
      ThreadStep s { s with pc := .reading, printed := s.printed ++ [ch] }

theorem threadStep_of_moved {s t : Receiver} (moved : syn6288ThreadEntry s = some t) : ThreadStep s t := by
  unfold syn6288ThreadEntry at moved
  split at moved
  · rename_i pc
    split at moved
    · rename_i ch fifo taken
      obtain rfl := Option.some.inj moved
      exact .reads pc taken
    · rename_i none
      obtain rfl := Option.some.inj moved
      exact .fails pc (RxFifo.serialIntRx_none.mp none)
  · rename_i pc
    obtain rfl := Option.some.inj moved
    by_cases available : 0 < s.synRxSem.value
    · obtain ⟨taken, -, list⟩ := Semaphore.rtSemTake_pos () true available
      simp only [taken]
      exact .takes pc list
    · simp only [Semaphore.rtSemTake_suspends available]
      exact .parks pc available rfl
  · simp at moved
  · rename_i ch pc
    obtain rfl := Option.some.inj moved
    exact .prints pc

/-! ### What is announced -/

structure Announced (s : Receiver) : Prop where
  waiters : s.synRxSem.suspendThread = if s.pc = .suspended then [()] else []
  taking : s.pc = .taking → s.fifo.empty = true ∨ 0 < s.synRxSem.value
  suspended : s.pc = .suspended → s.fifo.empty = true

theorem interrupt_quiet {s : Receiver} {bytes : List UInt8} (quiet : (s.fifo.rtHwSerialIsr bytes).2 = 0) :
    interrupt s bytes = s := by
  obtain rfl := RxFifo.rtHwSerialIsr_quiet quiet
  have length : s.fifo.rxLength = 0 := quiet
  simp [interrupt, RxFifo.rtHwSerialIsr, length]

/-- The release resumes the thread, which reads again. -/
theorem interrupt_suspended {s : Receiver} {bytes : List UInt8} (announced : Announced s)
    (parked : s.pc = .suspended) (arrived : (s.fifo.rtHwSerialIsr bytes).2 ≠ 0) :
    (interrupt s bytes).pc = .reading ∧ (interrupt s bytes).synRxSem.suspendThread = [] := by
  have waits : s.synRxSem.suspendThread = [()] := by rw [announced.waiters, if_pos parked]
  have resumed := Semaphore.rtSemRelease_resumes waits
  simp [interrupt, syn6288Input, arrived, resumed]

theorem interrupt_running {s : Receiver} {bytes : List UInt8} (announced : Announced s)
    (runs : s.pc ≠ .suspended) (arrived : (s.fifo.rtHwSerialIsr bytes).2 ≠ 0) :
    (interrupt s bytes).pc = s.pc ∧ 0 < (interrupt s bytes).synRxSem.value ∧
      (interrupt s bytes).synRxSem.suspendThread = [] := by
  have idle : s.synRxSem.suspendThread = [] := by rw [announced.waiters, if_neg runs]
  obtain ⟨nobody, positive, empty⟩ := Semaphore.rtSemRelease_pos idle
  simp [interrupt, syn6288Input, arrived, nobody, positive, empty]

theorem interrupt_announced {s : Receiver} (announced : Announced s) (bytes : List UInt8) :
    Announced (interrupt s bytes) := by
  by_cases quiet : (s.fifo.rtHwSerialIsr bytes).2 = 0
  · rw [interrupt_quiet quiet]
    exact announced
  · by_cases parked : s.pc = .suspended
    · obtain ⟨awake, nobody⟩ := interrupt_suspended announced parked quiet
      refine ⟨?_, ?_, ?_⟩
      · rw [awake, nobody]
        rfl
      · rw [awake]
        exact fun takes => Pc.noConfusion takes
      · rw [awake]
        exact fun parks => Pc.noConfusion parks
    · obtain ⟨same, positive, nobody⟩ := interrupt_running announced parked quiet
      refine ⟨?_, fun _ => Or.inr positive, ?_⟩
      · rw [same, nobody, if_neg parked]
      · rw [same]
        exact fun parks => absurd parks parked

theorem thread_announced {s t : Receiver} (announced : Announced s) (step : ThreadStep s t) :
    Announced t := by
  obtain ⟨waiters, taking, suspended⟩ := announced
  cases step with
  | reads pc taken =>
    rw [pc] at waiters
    exact ⟨waiters, fun takes => Pc.noConfusion takes, fun parks => Pc.noConfusion parks⟩
  | fails pc empty =>
    rw [pc] at waiters
    exact ⟨waiters, fun _ => Or.inl empty, fun _ => empty⟩
  | takes pc list =>
    rw [pc] at waiters
    exact ⟨list.trans waiters, fun takes => Pc.noConfusion takes, fun parks => Pc.noConfusion parks⟩
  | parks pc unavailable list =>
    rw [pc] at waiters
    have empty : s.fifo.empty = true := by
      rcases taking pc with empty | positive
      · exact empty
      · exact absurd positive unavailable
    refine ⟨?_, fun _ => Or.inl empty, fun _ => empty⟩
    rw [list, waiters]
    rfl
  | prints pc =>
    rw [pc] at waiters
    exact ⟨waiters, fun takes => Pc.noConfusion takes, fun parks => Pc.noConfusion parks⟩

/-! ### What is printed -/

def Pc.pending : Pc → List UInt8
  | .printing ch => [ch]
  | .reading | .taking | .suspended => []

/-- The printed bytes and the one in hand are those read, and with the bytes still in the FIFO they are
some of the received ones, in their order. -/
structure Printed (s : Receiver) : Prop where
  read : s.readOut = s.printed ++ s.pc.pending
  arrived : (s.readOut ++ s.fifo.queue).Sublist s.received

/-- A thread that is resumed had no byte in hand. -/
theorem interrupt_pending {s : Receiver} (announced : Announced s) (bytes : List UInt8) :
    (interrupt s bytes).pc.pending = s.pc.pending := by
  by_cases quiet : (s.fifo.rtHwSerialIsr bytes).2 = 0
  · rw [interrupt_quiet quiet]
  · by_cases parked : s.pc = .suspended
    · rw [(interrupt_suspended announced parked quiet).1, parked]
      rfl
    · rw [(interrupt_running announced parked quiet).1]

theorem interrupt_printed {s : Receiver} (announced : Announced s) (printed : Printed s)
    (bytes : List UInt8) : Printed (interrupt s bytes) := by
  obtain ⟨read, arrived⟩ := printed
  constructor
  · rw [interrupt_pending announced]
    exact read
  · have joined := s.fifo.queue_foldl_put bytes
    have longer := arrived.append_right bytes
    rw [List.append_assoc] at longer
    exact (joined.append_left s.readOut).trans longer

theorem thread_printed {s t : Receiver} (printed : Printed s) (step : ThreadStep s t) : Printed t := by
  obtain ⟨read, arrived⟩ := printed
  cases step with
  | reads pc taken =>
    rename_i ch fifo
    rw [pc] at read
    rw [RxFifo.queue_serialIntRx taken] at arrived
    simp only [Pc.pending, List.append_nil] at read
    refine ⟨by rw [read]; rfl, ?_⟩
    show (s.readOut ++ [ch] ++ fifo.queue).Sublist s.received
    simpa using arrived
  | fails pc | takes pc | parks pc =>
    rw [pc] at read
    exact ⟨read, arrived⟩
  | prints pc =>
    rw [pc] at read
    exact ⟨by rw [read]; simp [Pc.pending], arrived⟩

theorem reachable_printed {s : Receiver} (reached : receiver.Reachable s) : Announced s ∧ Printed s := by
  refine System.Reachable.invariant (P := fun s => Announced s ∧ Printed s) reached ?_ ?_
  · exact ⟨⟨rfl, fun takes => Pc.noConfusion takes, fun parks => Pc.noConfusion parks⟩, rfl,
      List.nil_sublist _⟩
  · intro s a t both moved
    obtain ⟨announced, printed⟩ := both
    cases a with
    | isr bytes =>
      obtain rfl := Option.some.inj moved
      exact ⟨interrupt_announced announced bytes, interrupt_printed announced printed bytes⟩
    | thread =>
      have step := threadStep_of_moved moved
      exact ⟨thread_announced announced step, thread_printed printed step⟩

/-- Whatever arrives and whenever: a suspended thread has read everything, it prints what it reads, in
order, and what is printed, in hand or in the FIFO is no more than what arrived, each byte once. -/
theorem prints_received {s : Receiver} (reached : receiver.Reachable s) :
    (s.pc = .suspended → s.fifo.empty = true) ∧ s.readOut = s.printed ++ s.pc.pending ∧
      (s.readOut ++ s.fifo.queue).Sublist s.received := by
  obtain ⟨announced, printed⟩ := reachable_printed reached
  exact ⟨announced.suspended, printed.read, printed.arrived⟩

/-- A byte arrives between the failed read and the take: the thread takes, reads and prints it, and is
suspended at its second take. -/
theorem prints_received_late : ∃ s, receiver.Reachable s ∧ s.pc = .suspended ∧ s.printed = [65] ∧
    s.fifo.empty = true := by
  have parks : (receiver.run [.thread, .isr [65], .thread, .thread, .thread, .thread, .thread]
      receiver.start).map (fun s => (s.pc, s.printed)) = some (.suspended, [65]) := by decide
  obtain ⟨s, ran, parked⟩ := Option.map_eq_some_iff.mp parks
  obtain ⟨pc, printed⟩ := Prod.mk.inj parked
  have reached := System.reachable_of_run ran
  exact ⟨s, reached, pc, printed, (prints_received reached).1 pc⟩

end BleSpeaker.Speech.Receive
