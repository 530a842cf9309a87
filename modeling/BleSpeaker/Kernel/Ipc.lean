import BleSpeaker.Lib.Ring

/-!
# Semaphores and mailboxes

`rt_sem_take`, `rt_sem_release`, `rt_sem_control`, `rt_mb_send` and `rt_mb_recv` of `ipc.c`, each
one atomic step: the source runs them with interrupts disabled. `queue` reads a mailbox as the
list of its mails; the send and receive lemmas say that the ring behaves as that list.
-/

namespace BleSpeaker.Kernel
open Lib

inductive RtErr where
  | eok | error | etimeout | efull
  deriving DecidableEq, Repr

/-! ### Semaphores -/

def rtSemValueMax : Nat := 65535

structure Semaphore (τ : Type) where
  value : Nat
  suspendThread : List τ := []
  value_le : value ≤ rtSemValueMax

inductive Take where
  | taken | timeout | suspended
  deriving DecidableEq, Repr

namespace Semaphore
variable {τ : Type}

/-- `waits` is false for `RT_WAITING_NO` and true for `RT_WAITING_FOREVER`, the two waiting times
in use; a waiting thread joins the end of the list, as `RT_IPC_FLAG_FIFO` has it. -/
def rtSemTake (sem : Semaphore τ) (self : τ) (waits : Bool) : Take × Semaphore τ :=
  if sem.value > 0 then
    (.taken, { sem with value := sem.value - 1, value_le := by have := sem.value_le; omega })
  else if waits then (.suspended, { sem with suspendThread := sem.suspendThread ++ [self] })
  else (.timeout, sem)

def rtSemRelease (sem : Semaphore τ) : RtErr × Option τ × Semaphore τ :=
  match sem.suspendThread with
  | thread :: rest => (.eok, some thread, { sem with suspendThread := rest })
  | [] =>
    if below : sem.value < rtSemValueMax then
      (.eok, none, { sem with value := sem.value + 1, value_le := below })
    else (.efull, none, sem)

/-- `rt_sem_control` with `RT_IPC_CMD_RESET`: every waiting thread is resumed and the value is the
argument, cut to 16 bits. -/
def rtSemControlReset (sem : Semaphore τ) (value : Nat) : List τ × Semaphore τ :=
  (sem.suspendThread,
    { value := value % 65536, suspendThread := [], value_le := by unfold rtSemValueMax; omega })

theorem rtSemTake_pos {sem : Semaphore τ} (self : τ) (waits : Bool) (available : 0 < sem.value) :
    (sem.rtSemTake self waits).1 = .taken ∧ (sem.rtSemTake self waits).2.value = sem.value - 1 ∧
      (sem.rtSemTake self waits).2.suspendThread = sem.suspendThread := by
  rw [rtSemTake, if_pos available]
  exact ⟨rfl, rfl, rfl⟩

theorem rtSemTake_suspends {sem : Semaphore τ} {self : τ} (none : ¬ 0 < sem.value) :
    sem.rtSemTake self true =
      (.suspended, { sem with suspendThread := sem.suspendThread ++ [self] }) := by
  rw [rtSemTake, if_neg none, if_pos rfl]

theorem rtSemTake_timeout {sem : Semaphore τ} {self : τ} (none : ¬ 0 < sem.value) :
    sem.rtSemTake self false = (.timeout, sem) := by
  rw [rtSemTake, if_neg none, if_neg Bool.false_ne_true]

theorem rtSemRelease_resumes {sem : Semaphore τ} {thread : τ} {rest : List τ}
    (waiting : sem.suspendThread = thread :: rest) :
    (rtSemRelease sem).2 = (some thread, { sem with suspendThread := rest }) := by
  unfold rtSemRelease
  split
  · rename_i first others same
    obtain ⟨rfl, rfl⟩ := List.cons.inj (same.symm.trans waiting)
    rfl
  · rename_i none
    exact absurd (none.symm.trans waiting) (by simp)

/-- Released with nobody waiting, a semaphore is positive, also where it was at its maximum. -/
theorem rtSemRelease_pos {sem : Semaphore τ} (idle : sem.suspendThread = []) :
    (rtSemRelease sem).2.1 = none ∧ 0 < (rtSemRelease sem).2.2.value ∧
      (rtSemRelease sem).2.2.suspendThread = [] := by
  unfold rtSemRelease
  split
  · rename_i first others same
    exact absurd (idle.symm.trans same) (by simp)
  · split
    · exact ⟨rfl, Nat.succ_pos _, idle⟩
    · rename_i full
      refine ⟨rfl, ?_, idle⟩
      unfold rtSemValueMax at full
      dsimp only
      omega

end Semaphore

/-! ### Mailboxes -/

/-- The offsets and the number of entries of a mailbox agree: the next free slot is `entry` slots
behind the next one to be received. `rt_mb_init` sets this up and no operation breaks it. -/
structure Mailbox (α : Type) where
  msgPool : List α
  size : Nat
  entry : Nat
  inOffset : Nat
  outOffset : Nat
  pool_length : msgPool.length = size
  size_le : size ≤ 65535
  entry_le : entry ≤ size
  out_lt : outOffset < size
  in_eq : inOffset = (outOffset + entry) % size

namespace Mailbox
variable {α : Type} {mb : Mailbox α} {v : α}

def rtMbInit (msgPool : List α) (nonempty : 0 < msgPool.length) (small : msgPool.length ≤ 65535) :
    Mailbox α where
  msgPool := msgPool
  size := msgPool.length
  entry := 0
  inOffset := 0
  outOffset := 0
  pool_length := rfl
  size_le := small
  entry_le := Nat.zero_le _
  out_lt := nonempty
  in_eq := (Nat.zero_mod _).symm

def full (mb : Mailbox α) : Bool := mb.entry == mb.size

/-- `rt_mb_send`, that is `rt_mb_send_wait` with timeout 0. Behind the first test `entry` is below
`size`, so below `RT_MB_ENTRY_MAX`, and the overflow branch of the source is never taken. -/
def rtMbSend (mb : Mailbox α) (v : α) : RtErr × Mailbox α :=
  if full : mb.entry = mb.size then (.efull, mb)
  else
    (.eok,
      { mb with
        msgPool := mb.msgPool.set mb.inOffset v
        inOffset := bump mb.size mb.inOffset
        entry := mb.entry + 1
        pool_length := by rw [List.length_set, mb.pool_length]
        entry_le := by have := mb.entry_le; omega
        in_eq := by
          have nonempty : 0 < mb.size := Nat.lt_of_le_of_lt (Nat.zero_le _) mb.out_lt
          rw [bump_eq_mod (by rw [mb.in_eq]; exact Nat.mod_lt _ nonempty), mb.in_eq, Nat.mod_add_mod,
            Nat.add_assoc] })

/-- `rt_mb_recv` once there is a mail. With none, a call with `RT_WAITING_NO` returns
`-RT_ETIMEOUT` and one with `RT_WAITING_FOREVER` leaves its thread suspended; both are `none`. -/
def rtMbRecv (mb : Mailbox α) : Option (α × Mailbox α) :=
  if empty : mb.entry = 0 then none
  else
    some (mb.msgPool.get ⟨mb.outOffset, mb.pool_length ▸ mb.out_lt⟩,
      { mb with
        outOffset := bump mb.size mb.outOffset
        entry := mb.entry - 1
        entry_le := by have := mb.entry_le; omega
        out_lt := bump_lt mb.out_lt
        in_eq := by
          rw [bump_eq_mod mb.out_lt, Nat.mod_add_mod, mb.in_eq]
          congr 1
          omega })

def queue (mb : Mailbox α) : List α := window mb.msgPool mb.outOffset mb.entry

theorem queue_length (mb : Mailbox α) : mb.queue.length = mb.entry :=
  window_length (by rw [mb.pool_length]; exact Nat.lt_of_le_of_lt (Nat.zero_le _) mb.out_lt)

theorem rtMbInit_queue (msgPool : List α) (nonempty : 0 < msgPool.length)
    (small : msgPool.length ≤ 65535) : (rtMbInit msgPool nonempty small).queue = [] := rfl

@[simp] theorem rtMbSend_size : (mb.rtMbSend v).2.size = mb.size := by
  unfold rtMbSend; split <;> rfl

theorem rtMbSend_full (full : mb.entry = mb.size) : mb.rtMbSend v = (.efull, mb) := by
  rw [rtMbSend, dif_pos full]

theorem rtMbSend_queue (room : mb.entry ≠ mb.size) :
    (mb.rtMbSend v).1 = .eok ∧ (mb.rtMbSend v).2.queue = mb.queue ++ [v] := by
  rw [rtMbSend, dif_neg room]
  refine ⟨rfl, ?_⟩
  have bound : mb.entry < mb.msgPool.length := by
    have := mb.entry_le
    rw [mb.pool_length]
    omega
  show window (mb.msgPool.set mb.inOffset v) mb.outOffset (mb.entry + 1) = mb.queue ++ [v]
  rw [mb.in_eq, ← mb.pool_length, window_push bound, queue]

theorem rtMbRecv_none : mb.rtMbRecv = none ↔ mb.queue = [] := by
  rw [← List.length_eq_zero_iff, queue_length, rtMbRecv]
  split <;> simp [*]

theorem rtMbRecv_queue {rest : Mailbox α} (received : mb.rtMbRecv = some (v, rest)) :
    mb.queue = v :: rest.queue ∧ rest.size = mb.size := by
  unfold rtMbRecv at received
  split at received
  · simp at received
  · rename_i nonempty
    obtain ⟨rfl, rfl⟩ := Prod.mk.inj (Option.some.inj received)
    refine ⟨?_, rfl⟩
    obtain ⟨count, more⟩ := Nat.exists_eq_succ_of_ne_zero nonempty
    have inside : mb.outOffset < mb.msgPool.length := mb.pool_length ▸ mb.out_lt
    show window mb.msgPool mb.outOffset mb.entry = _ :: window mb.msgPool (bump mb.size mb.outOffset) (mb.entry - 1)
    have wrap : bump mb.msgPool.length mb.outOffset = bump mb.size mb.outOffset := by
      rw [mb.pool_length]
    rw [more, window_pop inside, wrap]
    rfl

end Mailbox
end BleSpeaker.Kernel
