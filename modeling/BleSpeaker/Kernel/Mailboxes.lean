import BleSpeaker.Kernel.Bystanders
import BleSpeaker.Kernel.Ipc

/-!
# Threads at a mailbox

`rt_mb_send_wait` and `rt_mb_recv` with any waiting time, called by any number of threads: a thread that finds
the box full or empty suspends itself, and goes through the loop again when another has woken it. Between that
wake-up and its turn a third one can be faster, so the loop is needed. No wake-up is lost: the threads that were
woken and did not have their turn yet are at least as many as the mails that lie there while a receiver waits,
or as the free places while a sender does.

A call is a number of steps, and each part of the source that runs with interrupts disabled is one.
-/

namespace BleSpeaker.Kernel
open Lib

/-! ### The calls -/

/-- The two lists of a mailbox, `suspend_thread` and `suspend_sender_thread`. -/
inductive Side where
  | receivers
  | senders
deriving DecidableEq

def Side.list : Side → Nat
  | .receivers => 0
  | .senders => 1

inductive MbOp (α : Type) where
  | recv
  | send (v : α)

def MbOp.side {α : Type} : MbOp α → Side
  | .recv => .receivers
  | .send _ => .senders

inductive Phase where
  /-- At the start of the call, and where the loop tests its condition. -/
  | enter
  /-- Suspended, on the way to `rt_schedule`. -/
  | parked
  /-- `rt_schedule` has returned. -/
  | back
  /-- Done, and with another thread woken, on the way to `rt_schedule`. -/
  | leave
deriving DecidableEq

structure MbCall (α : Type) where
  op : MbOp α
  /-- An `rt_int32_t`, negative for ever. -/
  timeout : Int
  tickDelta : UInt32
  phase : Phase
  /-- The waiting time that was asked for, and when, and when the thread suspended itself last. -/
  asked : Int
  since : Nat
  parkedAt : Nat

structure MbReturn (α : Type) where
  thread : Nat
  call : MbCall α
  result : RtErr
  ended : Nat

/-- `accepted`, `received`, `returns` and `woken` are history; no step reads them. -/
structure Exchange (α : Type) where
  kernel : Threads
  mb : Mailbox α
  call : Nat → Option (MbCall α)
  accepted : List α
  received : List (Nat × α)
  returns : List (MbReturn α)
  /-- The threads that were woken for a mail or a free place and did not look at the box since. -/
  woken : Side → List Nat

inductive MbMove (α : Type) where
  | begin (op : MbOp α) (timeout : Int)
  /-- The running thread goes on with its call. -/
  | step
  /-- What the running thread does outside of a call. -/
  | act (act : ThreadAct)
  | tick
  | interrupt (o : Nat)
  /-- `rt_mb_send` in an interrupt. -/
  | post (v : α)

namespace Exchange
variable {α : Type} (flag : IpcFlag)

def goOn (x : Exchange α) (t : Nat) (c : MbCall α) : Exchange α :=
  { x with call := Function.update x.call t (some c) }

def finish (x : Exchange α) (t : Nat) (c : MbCall α) (result : RtErr) : Exchange α :=
  { x with
    call := Function.update x.call t none
    returns := x.returns ++ [⟨t, c, result, x.kernel.timers.now⟩] }

/-- The thread looks at the box. -/
def arrive (x : Exchange α) (t : Nat) : Exchange α := { x with woken := fun d => (x.woken d).erase t }

/-- The box is empty for a receiver, or full for a sender. -/
def blocked (x : Exchange α) (t : Nat) (c : MbCall α) (result : RtErr) : Option (Exchange α) :=
  if c.timeout = 0 then some (x.finish t c result)
  else
    let tickDelta := if 0 < c.timeout then x.kernel.timers.rtTickGet else c.tickDelta
    let time := if 0 < c.timeout then some (UInt32.ofNat c.timeout.toNat) else none
    (x.kernel.wait c.op.side.list flag time).map fun k =>
      { x with kernel := k }.goOn t { c with phase := .parked, tickDelta, parkedAt := x.kernel.timers.now }

/-- `rt_ipc_list_resume` of a list that is not empty. -/
def wakeOne (x : Exchange α) (d : Side) : Option (Exchange α) :=
  (x.kernel.rtIpcListResume d.list).map fun k =>
    { x with
      kernel := k
      woken := Function.update x.woken d (x.woken d ++ (x.kernel.scheduler.waiting d.list).head?.toList) }

/-- The end of both functions, for the threads of the other list. -/
def handOver (x : Exchange α) (t : Nat) (c : MbCall α) (d : Side) : Option (Exchange α) :=
  if x.kernel.scheduler.waiting d.list = [] then some (x.finish t c .eok)
  else (x.wakeOne d).map fun x => x.goOn t { c with phase := .leave }

def rtMbSendWait (x : Exchange α) (t : Nat) (c : MbCall α) (v : α) : Option (Exchange α) :=
  if x.mb.entry = x.mb.size then x.blocked flag t c .efull
  else { x with mb := (x.mb.rtMbSend v).2, accepted := x.accepted ++ [v] }.handOver t c .receivers

def rtMbRecv (x : Exchange α) (t : Nat) (c : MbCall α) : Option (Exchange α) :=
  match x.mb.rtMbRecv with
  | none => x.blocked flag t c .etimeout
  | some (v, mb) => { x with mb, received := x.received ++ [(t, v)] }.handOver t c .senders

/-- The time that is left is `timeout - (rt_tick_get() - tick_delta)`, in 32 bits. -/
def remaining (x : Exchange α) (c : MbCall α) : Int :=
  max 0 ((c.timeout - (x.kernel.timers.rtTickGet - c.tickDelta).toNat).bmod 4294967296)

/-- The condition of the loop and what follows it, up to where interrupts are enabled. -/
def look (x : Exchange α) (t : Nat) (c : MbCall α) : Option (Exchange α) :=
  match c.op with
  | .recv => (x.arrive t).rtMbRecv flag t c
  | .send v => (x.arrive t).rtMbSendWait flag t c v

def resumed (x : Exchange α) (t : Nat) (c : MbCall α) : Option (Exchange α) :=
  let error := (x.kernel.scheduler.thread t).error
  if error ≠ 0 then some (x.finish t c (if error = -eTimeout then .etimeout else .error))
  else x.look flag t { c with phase := .enter, timeout := if 0 < c.timeout then x.remaining c else c.timeout }

/-- `none` also where a call that waits was made with the scheduler locked: its thread would go on suspended. -/
def step (x : Exchange α) (t : Nat) (c : MbCall α) : Option (Exchange α) :=
  match c.phase with
  | .enter => if x.kernel.Runs t then x.look flag t c else none
  | .parked => (x.kernel.next .schedule).map fun k => { x with kernel := k }.goOn t { c with phase := .back }
  | .back => if x.kernel.Runs t then x.resumed flag t c else none
  | .leave => (x.kernel.next .schedule).map fun k => { x with kernel := k }.finish t c .eok

def post (x : Exchange α) (v : α) : Option (Exchange α) :=
  if x.mb.entry = x.mb.size then some x
  else
    let x := { x with mb := (x.mb.rtMbSend v).2, accepted := x.accepted ++ [v] }
    if x.kernel.scheduler.waiting Side.receivers.list = [] then some x
    else (x.wakeOne .receivers).bind fun x => (x.kernel.next .schedule).map fun k => { x with kernel := k }

def next (x : Exchange α) : MbMove α → Option (Exchange α)
  | .begin op timeout =>
    x.kernel.scheduler.current.bind fun t =>
      if x.kernel.Runs t ∧ (x.call t).isNone then
        some (x.goOn t ⟨op, timeout, 0, .enter, timeout, x.kernel.timers.now, x.kernel.timers.now⟩)
      else none
  | .step => x.kernel.scheduler.current.bind fun t => (x.call t).bind fun c => x.step flag t c
  | .act act =>
    x.kernel.scheduler.current.bind fun t =>
      if (x.call t).isNone then (x.kernel.next act).map fun k => { x with kernel := k } else none
  | .tick => (x.kernel.next .tick).map fun k => { x with kernel := k }
  | .interrupt o =>
    (x.kernel.next (.wake o)).bind fun k => (k.next .schedule).map fun k => { x with kernel := k }
  | .post v => x.post v

/-- A step outside of the calls: it is not about a thread that is in one, nor about the lists of the box. -/
def Apart (x : Exchange α) : ThreadAct → Prop
  | .init t _ _ | .startup t | .suspend t | .unlink t | .insert t | .changePriority t _ => x.call t = none
  | .wait o _ _ | .wake o => ∀ d : Side, o ≠ d.list
  | .start | .tick => False
  | .schedule | .yield | .sleep _ | .exit | .enterCritical | .exitCritical => True

def Minds (idle : Nat) (x : Exchange α) : MbMove α → Prop
  | .begin _ timeout =>
    x.kernel.scheduler.current ≠ some idle ∧ -2147483648 ≤ timeout ∧ timeout < 2147483648
  | .act act => Threads.Allowed idle x.kernel act ∧ x.Apart act
  | .interrupt o => x.kernel.scheduler.waiting o ≠ [] ∧ ∀ d : Side, o ≠ d.list
  | .step | .tick | .post _ => True

/-! ### What holds between two moves -/

variable {flag} {idle t u o : Nat} {k k' : Threads} {c : MbCall α} {oc : Option (MbCall α)} {x y : Exchange α}
  {woken : Side → List Nat} {d : Side}

def Pending (c : MbCall α) : Prop := c.phase = .parked ∨ c.phase = .back

/-- A thread that has suspended itself at `parkedAt`. -/
structure Suspended (k : Threads) (t : Nat) (c : MbCall α) : Prop where
  tick : 0 < c.timeout → c.tickDelta = UInt32.ofNat c.parkedAt
  past : c.parkedAt ≤ k.timers.now
  waits : c.timeout ≠ 0
  due : 0 ≤ c.asked → c.since + c.asked ≤ c.parkedAt + c.timeout
  timer : t ∈ k.timers.list → 0 < c.timeout ∧ ((k.timers.timer t).due : Int) = c.parkedAt + c.timeout
  error : (k.scheduler.thread t).error = 0 ∨
    (k.scheduler.thread t).error = -eTimeout ∧ 0 < c.timeout ∧ c.parkedAt + c.timeout ≤ (k.timers.now : Int)

/-- What is left of the waiting time reaches at least as far as the time that was asked for. -/
structure Timely (k : Threads) (t : Nat) (c : MbCall α) : Prop where
  range : c.timeout < 2147483648
  forever : c.asked < 0 → c.timeout < 0
  limited : 0 ≤ c.asked → 0 ≤ c.timeout
  entering : c.phase = .enter → 0 ≤ c.asked → c.since + c.asked ≤ (k.timers.now : Int) + c.timeout
  pending : Pending c → Suspended k t c

/-- What holds of one thread and its call. -/
structure Fits (idle : Nat) (k : Threads) (woken : Side → List Nat) (t : Nat) (oc : Option (MbCall α)) : Prop where
  waits : ∀ d : Side, t ∈ k.scheduler.waiting d.list →
    ∃ c ∈ oc, c.op.side = d ∧ Pending c ∧ (k.scheduler.thread t).error = 0
  woken : ∀ d, t ∈ woken d → k.scheduler.Active t ∧
    ∃ c ∈ oc, c.op.side = d ∧ Pending c ∧ (k.scheduler.thread t).error = 0
  timely : ∀ c ∈ oc, t ≠ idle ∧ Timely k t c

structure Core (idle : Nat) (x : Exchange α) : Prop where
  good : Threads.Good idle x.kernel
  running : x.kernel.scheduler.current ≠ none
  fifo : x.accepted = x.received.map Prod.snd ++ x.mb.queue
  fits : ∀ t, Fits idle x.kernel x.woken t (x.call t)
  nodup : ∀ d, (x.woken d).Nodup
  returns : ∀ r ∈ x.returns, r.result ≠ .eok →
    r.result ≠ .error ∧ 0 ≤ r.call.asked ∧ r.call.since + r.call.asked ≤ (r.ended : Int)

/-- What a thread of the list waits for: mails, or free places. -/
def stock (mb : Mailbox α) : Side → Nat
  | .receivers => mb.entry
  | .senders => mb.size - mb.entry

/-- No wake-up is lost. -/
def Served (x : Exchange α) : Prop :=
  ∀ d : Side, x.kernel.scheduler.waiting d.list ≠ [] → stock x.mb d ≤ (x.woken d).length

/-! ### A thread while others move -/

theorem list_injective {d e : Side} (same : d.list = e.list) : d = e := by
  cases d <;> cases e <;> first | rfl | cases same

theorem Suspended.next (suspended : Suspended k t c) (unharmed : Threads.Unharmed k k' t) : Suspended k' t c := by
  have now := unharmed.now_le
  refine ⟨suspended.tick, Nat.le_trans suspended.past now, suspended.waits, suspended.due, ?_, ?_⟩
  · intro member
    obtain ⟨before, due⟩ := unharmed.timers member
    rw [due]
    exact suspended.timer before
  · rcases unharmed.error with same | ⟨member, due, error, -⟩
    · rw [same]
      rcases suspended.error with none | ⟨error, limited, past⟩
      · exact Or.inl none
      · exact Or.inr ⟨error, limited, by omega⟩
    · obtain ⟨limited, when_due⟩ := suspended.timer member
      exact Or.inr ⟨error, limited, by omega⟩

theorem Timely.next (timely : Timely k t c) (unharmed : Threads.Unharmed k k' t) : Timely k' t c := by
  have now := unharmed.now_le
  refine ⟨timely.range, timely.forever, timely.limited, ?_, fun pending => (timely.pending pending).next unharmed⟩
  intro enters limited
  have before := timely.entering enters limited
  omega

theorem Fits.next (fits : Fits idle k woken t oc) (good : Threads.Good idle k) (good' : Threads.Good idle k')
    (unharmed : ∀ c ∈ oc, Threads.Unharmed k k' t)
    (lists : ∀ d : Side, t ∈ k'.scheduler.waiting d.list → t ∈ k.scheduler.waiting d.list) :
    Fits idle k' woken t oc := by
  refine ⟨?_, ?_, ?_⟩
  · intro d member
    obtain ⟨c, here, side, pending, error⟩ := fits.waits d (lists d member)
    refine ⟨c, here, side, pending, ?_⟩
    rcases (unharmed c here).error with same | ⟨-, -, -, active⟩
    · rw [same]
      exact error
    · have asleep := good'.scheduler.waits.suspended _ t member
      rcases active with ready | run
      · exact Stat.noConfusion (asleep.symm.trans ready)
      · exact Stat.noConfusion (asleep.symm.trans run)
  · intro d member
    obtain ⟨active, c, here, side, pending, error⟩ := fits.woken d member
    refine ⟨(unharmed c here).active active, c, here, side, pending, ?_⟩
    rcases (unharmed c here).error with same | ⟨timed, -⟩
    · rw [same]
      exact error
    · exact absurd timed (good.awake_of active)
  · intro c here
    obtain ⟨real, timely⟩ := fits.timely c here
    exact ⟨real, timely.next (unharmed c here)⟩

/-! ### The exchange -/

theorem Core.kernel (core : Core idle x) (good' : Threads.Good idle k') (running' : k'.scheduler.current ≠ none)
    (unharmed : ∀ t c, x.call t = some c → Threads.Unharmed x.kernel k' t)
    (lists : ∀ (d : Side) t, t ∈ k'.scheduler.waiting d.list → t ∈ x.kernel.scheduler.waiting d.list) :
    Core idle { x with kernel := k' } :=
  ⟨good', running', core.fifo, fun t => (core.fits t).next core.good good' (fun c => unharmed t c) fun d => lists d t,
    core.nodup, core.returns⟩

theorem Core.update (core : Core idle x) (fits : Fits idle x.kernel x.woken t oc) :
    Core idle { x with call := Function.update x.call t oc } := by
  refine ⟨core.good, core.running, core.fifo, ?_, core.nodup, core.returns⟩
  intro u
  dsimp only
  by_cases same : u = t
  · subst same
    rw [Function.update_self]
    exact fits
  · rw [Function.update_of_ne same]
    exact core.fits u

/-- A thread that runs, and of which no list has anything left. -/
structure Loose (x : Exchange α) (t : Nat) : Prop where
  runs : x.kernel.Runs t
  free : ∀ d, t ∉ x.woken d

theorem free_of_runs (core : Core idle x) (runs : x.kernel.Runs t) (o : Nat) : t ∉ x.kernel.scheduler.waiting o := by
  apply core.good.scheduler.waits.free
  rw [runs.2]
  exact Stat.noConfusion

theorem Loose.fits (core : Core idle x) (loose : Loose x t) (timely : ∀ c ∈ oc, t ≠ idle ∧ Timely x.kernel t c) :
    Fits idle x.kernel x.woken t oc :=
  ⟨fun d member => absurd member (free_of_runs core loose.runs d.list),
    fun d member => absurd member (loose.free d), timely⟩

theorem Core.finish {result : RtErr} (core : Core idle x)
    (fits : Fits idle x.kernel x.woken t (none : Option (MbCall α)))
    (ended : result ≠ .eok →
      result ≠ .error ∧ 0 ≤ c.asked ∧ c.since + c.asked ≤ (x.kernel.timers.now : Int)) :
    Core idle (x.finish t c result) := by
  obtain ⟨good, running, fifo, fits, nodup, returns⟩ := core.update fits
  refine ⟨good, running, fifo, fits, nodup, ?_⟩
  intro r member
  rcases List.mem_append.mp member with before | last
  · exact returns r before
  · obtain rfl := List.mem_singleton.mp last
    exact ended

theorem Core.arrive (core : Core idle x) (runs : x.kernel.Runs t) : Core idle (x.arrive t) ∧ Loose (x.arrive t) t := by
  refine ⟨⟨core.good, core.running, core.fifo, ?_, fun d => (core.nodup d).erase t, core.returns⟩, runs, ?_⟩
  · intro u
    obtain ⟨waits, woken, timely⟩ := core.fits u
    exact ⟨waits, fun d member => woken d (List.mem_of_mem_erase member), timely⟩
  · exact fun d member => ((core.nodup d).mem_erase_iff.mp member).1 rfl

/-- A step of the kernel that is not about the calls or the lists of the box. -/
theorem Core.act {act : ThreadAct} (core : Core idle x) (allowed : Threads.Allowed idle x.kernel act)
    (started : act ≠ .start) (aloof : ∀ t c, x.call t = some c → x.kernel.Aloof t act)
    (away : ∀ (d : Side) flag time, act ≠ .wait d.list flag time) (moved : x.kernel.next act = some k') :
    Core idle { x with kernel := k' } ∧
      ∀ (d : Side) t, t ∈ k'.scheduler.waiting d.list → t ∈ x.kernel.scheduler.waiting d.list := by
  obtain ⟨l, moved', good', -⟩ := core.good.next allowed
  obtain rfl : l = k' := Option.some.inj (moved'.symm.trans moved)
  have lists : ∀ (d : Side) t, t ∈ l.scheduler.waiting d.list → t ∈ x.kernel.scheduler.waiting d.list := by
    intro d t member
    rcases core.good.joins allowed started moved member with before | ⟨-, flag, time, same⟩
    · exact before
    · exact absurd same (away d flag time)
  have running := core.good.runs_on allowed started moved core.running
  exact ⟨core.kernel good' running (fun t c here => core.good.unharmed allowed (aloof t c here) moved) lists, lists⟩

theorem Served.kernel (served : Served x)
    (lists : ∀ (d : Side) t, t ∈ k'.scheduler.waiting d.list → t ∈ x.kernel.scheduler.waiting d.list) :
    Served { x with kernel := k' } := by
  intro d waits
  obtain ⟨t, member⟩ := List.exists_mem_of_ne_nil _ waits
  exact served d (List.ne_nil_of_mem (lists d t member))

/-! ### Waking one -/

structure WokeOne (idle : Nat) (x y : Exchange α) (d : Side) : Prop where
  core : Core idle y
  mb : y.mb = x.mb
  length : ∀ e, (y.woken e).length = (x.woken e).length + if e = d then 1 else 0
  lists : ∀ (e : Side) t, t ∈ y.kernel.scheduler.waiting e.list → t ∈ x.kernel.scheduler.waiting e.list
  loose : ∀ t, Loose x t → Loose y t

theorem WokeOne.served (one : WokeOne idle x y d)
    (served : ∀ e : Side, x.kernel.scheduler.waiting e.list ≠ [] →
      stock x.mb e ≤ (x.woken e).length + if e = d then 1 else 0) : Served y := by
  intro e waits
  obtain ⟨u, member⟩ := List.exists_mem_of_ne_nil _ waits
  rw [one.mb, one.length]
  exact served e (List.ne_nil_of_mem (one.lists e u member))

/-- The thread suspends itself. -/
theorem park_spec (core : Core idle x) (loose : Loose x t) (real : t ≠ idle) (timely : Timely x.kernel t c)
    (enters : c.phase = .enter) (waits : c.timeout ≠ 0)
    (called : x.kernel.wait c.op.side.list flag
      (if 0 < c.timeout then some (UInt32.ofNat c.timeout.toNat) else none) = some k') :
    Core idle ({ x with kernel := k' }.goOn t { c with
      phase := .parked
      tickDelta := if 0 < c.timeout then x.kernel.timers.rtTickGet else c.tickDelta
      parkedAt := x.kernel.timers.now }) ∧
      ∀ (e : Side) u, u ∈ k'.scheduler.waiting e.list → u ∈ x.kernel.scheduler.waiting e.list ∨ e = c.op.side := by
  have moved : x.kernel.next (.wait c.op.side.list flag
      (if 0 < c.timeout then some (UInt32.ofNat c.timeout.toNat) else none)) = some k' := called
  have range : ∀ tick ∈ (if 0 < c.timeout then some (UInt32.ofNat c.timeout.toNat) else none),
      Timers.InRange tick ∧ 0 < c.timeout ∧ tick.toNat = c.timeout.toNat := by
    intro tick given
    split at given
    · rename_i limited
      obtain rfl := Option.some.inj given
      rw [if_pos limited] at called
      have below : (UInt32.ofNat c.timeout.toNat).toNat = c.timeout.toNat := by
        rw [UInt32.toNat_ofNat']
        have := timely.range
        omega
      refine ⟨⟨?_, Threads.wait_range called⟩, limited, below⟩
      omega
    · exact absurd given (Option.not_mem_none _)
  have allowed : Threads.Allowed idle x.kernel (.wait c.op.side.list flag
      (if 0 < c.timeout then some (UInt32.ofNat c.timeout.toNat) else none)) :=
    ⟨⟨t, loose.runs, real⟩, fun tick given => (range tick given).1⟩
  have parked := Threads.wait_spec core.good loose.runs real (fun tick given => (range tick given).1) called
  obtain ⟨l, moved', good', -⟩ := core.good.next allowed
  obtain rfl : l = k' := Option.some.inj (moved'.symm.trans moved)
  have running := core.good.runs_on allowed ThreadAct.noConfusion moved core.running
  have joins : ∀ (e : Side) u, u ∈ l.scheduler.waiting e.list →
      u ∈ x.kernel.scheduler.waiting e.list ∨ u = t ∧ e = c.op.side := by
    intro e u member
    rcases core.good.joins allowed ThreadAct.noConfusion moved member with before | ⟨here, flag, time, same⟩
    · exact Or.inl before
    · refine Or.inr ⟨Option.some.inj (here.symm.trans loose.runs.1), ?_⟩
      exact (list_injective (ThreadAct.wait.inj same).1).symm
  have lists : ∀ (e : Side) u, u ∈ l.scheduler.waiting e.list →
      u ∈ x.kernel.scheduler.waiting e.list ∨ e = c.op.side :=
    fun e u member => (joins e u member).imp_right And.right
  refine ⟨⟨good', running, core.fifo, ?_, core.nodup, core.returns⟩, lists⟩
  intro u
  by_cases same : u = t
  · subst same
    dsimp only [goOn]
    rw [Function.update_self]
    refine ⟨?_, fun e member => absurd member (loose.free e), ?_⟩
    · intro e member
      obtain rfl := list_injective ((parked.waiting _).mp member)
      exact ⟨_, rfl, rfl, Or.inl rfl, parked.error⟩
    · rintro _ ⟨⟩
      refine ⟨real, timely.range, timely.forever, timely.limited, fun enters => Phase.noConfusion enters, fun _ => ?_⟩
      refine ⟨fun limited => if_pos limited, Nat.le_of_eq parked.now_eq.symm, waits, timely.entering enters, ?_,
        Or.inl parked.error⟩
      intro member
      obtain ⟨tick, given, due⟩ := parked.timed member
      obtain ⟨-, limited, same⟩ := range tick given
      dsimp only
      refine ⟨limited, ?_⟩
      rw [due, same]
      omega
  · have other : x.kernel.scheduler.current ≠ some u := fun here =>
      same (Option.some.inj (here.symm.trans loose.runs.1))
    dsimp only [goOn]
    rw [Function.update_of_ne same]
    refine (core.fits u).next core.good good' (fun c here => core.good.unharmed allowed other moved) ?_
    intro e member
    exact (joins e u member).resolve_right fun both => same both.1

/-- The steps that are nobody's in particular. -/
theorem anyone_spec {act : ThreadAct} (core : Core idle x) (served : Served x)
    (allowed : Threads.Allowed idle x.kernel act)
    (kind : act = .schedule ∨ act = .tick ∨ ∃ o, act = .wake o) (moved : x.kernel.next act = some k') :
    Core idle { x with kernel := k' } ∧ Served { x with kernel := k' } := by
  have aloof : ∀ t c, x.call t = some c → x.kernel.Aloof t act := by
    rcases kind with rfl | rfl | ⟨o, rfl⟩ <;> exact fun _ _ _ => trivial
  have started : act ≠ .start := by
    rcases kind with rfl | rfl | ⟨o, rfl⟩ <;> exact ThreadAct.noConfusion
  have away : ∀ (d : Side) flag time, act ≠ .wait d.list flag time := by
    rcases kind with rfl | rfl | ⟨o, rfl⟩ <;> exact fun _ _ _ => ThreadAct.noConfusion
  obtain ⟨core', lists⟩ := core.act allowed started aloof away moved
  exact ⟨core', served.kernel lists⟩

/-- `rt_schedule`, in whatever thread. -/
theorem schedule_spec (core : Core idle x) (served : Served x) (moved : x.kernel.next .schedule = some k') :
    Core idle { x with kernel := k' } ∧ Served { x with kernel := k' } := by
  have allowed : Threads.Allowed idle x.kernel .schedule := core.running
  exact anyone_spec core served allowed (Or.inl rfl) moved

instance decidableApart (x : Exchange α) : ∀ act, Decidable (x.Apart act)
  | .init _ _ _ | .startup _ | .suspend _ | .unlink _ | .insert _ | .changePriority _ _ =>
    inferInstanceAs (Decidable (_ = none))
  | .wait o _ _ | .wake o => decidable_of_iff (o ≠ 0 ∧ o ≠ 1)
    ⟨fun both d => match d with | .receivers => both.1 | .senders => both.2, fun all => ⟨all .receivers, all .senders⟩⟩
  | .start | .tick => .isFalse id
  | .schedule | .yield | .sleep _ | .exit | .enterCritical | .exitCritical => .isTrue trivial

instance decidableMinds (idle : Nat) (x : Exchange α) : ∀ move, Decidable (x.Minds idle move)
  | .begin _ _ => inferInstanceAs (Decidable (_ ∧ _ ∧ _))
  | .act _ => inferInstanceAs (Decidable (_ ∧ _))
  | .interrupt o => decidable_of_iff (x.kernel.scheduler.waiting o ≠ [] ∧ o ≠ 0 ∧ o ≠ 1)
    ⟨fun all => ⟨all.1, fun d => match d with | .receivers => all.2.1 | .senders => all.2.2⟩,
      fun all => ⟨all.1, all.2 .receivers, all.2 .senders⟩⟩
  | .step | .tick | .post _ => .isTrue trivial

end Exchange
end BleSpeaker.Kernel
