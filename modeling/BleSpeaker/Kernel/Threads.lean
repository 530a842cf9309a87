import BleSpeaker.Kernel.Schedule
import BleSpeaker.Kernel.Timer

/-!
# Threads

`thread.c` on top of the scheduler and the timers, with `rt_tick_increase` of `clock.c` and the suspend lists
of `ipc.c`. The thread `t` has the timer `t`; in this configuration there are no other hard timers.

A step is what runs with interrupts disabled. Where a function enables them and goes on, the rest is a step of
its own, and interrupts and other threads may come in between: `rt_schedule` at the end of most functions, and
the two halves of `rt_thread_resume`, which takes a thread out of its lists, enables interrupts and only then
makes it ready. `rt_thread_suspend` and `rt_thread_resume` read the state of the thread before they disable
interrupts; their steps are what comes after. With interrupts disabled, as `ipc.c` calls them, they are whole.
`rt_thread_init`, and `rt_thread_startup` up to `rt_thread_resume`, leave interrupts enabled; each is one step
because nobody else touches a thread while it is set up. An interrupt is one step.

`none` is an assert that fails or a pointer that is not valid. A thread whose state is `.close` is no object: it
was never set up, or it has exited and `rt_object_detach` has reset its type.
-/

namespace BleSpeaker.Kernel
open Lib

structure Threads where
  scheduler : Scheduler
  timers : Timers
  /-- Between the two halves of a call of `rt_thread_resume` for the thread. The code does not read it. -/
  resuming : Nat → Bool

inductive IpcFlag where
  | fifo
  | prio

namespace Threads

def rtThreadInit (k : Threads) (t priority : Nat) (tick : UInt32) : Option Threads :=
  if (k.scheduler.thread t).stat = .close ∧ priority < threadPriorityMax then
    (k.timers.rtTimerInit t 0 false).map fun timers =>
      { k with
        scheduler := k.scheduler.set t
          { stat := .init
            yielded := false
            initPriority := priority
            currentPriority := priority
            numberMask := 0
            initTick := tick
            remainingTick := tick
            error := 0 }
        timers := timers }
  else none

/-- `rt_thread_suspend` from where it disables interrupts. -/
def park (k : Threads) (t : Nat) : Option Threads :=
  (k.timers.rtTimerStop t).map fun timers =>
    { k with scheduler := (k.scheduler.rtScheduleRemoveThread t).setStat t .suspend, timers := timers }

def rtThreadSuspend (k : Threads) (t : Nat) : Option Threads :=
  let stat := (k.scheduler.thread t).stat
  if stat = .close then none
  else if stat ≠ .ready ∧ stat ≠ .running then some k
  else if stat = .running ∧ k.scheduler.current ≠ some t then none
  else k.park t

/-- `rt_thread_resume` while it has disabled interrupts. -/
def unlink (k : Threads) (t : Nat) : Option Threads :=
  (k.timers.rtTimerStop t).map fun timers =>
    { scheduler := k.scheduler.unlink t, timers := timers, resuming := Function.update k.resuming t true }

/-- The rest of `rt_thread_resume`: `rt_schedule_insert_thread`. -/
def insert (k : Threads) (t : Nat) : Threads :=
  { k with scheduler := k.scheduler.rtScheduleInsertThread t, resuming := Function.update k.resuming t false }

def rtThreadResume (k : Threads) (t : Nat) : Option Threads :=
  if (k.scheduler.thread t).stat = .close then none
  else if (k.scheduler.thread t).stat ≠ .suspend then some k
  else (k.unlink t).map fun k => k.insert t

/-- `rt_thread_startup` up to `rt_thread_resume`. -/
def rtThreadStartup (k : Threads) (t : Nat) : Option Threads :=
  let x := k.scheduler.thread t
  if x.stat = .init then
    some { k with
      scheduler := k.scheduler.set t
        { x with
          currentPriority := x.initPriority
          numberMask := priorityMask x.initPriority
          stat := .suspend
          yielded := false } }
  else none

/-- The timeout function of the thread timers. -/
def rtThreadTimeout (t : Nat) : Timers × Scheduler → Option (Timers × Scheduler)
  | (timers, s) =>
    if (s.thread t).stat = .suspend then
      (((s.set t { s.thread t with error := -eTimeout }).unlink t).rtScheduleInsertThread t).rtSchedule.map
        fun s => (timers, s)
    else none

/-- The time slice of the current thread. -/
def slice (s : Scheduler) (t : Nat) : Option Scheduler :=
  let x := s.thread t
  if x.remainingTick - 1 = 0 then
    (s.set t { x with remainingTick := x.initTick, yielded := true }).rtSchedule
  else some (s.set t { x with remainingTick := x.remainingTick - 1 })

def rtTickIncrease (k : Threads) : Option Threads :=
  k.scheduler.current.bind fun t =>
    (slice k.scheduler t).bind fun s =>
      (k.timers.check rtThreadTimeout s).map fun (timers, s) => { k with scheduler := s, timers := timers }

def rtThreadYield (k : Threads) : Option Threads :=
  k.scheduler.current.bind fun t =>
    let x := k.scheduler.thread t
    (k.scheduler.set t { x with remainingTick := x.initTick, yielded := true }).rtSchedule.map fun s =>
      { k with scheduler := s }

def startTimer (k : Threads) (t : Nat) (tick : UInt32) : Option Threads :=
  (k.timers.runAll [.setTime t tick, .start t]).map fun timers => { k with timers := timers }

/-- `rt_thread_sleep` up to `rt_schedule`. -/
def rtThreadSleep (k : Threads) (tick : UInt32) : Option Threads :=
  k.scheduler.current.bind fun t => (k.rtThreadSuspend t).bind fun k => k.startTimer t tick

/-- The place of a thread in the list of an object. -/
def link (s : Scheduler) (o t : Nat) : IpcFlag → Scheduler
  | .fifo => { s with waiting := Function.update s.waiting o (s.waiting o ++ [t]) }
  | .prio =>
    { s with
      waiting := Function.update s.waiting o
        ((s.waiting o).orderedInsert (fun t u => (s.thread t).currentPriority < (s.thread u).currentPriority) t) }

def rtIpcListSuspend (k : Threads) (o t : Nat) (flag : IpcFlag) : Option Threads :=
  (k.rtThreadSuspend t).map fun k => { k with scheduler := link k.scheduler o t flag }

/-- How `rt_sem_take` and `rt_mb_recv` suspend the current thread, for ever or with a waiting time. -/
def wait (k : Threads) (o : Nat) (flag : IpcFlag) (time : Option UInt32) : Option Threads :=
  k.scheduler.current.bind fun t =>
    let k := { k with scheduler := k.scheduler.set t { k.scheduler.thread t with error := 0 } }
    (k.rtIpcListSuspend o t flag).bind fun k =>
      match time with
      | some tick => k.startTimer t tick
      | none => some k

/-- The entry of an empty list is no thread. -/
def rtIpcListResume (k : Threads) (o : Nat) : Option Threads :=
  (k.scheduler.waiting o).head?.bind k.rtThreadResume

/-- `rt_thread_control` with `RT_THREAD_CTRL_CHANGE_PRIORITY`. -/
def changePriority (k : Threads) (t priority : Nat) : Option Threads :=
  let s := k.scheduler
  let change (s : Scheduler) : Scheduler :=
    s.set t { s.thread t with currentPriority := priority, numberMask := priorityMask priority }
  if (s.thread t).stat = .close then none
  else if (s.thread t).stat = .ready then
    some { k with scheduler := (change (s.rtScheduleRemoveThread t)).rtScheduleInsertThread t }
  else some { k with scheduler := change s }

def rtThreadExit (k : Threads) : Option Threads :=
  k.scheduler.current.bind fun t =>
    let s := k.scheduler.rtScheduleRemoveThread t
    (k.timers.rtTimerDetach t).bind fun timers =>
      (s.set t { s.thread t with stat := .close, yielded := false }).rtSchedule.map fun s =>
        { k with scheduler := s, timers := timers }

end Threads

inductive ThreadAct where
  | init (t priority : Nat) (tick : UInt32)
  | startup (t : Nat)
  | start
  | schedule
  | yield
  | sleep (tick : UInt32)
  | wait (o : Nat) (flag : IpcFlag) (time : Option UInt32)
  | wake (o : Nat)
  | suspend (t : Nat)
  | unlink (t : Nat)
  | insert (t : Nat)
  | changePriority (t priority : Nat)
  | exit
  | enterCritical
  | exitCritical
  | tick

namespace Threads

def next (k : Threads) : ThreadAct → Option Threads
  | .init t priority tick => k.rtThreadInit t priority tick
  | .startup t => k.rtThreadStartup t
  | .start => k.scheduler.rtSystemSchedulerStart.map fun s => { k with scheduler := s }
  | .schedule => k.scheduler.rtSchedule.map fun s => { k with scheduler := s }
  | .yield => k.rtThreadYield
  | .sleep tick => k.rtThreadSleep tick
  | .wait o flag time => k.wait o flag time
  | .wake o => k.rtIpcListResume o
  | .suspend t => k.park t
  | .unlink t => k.unlink t
  | .insert t => some (k.insert t)
  | .changePriority t priority => k.changePriority t priority
  | .exit => k.rtThreadExit
  | .enterCritical => some { k with scheduler := k.scheduler.rtEnterCritical }
  | .exitCritical => some { k with scheduler := k.scheduler.rtExitCritical }
  | .tick => k.rtTickIncrease

/-- A thread that was never set up. -/
def blank : Thread := ⟨.close, false, 0, 0, 0, 0, 0, 0⟩

def system : System Threads ThreadAct where
  start :=
    { scheduler := .rtSystemSchedulerInit fun _ => blank
      timers := ⟨0, [], none, fun _ => ⟨false, 0, 0, false, false, 0, 0⟩, 0, [], []⟩
      resuming := fun _ => false }
  next := next

/-! ### What holds between two steps -/

def Runs (k : Threads) (t : Nat) : Prop :=
  k.scheduler.current = some t ∧ (k.scheduler.thread t).stat = .running

/-- What the callers keep to. A thread that has suspended itself goes on with `rt_schedule`, the idle thread is
never suspended, and waiting times are in the range of the timers. A thread that is suspended or resumed is still
in the state in which the call has found it when the call disables interrupts, no two calls resume one thread at
a time, and nobody else touches a thread while it is set up or started. -/
def Allowed (idle : Nat) (k : Threads) : ThreadAct → Prop
  | .init t priority _ => priority < 32 ∧ (k.scheduler.thread t).stat = .close ∧ k.scheduler.current ≠ some t
  | .startup t => (k.scheduler.thread t).stat = .init
  | .start => k.scheduler.current = none ∧ (k.scheduler.thread idle).stat = .ready
  | .schedule => k.scheduler.current ≠ none
  | .yield => ∃ t, k.Runs t
  | .sleep tick => (∃ t, k.Runs t ∧ t ≠ idle) ∧ Timers.InRange tick
  | .wait _ _ time => (∃ t, k.Runs t ∧ t ≠ idle) ∧ ∀ tick ∈ time, Timers.InRange tick
  | .wake o => k.scheduler.waiting o ≠ []
  | .suspend t => t ≠ idle ∧ ((k.scheduler.thread t).stat = .ready ∨ k.Runs t)
  | .unlink t => (k.scheduler.thread t).stat = .suspend ∧ k.resuming t = false
  | .insert t => k.resuming t = true
  | .changePriority t priority => priority < 32 ∧ (k.scheduler.thread t).stat ≠ .close
  | .exit => ∃ t, k.Runs t ∧ t ≠ idle
  | .enterCritical => k.scheduler.lockNest < 32767
  | .exitCritical => True
  | .tick => k.scheduler.current ≠ none

/-- A thread is an object until it exits, and so is its timer. -/
def Prepared (object : Bool) (x : Thread) : Prop :=
  (object = true ↔ x.stat ≠ .close) ∧ (x.stat = .init → x.initPriority < 32)

/-- A suspended thread in no list that could wake it. -/
structure Adrift (s : Scheduler) (timers : Timers) (t : Nat) : Prop where
  asleep : (s.thread t).stat = .suspend
  fresh : t ∉ timers.list
  free : ∀ o, t ∉ s.waiting o

structure Good (idle : Nat) (k : Threads) : Prop where
  scheduler : k.scheduler.Good
  timers : k.timers.Settled
  oneshot : ∀ t, (k.timers.timer t).periodic = false
  sleeping : ∀ t ∈ k.timers.list, (k.scheduler.thread t).stat = .suspend
  idle : k.scheduler.current ≠ none →
    (k.scheduler.thread idle).stat = .ready ∨ (k.scheduler.thread idle).stat = .running
  prepared : ∀ t, Prepared (k.timers.timer t).object (k.scheduler.thread t)
  resuming : ∀ t, k.resuming t = true → Adrift k.scheduler k.timers t
  lock : 0 ≤ k.scheduler.lockNest ∧ k.scheduler.lockNest ≤ 32767

/-- Nobody's sleep is cut short but that of `w`. -/
structure Steady (k k' : Threads) (w : Option Nat) : Prop where
  now_eq : k'.timers.now = k.timers.now
  asleep : ∀ t ∈ k.timers.list, w ≠ some t → t ∈ k'.timers.list ∧ k'.timers.timer t = k.timers.timer t

variable {idle t u o : Nat} {k k' : Threads} {x : Thread} {w : Option Nat}

theorem Prepared.same {object : Bool} {y : Thread} (prepared : Prepared object x) (stat : y.stat = x.stat)
    (priority : y.initPriority = x.initPriority) : Prepared object y := by
  unfold Prepared
  rw [stat, priority]
  exact prepared

theorem Prepared.alive {object : Bool} {y : Thread} (prepared : Prepared object x) (before : x.stat ≠ .close)
    (init : y.stat ≠ .init) (close : y.stat ≠ .close) : Prepared object y :=
  ⟨⟨fun _ => close, fun _ => prepared.1.mpr before⟩, fun impossible => absurd impossible init⟩

theorem prepared_turn {object : Nat → Bool} {s v : Scheduler} (turn : s.Turn v)
    (before : ∀ t, Prepared (object t) (s.thread t)) (t : Nat) : Prepared (object t) (v.thread t) := by
  by_cases active : (s.thread t).stat = .ready ∨ (s.thread t).stat = .running
  · obtain ⟨stat, yielded, entry, active'⟩ := turn.active t active
    rw [entry]
    refine (before t).alive ?_ ?_ ?_
    · rcases active with stat | stat <;> rw [stat] <;> exact Stat.noConfusion
    · rcases active' with rfl | rfl <;> exact Stat.noConfusion
    · rcases active' with rfl | rfl <;> exact Stat.noConfusion
  · rw [not_or] at active
    rw [turn.parked t active.1 active.2]
    exact before t

theorem prepared_woken {object : Nat → Bool} {s v : Scheduler} (woken : s.Woken v t x)
    (asleep : (s.thread t).stat = .suspend) (before : ∀ t, Prepared (object t) (s.thread t)) (u : Nat) :
    Prepared (object u) (v.thread u) := by
  by_cases same : u = t
  · rw [same, woken.self]
    refine (before t).alive (by rw [asleep]; exact Stat.noConfusion) ?_ ?_
    · dsimp only
      split <;> exact Stat.noConfusion
    · dsimp only
      split <;> exact Stat.noConfusion
  · rw [woken.others u same]
    exact before u

theorem Adrift.turn {s v : Scheduler} {timers : Timers} (adrift : Adrift s timers t) (turn : s.Turn v) :
    Adrift v timers t := by
  refine ⟨?_, adrift.fresh, ?_⟩
  · rw [turn.parked t (by rw [adrift.asleep]; exact Stat.noConfusion) (by rw [adrift.asleep]; exact Stat.noConfusion)]
    exact adrift.asleep
  · rw [turn.waiting]
    exact adrift.free

theorem Adrift.woken {s v : Scheduler} {timers : Timers} (adrift : Adrift s timers u) (woken : s.Woken v t x)
    (differs : u ≠ t) : Adrift v timers u := by
  refine ⟨?_, adrift.fresh, ?_⟩
  · rw [woken.others u differs]
    exact adrift.asleep
  · intro o
    rw [woken.waiting o]
    exact fun member => adrift.free o (List.mem_of_mem_erase member)

theorem Steady.trans {l : Threads} (first : Steady k k' w) (second : Steady k' l w) : Steady k l w := by
  refine ⟨second.now_eq.trans first.now_eq, ?_⟩
  intro t member other
  obtain ⟨member', same⟩ := first.asleep t member other
  obtain ⟨member'', same'⟩ := second.asleep t member' other
  exact ⟨member'', same'.trans same⟩

theorem Steady.of_timers (same : k'.timers = k.timers) : Steady k k' w := by
  refine ⟨by rw [same], ?_⟩
  intro t member _
  rw [same]
  exact ⟨member, rfl⟩

theorem Good.awake (good : Good idle k) (awake : (k.scheduler.thread t).stat ≠ .suspend) : t ∉ k.timers.list :=
  fun member => awake (good.sleeping t member)

theorem Good.object (good : Good idle k) (alive : (k.scheduler.thread t).stat ≠ .close) :
    (k.timers.timer t).object = true := (good.prepared t).1.mpr alive

theorem Good.calm (good : Good idle k) (busy : ¬ Adrift k.scheduler k.timers t) : k.resuming t = false :=
  Bool.eq_false_iff.mpr fun resuming => busy (good.resuming t resuming)

/-- The timer of the thread `t` is the only one that changes, and no thread timer is periodic. -/
theorem Good.timer {timers : Timers} (good : Good idle k) (alive : (k.scheduler.thread t).stat ≠ .close)
    (self : (timers.timer t).object = true ∧ (timers.timer t).periodic = (k.timers.timer t).periodic)
    (others : ∀ u, u ≠ t → timers.timer u = k.timers.timer u) (u : Nat) :
    (timers.timer u).periodic = false ∧ (timers.timer u).object = (k.timers.timer u).object := by
  by_cases same : u = t
  · rw [same, self.1, self.2, good.object alive]
    exact ⟨good.oneshot t, rfl⟩
  · rw [others u same]
    exact ⟨good.oneshot u, rfl⟩

/-- The timers stay as they are, and so do the sleeping threads and the idle thread. -/
theorem Good.scheduled {s : Scheduler} (good : Good idle k) (scheduler : s.Good)
    (sleeping : ∀ t ∈ k.timers.list, (s.thread t).stat = .suspend)
    (alive : s.current ≠ none → (s.thread idle).stat = .ready ∨ (s.thread idle).stat = .running)
    (prepared : ∀ t, Prepared (k.timers.timer t).object (s.thread t))
    (resuming : ∀ t, k.resuming t = true → Adrift s k.timers t)
    (lock : s.lockNest = k.scheduler.lockNest) : Good idle { k with scheduler := s } :=
  ⟨scheduler, good.timers, good.oneshot, sleeping, alive, prepared, resuming, lock ▸ good.lock⟩

theorem Good.turn {s : Scheduler} (good : Good idle k) (scheduler : s.Good) (turn : k.scheduler.Turn s)
    (started : k.scheduler.current ≠ none) : Good idle { k with scheduler := s } := by
  refine good.scheduled scheduler ?_ ?_ (prepared_turn turn good.prepared)
    (fun t resuming => (good.resuming t resuming).turn turn) turn.lock
  · intro t member
    have asleep := good.sleeping t member
    rw [turn.parked t (by rw [asleep]; exact Stat.noConfusion) (by rw [asleep]; exact Stat.noConfusion)]
    exact asleep
  · intro _
    obtain ⟨stat, yielded, entry, active⟩ := turn.active idle (good.idle started)
    rw [entry]
    exact active

theorem Good.schedule (good : Good idle k) (started : k.scheduler.current ≠ none) :
    ∃ s, k.scheduler.rtSchedule = some s ∧ Good idle { k with scheduler := s } ∧ k.scheduler.Turn s ∧
      s.current ≠ none := by
  obtain ⟨c, here⟩ := Option.ne_none_iff_exists'.mp started
  obtain ⟨s, d, called, scheduler, turn, current⟩ := Scheduler.schedule_turn good.scheduler here
  refine ⟨s, called, good.turn scheduler turn started, turn, ?_⟩
  rw [current]
  exact Option.some_ne_none d

/-- The idle thread is always there to run. -/
theorem Good.leads {s : Scheduler} (good : Good idle k) (started : k.scheduler.current ≠ none)
    (unlocked : k.scheduler.lockNest = 0) (called : k.scheduler.rtSchedule = some s) : ∃ c, s.Leads c := by
  obtain ⟨c, here⟩ := Option.ne_none_iff_exists'.mp started
  have alive : (k.scheduler.thread c).stat = .running ∨ ∃ u, (k.scheduler.thread u).stat = .ready := by
    rcases good.idle started with ready | run
    · exact Or.inr ⟨idle, ready⟩
    · obtain rfl : idle = c := Option.some.inj ((good.scheduler.running idle run).symm.trans here)
      exact Or.inl run
  obtain ⟨v, d, called', -, -, leads⟩ := Scheduler.schedule_leads good.scheduler here unlocked alive
  obtain rfl : v = s := Option.some.inj (called'.symm.trans called)
  exact ⟨d, leads⟩

/-- Only the entry of a thread that is neither asleep nor idle changes. -/
theorem Good.set (good : Good idle k) (fits : k.scheduler.Fits t x) (before : (k.scheduler.thread t).stat ≠ .ready)
    (still : x.stat = .suspend ∨ (k.scheduler.thread t).stat ≠ .suspend)
    (alive : t = idle → k.scheduler.current ≠ none → x.stat = .running)
    (prepared : Prepared (k.timers.timer t).object x) :
    Good idle { k with scheduler := k.scheduler.set t x } := by
  refine good.scheduled (good.scheduler.set fits before ?_) ?_ ?_ ?_ ?_ rfl
  · exact still.imp_right fun awake => good.scheduler.waits.free awake
  · intro u member
    by_cases same : u = t
    · subst same
      rw [Scheduler.set_thread_self]
      exact still.resolve_right fun awake => awake (good.sleeping u member)
    · rw [Scheduler.set_thread_of_ne same]
      exact good.sleeping u member
  · intro started
    by_cases same : idle = t
    · subst same
      rw [Scheduler.set_thread_self]
      exact Or.inr (alive rfl started)
    · rw [Scheduler.set_thread_of_ne same]
      exact good.idle started
  · intro u
    by_cases same : u = t
    · subst same
      rw [Scheduler.set_thread_self]
      exact prepared
    · rw [Scheduler.set_thread_of_ne same]
      exact good.prepared u
  · intro u resuming
    have adrift := good.resuming u resuming
    refine ⟨?_, adrift.fresh, adrift.free⟩
    by_cases same : u = t
    · subst same
      rw [Scheduler.set_thread_self]
      exact still.resolve_right fun awake => awake adrift.asleep
    · rw [Scheduler.set_thread_of_ne same]
      exact adrift.asleep

/-- Of the current thread only the time slice, the flag or the error changes. -/
theorem Good.setCurrent (good : Good idle k) (here : k.scheduler.current = some t)
    (stat : x.stat = (k.scheduler.thread t).stat)
    (priority : x.currentPriority = (k.scheduler.thread t).currentPriority)
    (mask : x.numberMask = (k.scheduler.thread t).numberMask) :
    Good idle { k with scheduler := k.scheduler.set t x } := by
  have quiet := good.scheduler.current t here
  have fits : k.scheduler.Fits t x := by
    refine ⟨stat ▸ quiet.1, ?_, fun _ => here, fun _ => stat ▸ quiet.2⟩
    intro init close
    rw [priority, mask]
    exact good.scheduler.queues.mask t ⟨stat ▸ init, stat ▸ close⟩
  refine good.set fits quiet.1 ?_ ?_ ⟨stat ▸ (good.prepared t).1, fun init => absurd (stat.symm.trans init) quiet.2⟩
  · rw [stat]
    exact em _
  · rintro rfl started
    rw [stat]
    exact (good.idle started).resolve_left quiet.1

/-! ### Suspending -/

/-- The thread `t` has just been suspended and is in no list. -/
structure Parked (k k' : Threads) (t : Nat) : Prop where
  adrift : Adrift k'.scheduler k'.timers t
  calm : k'.resuming t = false
  current : k'.scheduler.current = k.scheduler.current
  now_eq : k'.timers.now = k.timers.now

theorem park_spec (good : Good idle k) (other : t ≠ idle)
    (active : (k.scheduler.thread t).stat = .ready ∨ (k.scheduler.thread t).stat = .running) :
    ∃ k', k.park t = some k' ∧ Good idle k' ∧ Steady k k' none ∧ Parked k k' t := by
  have stands : (k.scheduler.thread t).stat ≠ .init ∧ (k.scheduler.thread t).stat ≠ .suspend ∧
      (k.scheduler.thread t).stat ≠ .close := by
    rcases active with stat | stat <;> rw [stat] <;> exact ⟨Stat.noConfusion, Stat.noConfusion, Stat.noConfusion⟩
  have started : k.scheduler.Started t := ⟨stands.1, stands.2.2⟩
  obtain ⟨timers, stopped, settled, now, list, self, others⟩ := good.timers.stop (good.object stands.2.2)
  have kept := good.timer stands.2.2 self others
  let s : Scheduler := (k.scheduler.rtScheduleRemoveThread t).setStat t .suspend
  have threads : ∀ u, u ≠ t → s.thread u = k.scheduler.thread u := fun u differs => Scheduler.set_thread_of_ne differs
  have entry : s.thread t = { k.scheduler.thread t with stat := .suspend } := Scheduler.set_thread_self _ _ _
  have fresh := good.awake stands.2.1
  have list' : timers.list = k.timers.list := by rw [list, List.erase_of_not_mem fresh]
  have calm : k.resuming t = false := good.calm fun adrift => stands.2.1 adrift.asleep
  refine ⟨{ k with scheduler := s, timers := timers }, by rw [park, stopped]; rfl, ?_, ⟨now, ?_⟩,
    ⟨⟨?_, ?_, ?_⟩, calm, rfl, now⟩⟩
  · refine ⟨?_, settled, fun u => (kept u).1, ?_, ?_, ?_, ?_, good.lock⟩
    · refine good.scheduler.remove ⟨Stat.noConfusion, fun _ _ => good.scheduler.queues.mask t started, ?_, ?_⟩ started
      · exact fun run => Stat.noConfusion run
      · exact fun _ => Stat.noConfusion
    · intro u member
      dsimp only at member ⊢
      rw [list'] at member
      by_cases here : u = t
      · rw [here, entry]
      · rw [threads u here]
        exact good.sleeping u member
    · intro current
      dsimp only
      rw [threads idle (Ne.symm other)]
      exact good.idle current
    · intro u
      dsimp only
      rw [(kept u).2]
      by_cases here : u = t
      · rw [here, entry]
        exact (good.prepared t).alive stands.2.2 Stat.noConfusion Stat.noConfusion
      · rw [threads u here]
        exact good.prepared u
    · intro u resuming
      have adrift := good.resuming u resuming
      have differs : u ≠ t := by
        rintro rfl
        exact stands.2.1 adrift.asleep
      refine ⟨?_, ?_, fun o member => adrift.free o (List.mem_of_mem_erase member)⟩
      · dsimp only
        rw [threads u differs]
        exact adrift.asleep
      · dsimp only
        rw [list']
        exact adrift.fresh
  · intro u member _
    dsimp only
    rw [list']
    refine ⟨member, others u ?_⟩
    rintro rfl
    exact fresh member
  · dsimp only
    rw [entry]
  · dsimp only
    rw [list']
    exact fresh
  · intro o member
    exact good.scheduler.waits.free stands.2.1 o (List.mem_of_mem_erase member)

/-- A thread that suspends itself. -/
theorem suspend_eq (runs : k.Runs t) : k.rtThreadSuspend t = k.park t := by
  unfold rtThreadSuspend
  rw [runs.2, if_neg Stat.noConfusion, if_neg fun neither => neither.2 rfl, if_neg fun both => both.2 runs.1]

theorem startTimer_spec {tick : UInt32} (good : Good idle k) (range : Timers.InRange tick)
    (asleep : (k.scheduler.thread t).stat = .suspend) (fresh : t ∉ k.timers.list) (calm : k.resuming t = false) :
    ∃ k', k.startTimer t tick = some k' ∧ Good idle k' ∧ Steady k k' none ∧ k'.scheduler = k.scheduler ∧
      k'.resuming = k.resuming ∧ t ∈ k'.timers.list ∧ (k'.timers.timer t).due = k.timers.now + tick.toNat := by
  have alive : (k.scheduler.thread t).stat ≠ .close := by
    rw [asleep]
    exact Stat.noConfusion
  obtain ⟨timers, ran, settled, now, list, due, self, others⟩ := good.timers.restart (good.object alive) range fresh
  have kept := good.timer alive self others
  refine ⟨{ k with timers := timers }, ?_,
    ⟨good.scheduler, settled, fun u => (kept u).1, ?_, good.idle, ?_, ?_, good.lock⟩, ⟨now, ?_⟩, rfl, rfl, ?_, due⟩
  · rw [startTimer, ran]
    rfl
  · intro u member
    rcases List.mem_cons.mp (list.mem_iff.mp member) with rfl | member
    · exact asleep
    · exact good.sleeping u member
  · intro u
    dsimp only
    rw [(kept u).2]
    exact good.prepared u
  · intro u resuming
    have adrift := good.resuming u resuming
    refine ⟨adrift.asleep, fun member => ?_, adrift.free⟩
    rcases List.mem_cons.mp (list.mem_iff.mp member) with rfl | member
    · rw [calm] at resuming
      exact Bool.noConfusion resuming
    · exact adrift.fresh member
  · intro u member _
    refine ⟨list.mem_iff.mpr (List.mem_cons_of_mem t member), others u ?_⟩
    rintro rfl
    exact fresh member
  · exact list.mem_iff.mpr List.mem_cons_self

theorem link_spec (s : Scheduler) (o t : Nat) (flag : IpcFlag) :
    ((link s o t flag).waiting o).Perm (t :: s.waiting o) ∧
      (∀ o', o' ≠ o → (link s o t flag).waiting o' = s.waiting o') ∧
      link s o t flag = { s with waiting := (link s o t flag).waiting } := by
  cases flag with
  | fifo =>
    refine ⟨?_, fun o' differs => Function.update_of_ne differs _ _, rfl⟩
    show List.Perm (Function.update s.waiting o (s.waiting o ++ [t]) o) _
    rw [Function.update_self]
    exact List.perm_append_singleton t (s.waiting o)
  | prio =>
    refine ⟨?_, fun o' differs => Function.update_of_ne differs _ _, rfl⟩
    show List.Perm (Function.update s.waiting o _ o) _
    rw [Function.update_self]
    exact List.perm_orderedInsert _ _ _

theorem link_waits {s : Scheduler} {flag : IpcFlag} (waits : s.Waits) (asleep : (s.thread t).stat = .suspend)
    (free : ∀ o, t ∉ s.waiting o) : (link s o t flag).Waits := by
  obtain ⟨list, others, same⟩ := link_spec s o t flag
  have thread : (link s o t flag).thread = s.thread := by rw [same]
  have member : ∀ o' u, u ∈ (link s o t flag).waiting o' → u ∈ s.waiting o' ∨ (o' = o ∧ u = t) := by
    intro o' u here
    by_cases at_o : o' = o
    · subst at_o
      rcases List.mem_cons.mp (list.mem_iff.mp here) with rfl | before
      · exact Or.inr ⟨rfl, rfl⟩
      · exact Or.inl before
    · rw [others o' at_o] at here
      exact Or.inl here
  refine ⟨?_, ?_, ?_⟩
  · intro o' u here
    rw [thread]
    rcases member o' u here with before | ⟨-, rfl⟩
    · exact waits.suspended o' u before
    · exact asleep
  · intro o'
    by_cases at_o : o' = o
    · subst at_o
      rw [list.nodup_iff, List.nodup_cons]
      exact ⟨free o', waits.nodup o'⟩
    · rw [others o' at_o]
      exact waits.nodup o'
  · intro o₁ o₂ u here there
    rcases member o₁ u here with before | ⟨rfl, rfl⟩
    · rcases member o₂ u there with before' | ⟨rfl, rfl⟩
      · exact waits.apart o₁ o₂ u before before'
      · exact absurd before (free o₁)
    · rcases member o₂ u there with before' | ⟨rfl, -⟩
      · exact absurd before' (free o₂)
      · rfl

theorem Good.linked {flag : IpcFlag} (good : Good idle k) (asleep : (k.scheduler.thread t).stat = .suspend)
    (free : ∀ o, t ∉ k.scheduler.waiting o) (calm : k.resuming t = false) :
    Good idle { k with scheduler := link k.scheduler o t flag } := by
  obtain ⟨list, elsewhere, same⟩ := link_spec k.scheduler o t flag
  have waits : (link k.scheduler o t flag).Waits := link_waits good.scheduler.waits asleep free
  have thread : (link k.scheduler o t flag).thread = k.scheduler.thread := by rw [same]
  have current : (link k.scheduler o t flag).current = k.scheduler.current := by rw [same]
  refine good.scheduled ⟨?_, waits, ?_, ?_⟩ ?_ ?_ (by rw [thread]; exact good.prepared) ?_ (by rw [same])
  · exact good.scheduler.queues.congr (by rw [same]) (by rw [same]) thread
  · rw [thread, current]
    exact good.scheduler.running
  · rw [thread, current]
    exact good.scheduler.current
  · rw [thread]
    exact good.sleeping
  · rw [thread, current]
    exact good.idle
  · intro u resuming
    have adrift := good.resuming u resuming
    refine ⟨by rw [thread]; exact adrift.asleep, adrift.fresh, ?_⟩
    intro o' member
    by_cases at_o : o' = o
    · subst at_o
      rcases List.mem_cons.mp (list.mem_iff.mp member) with rfl | before
      · rw [calm] at resuming
        exact Bool.noConfusion resuming
      · exact adrift.free o' before
    · rw [elsewhere o' at_o] at member
      exact adrift.free o' member

/-! ### Waking up -/

/-- The thread leaves its lists. -/
theorem unlink_spec (good : Good idle k) (asleep : (k.scheduler.thread t).stat = .suspend) :
    ∃ k', k.unlink t = some k' ∧ Good idle k' ∧ Steady k k' (some t) ∧ k'.scheduler = k.scheduler.unlink t ∧
      k'.resuming = Function.update k.resuming t true := by
  have alive : (k.scheduler.thread t).stat ≠ .close := by
    rw [asleep]
    exact Stat.noConfusion
  obtain ⟨timers, stopped, settled, now, list, self, others⟩ := good.timers.stop (good.object alive)
  have kept := good.timer alive self others
  have shorter : ∀ u ∈ timers.list, u ∈ k.timers.list ∧ u ≠ t := by
    intro u member
    rw [list] at member
    exact (good.timers.good.nodup.mem_erase_iff.mp member).symm
  have tables : (k.scheduler.unlink t).table = k.scheduler.table :=
    good.scheduler.queues.erase (by rw [asleep]; exact Stat.noConfusion)
  have waits : (k.scheduler.unlink t).Waits :=
    (good.scheduler.waits.unlink (k.scheduler.thread t)).congr rfl (Function.update_eq_self t _).symm
  refine ⟨{ scheduler := k.scheduler.unlink t, timers := timers, resuming := Function.update k.resuming t true },
    by rw [unlink, stopped]; rfl, ?_, ⟨now, ?_⟩, rfl, rfl⟩
  · refine ⟨?_, settled, fun u => (kept u).1, ?_, good.idle, ?_, ?_, good.lock⟩
    · exact ⟨good.scheduler.queues.congr tables rfl rfl, waits, good.scheduler.running, good.scheduler.current⟩
    · exact fun u member => good.sleeping u (shorter u member).1
    · intro u
      dsimp only
      rw [(kept u).2]
      exact good.prepared u
    · intro u resuming
      by_cases same : u = t
      · subst same
        refine ⟨asleep, fun member => (shorter u member).2 rfl, fun o member => ?_⟩
        exact ((good.scheduler.waits.nodup o).mem_erase_iff.mp member).1 rfl
      · dsimp only at resuming
        rw [Function.update_of_ne same] at resuming
        have adrift := good.resuming u resuming
        exact ⟨adrift.asleep, fun member => adrift.fresh (shorter u member).1,
          fun o member => adrift.free o (List.mem_of_mem_erase member)⟩
  · intro u member other
    have differs : u ≠ t := by
      rintro rfl
      exact other rfl
    dsimp only
    rw [list]
    exact ⟨(List.mem_erase_of_ne differs).mpr member, others u differs⟩

/-- The thread becomes ready. -/
theorem insert_spec (good : Good idle k) (adrift : Adrift k.scheduler k.timers t) :
    Good idle (k.insert t) ∧ k.scheduler.Woken (k.insert t).scheduler t (k.scheduler.thread t) := by
  have same : (k.scheduler.set t (k.scheduler.thread t)).unlink t = k.scheduler := by
    have tables : (fun p => (k.scheduler.table p).erase t) = k.scheduler.table :=
      good.scheduler.queues.erase (by rw [adrift.asleep]; exact Stat.noConfusion)
    have waits : (fun o => (k.scheduler.waiting o).erase t) = k.scheduler.waiting :=
      funext fun o => List.erase_of_not_mem (adrift.free o)
    unfold Scheduler.unlink Scheduler.set
    rw [Function.update_eq_self]
    dsimp only
    rw [tables, waits]
  obtain ⟨scheduler, woken⟩ := Scheduler.wake_spec good.scheduler adrift.asleep adrift.asleep rfl rfl
  rw [same] at scheduler woken
  refine ⟨⟨scheduler, good.timers, good.oneshot, ?_, ?_, prepared_woken woken adrift.asleep good.prepared, ?_,
    woken.lock ▸ good.lock⟩, woken⟩
  · intro u member
    have differs : u ≠ t := by
      rintro rfl
      exact adrift.fresh member
    show ((k.scheduler.rtScheduleInsertThread t).thread u).stat = .suspend
    rw [woken.others u differs]
    exact good.sleeping u member
  · show (k.scheduler.rtScheduleInsertThread t).current ≠ none →
      ((k.scheduler.rtScheduleInsertThread t).thread idle).stat = .ready ∨
        ((k.scheduler.rtScheduleInsertThread t).thread idle).stat = .running
    intro started
    rw [woken.current] at started
    by_cases here : idle = t
    · subst here
      exact absurd adrift.asleep (by rcases good.idle started with stat | stat <;> rw [stat] <;> exact Stat.noConfusion)
    · rw [woken.others idle here]
      exact good.idle started
  · intro u resuming
    by_cases here : u = t
    · subst here
      change Function.update k.resuming u false u = true at resuming
      rw [Function.update_self] at resuming
      exact Bool.noConfusion resuming
    · change Function.update k.resuming t false u = true at resuming
      rw [Function.update_of_ne here] at resuming
      exact (good.resuming u resuming).woken woken here

theorem resume_spec (good : Good idle k) (asleep : (k.scheduler.thread t).stat = .suspend) :
    ∃ k', k.rtThreadResume t = some k' ∧ Good idle k' ∧ Steady k k' (some t) ∧
      k.scheduler.Woken k'.scheduler t (k.scheduler.thread t) := by
  obtain ⟨l, unlinked, good', steady, scheduler, resuming⟩ := unlink_spec good asleep
  have adrift : Adrift l.scheduler l.timers t := good'.resuming t (by rw [resuming, Function.update_self])
  obtain ⟨good'', -⟩ := insert_spec good' adrift
  have set : k.scheduler.set t (k.scheduler.thread t) = k.scheduler := by
    unfold Scheduler.set
    rw [Function.update_eq_self]
  obtain ⟨-, woken⟩ := Scheduler.wake_spec good.scheduler asleep asleep rfl rfl
  rw [set, ← scheduler] at woken
  refine ⟨l.insert t, ?_, good'', ⟨steady.now_eq, steady.asleep⟩, woken⟩
  unfold rtThreadResume
  rw [asleep, if_neg Stat.noConfusion, if_neg (not_not.mpr rfl), unlinked]
  rfl

end Threads

end BleSpeaker.Kernel
