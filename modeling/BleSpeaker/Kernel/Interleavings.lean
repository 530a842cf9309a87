import BleSpeaker.Kernel.Ticks

/-!
# Every interleaving of the threads

No step that is allowed fails an assert or follows a pointer that is not valid, and the queues, the lists of the
objects and the timers agree with the states of the threads in every run. After `rt_schedule` no ready thread is
more urgent than the running one, and a thread that sleeps is woken on its tick and not before.
-/

namespace BleSpeaker.Kernel.Threads
open Lib
variable {idle t u o : Nat} {k k' : Threads} {x : Thread} {w : Option Nat}

/-! ### Every step -/

/-- The thread that a step wakes before its time. -/
def woken (k : Threads) : ThreadAct → Option Nat
  | .unlink t => some t
  | .wake o => (k.scheduler.waiting o).head?
  | _ => none

theorem Runs.started (runs : k.Runs t) : k.scheduler.current ≠ none := by
  rw [runs.1]
  exact Option.some_ne_none t

theorem init_next {priority : Nat} (tick : UInt32) (good : Good idle k) (valid : priority < 32)
    (closed : (k.scheduler.thread t).stat = .close) (away : k.scheduler.current ≠ some t) :
    ∃ k', k.rtThreadInit t priority tick = some k' ∧ Good idle k' ∧ Steady k k' none := by
  have stands : (k.scheduler.thread t).stat ≠ .suspend ∧ (k.scheduler.thread t).stat ≠ .ready := by
    rw [closed]
    exact ⟨Stat.noConfusion, Stat.noConfusion⟩
  have fresh := good.awake stands.1
  have unused : (k.timers.timer t).object = false := by
    rw [← Bool.not_eq_true, (good.prepared t).1, not_not]
    exact closed
  obtain ⟨timers, set, settled, now, list, self, others⟩ := good.timers.init unused 0 false
  let x : Thread := ⟨.init, false, priority, priority, 0, tick, tick, 0⟩
  have fits : k.scheduler.Fits t x :=
    ⟨Stat.noConfusion, fun init => absurd rfl init, fun run => Stat.noConfusion run, fun current => absurd current away⟩
  have scheduler := good.scheduler.set fits stands.2 (Or.inr (good.scheduler.waits.free stands.1))
  have threads : ∀ u, u ≠ t → (k.scheduler.set t x).thread u = k.scheduler.thread u :=
    fun u differs => Scheduler.set_thread_of_ne differs
  refine ⟨{ k with scheduler := k.scheduler.set t x, timers := timers }, ?_,
    ⟨scheduler, settled, ?_, ?_, ?_, ?_, ?_, good.lock⟩, ⟨now, ?_⟩⟩
  · rw [rtThreadInit, if_pos ⟨closed, valid⟩, set]
    rfl
  · intro u
    by_cases same : u = t
    · rw [same]
      exact self.2
    · dsimp only
      rw [others u same]
      exact good.oneshot u
  · intro u member
    dsimp only at member ⊢
    rw [list] at member
    have differs : u ≠ t := by
      rintro rfl
      exact fresh member
    rw [threads u differs]
    exact good.sleeping u member
  · intro started
    have differs : idle ≠ t := by
      rintro rfl
      rcases good.idle started with stat | stat
      · exact stands.2 stat
      · exact Stat.noConfusion (closed.symm.trans stat)
    dsimp only
    rw [threads idle differs]
    exact good.idle started
  · intro u
    dsimp only
    by_cases same : u = t
    · rw [same, Scheduler.set_thread_self]
      exact ⟨⟨fun _ => Stat.noConfusion, fun _ => self.1⟩, fun _ => valid⟩
    · rw [threads u same, others u same]
      exact good.prepared u
  · intro u resuming
    have adrift := good.resuming u resuming
    have differs : u ≠ t := by
      rintro rfl
      exact stands.1 adrift.asleep
    refine ⟨?_, ?_, adrift.free⟩
    · dsimp only
      rw [threads u differs]
      exact adrift.asleep
    · dsimp only
      rw [list]
      exact adrift.fresh
  · intro u member _
    dsimp only
    rw [list]
    refine ⟨member, others u ?_⟩
    rintro rfl
    exact fresh member

theorem startup_next (good : Good idle k) (init : (k.scheduler.thread t).stat = .init) :
    ∃ k', k.rtThreadStartup t = some k' ∧ Good idle k' ∧ k'.timers = k.timers := by
  have stands : (k.scheduler.thread t).stat ≠ .ready ∧ (k.scheduler.thread t).stat ≠ .running ∧
      (k.scheduler.thread t).stat ≠ .close := by
    rw [init]
    exact ⟨Stat.noConfusion, Stat.noConfusion, Stat.noConfusion⟩
  refine ⟨_, if_pos init, good.set ?_ stands.1 (Or.inl rfl) ?_ ?_, rfl⟩
  · exact ⟨Stat.noConfusion, fun _ _ => ⟨(good.prepared t).2 init, rfl⟩, fun run => Stat.noConfusion run,
      fun _ => Stat.noConfusion⟩
  · rintro rfl started
    rcases good.idle started with ready | run
    · exact absurd ready stands.1
    · exact absurd run stands.2.1
  · exact (good.prepared t).alive stands.2.2 Stat.noConfusion Stat.noConfusion

theorem start_next (good : Good idle k) (stopped : k.scheduler.current = none)
    (ready : (k.scheduler.thread idle).stat = .ready) :
    ∃ s, k.scheduler.rtSystemSchedulerStart = some s ∧ Good idle { k with scheduler := s } := by
  have filled : k.scheduler.group ≠ 0 := by
    intro clear
    have member := (good.scheduler.queues.queued _ idle).mpr ⟨ready, rfl⟩
    rw [good.scheduler.queues.empty clear] at member
    exact absurd member List.not_mem_nil
  obtain ⟨p, first, rest, highest⟩ := good.scheduler.queues.highest filled
  obtain ⟨waits, priority⟩ := highest.ready good.scheduler.queues
  let v : Scheduler := { k.scheduler with current := some first }
  have alone : ∀ u, (v.thread u).stat ≠ .running := fun u run =>
    absurd ((good.scheduler.running u run).symm.trans stopped) (Option.some_ne_none u)
  obtain ⟨scheduler, current, -, new, others, waiting, lock⟩ := Scheduler.dispatch_spec
    (good.scheduler.queues.congr rfl rfl rfl : v.Queues) (good.scheduler.waits.congr rfl rfl) rfl waits alone
  have called : k.scheduler.rtSystemSchedulerStart = some ((v.dispatch first).setYield first false) := by
    rw [Scheduler.rtSystemSchedulerStart, highest.priority, highest.queue]
    rfl
  have good' : Good idle { k with scheduler := v.dispatch first } := by
    refine good.scheduled scheduler ?_ ?_ ?_ ?_ lock
    · intro u member
      have asleep := good.sleeping u member
      rw [others u ?_]
      · exact asleep
      · rintro rfl
        exact Stat.noConfusion (waits.symm.trans asleep)
    · intro _
      by_cases same : idle = first
      · subst same
        rw [new]
        exact Or.inr rfl
      · rw [others idle same]
        exact Or.inl ready
    · intro u
      by_cases same : u = first
      · rw [same, new]
        exact (good.prepared first).alive (by rw [waits]; exact Stat.noConfusion) Stat.noConfusion Stat.noConfusion
      · rw [others u same]
        exact good.prepared u
    · intro u resuming
      have adrift := good.resuming u resuming
      refine ⟨?_, adrift.fresh, ?_⟩
      · rw [others u ?_]
        · exact adrift.asleep
        · rintro rfl
          exact Stat.noConfusion (waits.symm.trans adrift.asleep)
      · rw [waiting]
        exact adrift.free
  exact ⟨_, called, good'.setCurrent current rfl rfl rfl⟩

/-- A thread that sleeps suspends itself first. -/
theorem sleep_parks (tick : UInt32) (good : Good idle k) (runs : k.Runs t) (other : t ≠ idle) :
    ∃ k₁, k.park t = some k₁ ∧ Good idle k₁ ∧ Steady k k₁ none ∧ Parked k k₁ t ∧
      k.rtThreadSleep tick = k₁.startTimer t tick := by
  obtain ⟨k₁, suspended, good₁, steady₁, parked⟩ := park_spec good other (Or.inr runs.2)
  refine ⟨k₁, suspended, good₁, steady₁, parked, ?_⟩
  rw [rtThreadSleep, runs.1, Option.bind_some, suspend_eq runs, suspended, Option.bind_some]

theorem sleep_next {tick : UInt32} (good : Good idle k) (runs : k.Runs t) (other : t ≠ idle)
    (range : Timers.InRange tick) :
    ∃ k', k.rtThreadSleep tick = some k' ∧ Good idle k' ∧ Steady k k' none ∧ t ∈ k'.timers.list ∧
      (k'.timers.timer t).due = k'.timers.now + tick.toNat := by
  obtain ⟨k₁, -, good₁, steady₁, parked, called⟩ := sleep_parks tick good runs other
  obtain ⟨k₂, started, good₂, steady₂, -, -, listed, due⟩ :=
    startTimer_spec good₁ range parked.adrift.asleep parked.adrift.fresh parked.calm
  exact ⟨k₂, called.trans started, good₂, steady₁.trans steady₂, listed, steady₂.now_eq ▸ due⟩

/-- The thread `t` as `wait` suspends it, without an error. -/
def cleared (k : Threads) (t : Nat) : Threads :=
  { k with scheduler := k.scheduler.set t { k.scheduler.thread t with error := 0 } }

theorem Good.cleared (good : Good idle k) (runs : k.Runs t) : Good idle (k.cleared t) ∧ (k.cleared t).Runs t := by
  refine ⟨good.setCurrent runs.1 rfl rfl rfl, runs.1, ?_⟩
  show ((k.scheduler.set t _).thread t).stat = .running
  rw [Scheduler.set_thread_self]
  exact runs.2

/-- A thread that waits suspends itself first and joins the list of the object. -/
theorem wait_parks (flag : IpcFlag) (good : Good idle k) (runs : k.Runs t) (other : t ≠ idle) :
    ∃ k₁ k₂, (k.cleared t).park t = some k₁ ∧ k₂ = { k₁ with scheduler := link k₁.scheduler o t flag } ∧
      Good idle k₂ ∧ Steady k k₂ none ∧ Parked (k.cleared t) k₁ t ∧
      (k₂.scheduler.thread t).stat = .suspend ∧ k₂.resuming t = false ∧
      ∀ time, k.wait o flag time = match time with
        | some tick => k₂.startTimer t tick
        | none => some k₂ := by
  obtain ⟨good₀, runs₀⟩ := good.cleared runs
  obtain ⟨k₁, suspended, good₁, steady₁, parked⟩ := park_spec good₀ other (Or.inr runs₀.2)
  obtain ⟨-, -, same⟩ := link_spec k₁.scheduler o t flag
  refine ⟨k₁, _, suspended, rfl, good₁.linked parked.adrift.asleep parked.adrift.free parked.calm,
    ⟨steady₁.now_eq, steady₁.asleep⟩, parked, ?_, parked.calm, ?_⟩
  · dsimp only
    rw [same]
    exact parked.adrift.asleep
  · intro time
    rw [wait, runs.1, Option.bind_some]
    show Option.bind ((k.cleared t).rtIpcListSuspend o t flag) _ = _
    rw [rtIpcListSuspend, suspend_eq runs₀, suspended]
    rfl

theorem wait_next {flag : IpcFlag} {time : Option UInt32} (good : Good idle k) (runs : k.Runs t) (other : t ≠ idle)
    (range : ∀ tick ∈ time, Timers.InRange tick) :
    ∃ k', k.wait o flag time = some k' ∧ Good idle k' ∧ Steady k k' none ∧
      ∀ tick ∈ time, t ∈ k'.timers.list ∧ (k'.timers.timer t).due = k'.timers.now + tick.toNat := by
  obtain ⟨k₁, k₂, -, rfl, good₂, steady₂, parked, asleep, calm, called⟩ := wait_parks (o := o) flag good runs other
  cases time with
  | none => exact ⟨_, called none, good₂, steady₂, nofun⟩
  | some tick =>
    obtain ⟨k₃, started, good₃, steady₃, -, -, timed, due⟩ :=
      startTimer_spec good₂ (range tick rfl) asleep parked.adrift.fresh calm
    refine ⟨k₃, (called (some tick)).trans started, good₃, steady₂.trans steady₃, ?_⟩
    rintro _ ⟨⟩
    exact ⟨timed, steady₃.now_eq ▸ due⟩

theorem change_next {priority : Nat} (good : Good idle k) (valid : priority < 32)
    (alive : (k.scheduler.thread t).stat ≠ .close) :
    ∃ k', k.changePriority t priority = some k' ∧ Good idle k' ∧ k'.timers = k.timers := by
  let x : Thread :=
    { k.scheduler.thread t with currentPriority := priority, numberMask := priorityMask priority }
  by_cases ready : (k.scheduler.thread t).stat = .ready
  · let s : Scheduler := ((k.scheduler.rtScheduleRemoveThread t).set t x).rtScheduleInsertThread t
    obtain ⟨scheduler, requeued⟩ : s.Good ∧ k.scheduler.Requeued s t x :=
      Scheduler.requeue_spec good.scheduler ready ready valid rfl
    have called : k.changePriority t priority = some { k with scheduler := s } := by
      unfold changePriority
      rw [if_neg alive, if_pos ready]
      rfl
    have same : ∀ u, (s.thread u).stat = (k.scheduler.thread u).stat ∧
        (s.thread u).initPriority = (k.scheduler.thread u).initPriority := by
      intro u
      by_cases here : u = t
      · rw [here, requeued.self]
        exact ⟨rfl, rfl⟩
      · rw [requeued.others u here]
        exact ⟨rfl, rfl⟩
    refine ⟨_, called, good.scheduled scheduler ?_ ?_ ?_ ?_ requeued.lock, rfl⟩
    · intro u member
      rw [(same u).1]
      exact good.sleeping u member
    · rw [requeued.current, (same idle).1]
      exact good.idle
    · exact fun u => (good.prepared u).same (same u).1 (same u).2
    · intro u resuming
      have adrift := good.resuming u resuming
      exact ⟨(same u).1.trans adrift.asleep, adrift.fresh, by rw [requeued.waiting]; exact adrift.free⟩
  · have called : k.changePriority t priority = some { k with scheduler := k.scheduler.set t x } := by
      unfold changePriority
      rw [if_neg alive, if_neg ready]
    refine ⟨_, called, good.set ⟨ready, fun _ _ => ⟨valid, rfl⟩, good.scheduler.running t, ?_⟩ ready (em _) ?_
      ((good.prepared t).same rfl rfl), rfl⟩
    · exact fun current => (good.scheduler.current t current).2
    · rintro rfl started
      exact (good.idle started).resolve_left ready

theorem yield_next (good : Good idle k) (started : k.scheduler.current ≠ none) :
    ∃ k', k.rtThreadYield = some k' ∧ Good idle k' ∧ k'.timers = k.timers ∧
      (k.scheduler.lockNest = 0 → ∃ c, k'.scheduler.Leads c) := by
  obtain ⟨t, here⟩ := Option.ne_none_iff_exists'.mp started
  let x : Thread := { k.scheduler.thread t with remainingTick := (k.scheduler.thread t).initTick, yielded := true }
  have changed : Good idle { k with scheduler := k.scheduler.set t x } := good.setCurrent here rfl rfl rfl
  obtain ⟨s, called, good', -⟩ := changed.schedule started
  refine ⟨{ k with scheduler := s }, ?_, good', rfl, fun unlocked => changed.leads started unlocked called⟩
  rw [rtThreadYield, here, Option.bind_some]
  show Option.map _ (k.scheduler.set t x).rtSchedule = _
  rw [called]
  rfl

/-- The current thread is closed, and its timer with it. -/
theorem Good.closed (good : Good idle k) (runs : k.Runs t) (other : t ≠ idle) :
    ∃ timers, k.timers.rtTimerDetach t = some timers ∧ Steady k { k with timers := timers } none ∧
      Good idle { k with
        scheduler := (k.scheduler.rtScheduleRemoveThread t).set t
          { k.scheduler.thread t with stat := .close, yielded := false }
        timers := timers } := by
  let x : Thread := { k.scheduler.thread t with stat := .close, yielded := false }
  have stands : (k.scheduler.thread t).stat ≠ .suspend ∧ (k.scheduler.thread t).stat ≠ .close := by
    rw [runs.2]
    exact ⟨Stat.noConfusion, Stat.noConfusion⟩
  have fresh := good.awake stands.1
  obtain ⟨timers, detached, settled, now, list, self, others⟩ := good.timers.detach (good.object stands.2) fresh
  have started : k.scheduler.Started t := Scheduler.started_of_stat runs.2 ⟨Stat.noConfusion, Stat.noConfusion⟩
  have fits : k.scheduler.Fits t x :=
    ⟨Stat.noConfusion, fun _ close => absurd rfl close, fun run => Stat.noConfusion run, fun _ => Stat.noConfusion⟩
  have threads : ∀ u, u ≠ t → ((k.scheduler.rtScheduleRemoveThread t).set t x).thread u = k.scheduler.thread u :=
    fun u differs => Scheduler.set_thread_of_ne differs
  refine ⟨timers, detached, ⟨now, ?_⟩,
    ⟨good.scheduler.remove fits started, settled, ?_, ?_, ?_, ?_, ?_, good.lock⟩⟩
  · intro u member _
    dsimp only
    rw [list]
    refine ⟨member, others u ?_⟩
    rintro rfl
    exact fresh member
  · intro u
    by_cases same : u = t
    · rw [same]
      exact self.2.trans (good.oneshot t)
    · dsimp only
      rw [others u same]
      exact good.oneshot u
  · intro u member
    dsimp only at member ⊢
    rw [list] at member
    rw [threads u ?_]
    · exact good.sleeping u member
    · rintro rfl
      exact fresh member
  · dsimp only
    rw [threads idle (Ne.symm other)]
    exact good.idle
  · intro u
    dsimp only
    by_cases same : u = t
    · rw [same, Scheduler.set_thread_self, self.1]
      exact ⟨⟨fun object => Bool.noConfusion object, fun close => absurd rfl close⟩, fun init => Stat.noConfusion init⟩
    · rw [threads u same, others u same]
      exact good.prepared u
  · intro u resuming
    have adrift := good.resuming u resuming
    refine ⟨?_, ?_, fun o member => adrift.free o (List.mem_of_mem_erase member)⟩
    · dsimp only
      rw [threads u ?_]
      · exact adrift.asleep
      · rintro rfl
        exact stands.1 adrift.asleep
    · dsimp only
      rw [list]
      exact adrift.fresh

theorem exit_next (good : Good idle k) (runs : k.Runs t) (other : t ≠ idle) :
    ∃ k', k.rtThreadExit = some k' ∧ Good idle k' ∧ Steady k k' none ∧
      (k.scheduler.lockNest = 0 → ∃ c, k'.scheduler.Leads c) := by
  obtain ⟨timers, detached, steady, closed⟩ := good.closed runs other
  obtain ⟨s, called, good', -⟩ := closed.schedule runs.started
  refine ⟨{ k with scheduler := s, timers := timers }, ?_, good', ⟨steady.now_eq, steady.asleep⟩,
    fun unlocked => closed.leads runs.started unlocked called⟩
  rw [rtThreadExit, runs.1, Option.bind_some, detached, Option.bind_some]
  change Scheduler.rtSchedule _ = some s at called
  exact congrArg _ called

theorem lock_next {s : Scheduler} (good : Good idle k) (same : s = { k.scheduler with lockNest := s.lockNest })
    (lock : 0 ≤ s.lockNest ∧ s.lockNest ≤ 32767) : Good idle { k with scheduler := s } := by
  rw [same]
  refine ⟨⟨good.scheduler.queues.congr rfl rfl rfl, good.scheduler.waits.congr rfl rfl, good.scheduler.running,
    good.scheduler.current⟩, good.timers, good.oneshot, good.sleeping, good.idle, good.prepared, ?_, lock⟩
  intro t resuming
  exact ⟨(good.resuming t resuming).asleep, (good.resuming t resuming).fresh, (good.resuming t resuming).free⟩

/-- No step that is allowed fails, and only a tick ends a sleep that nobody cuts short. -/
theorem Good.next {act : ThreadAct} (good : Good idle k) (allowed : Allowed idle k act) :
    ∃ k', k.next act = some k' ∧ Good idle k' ∧ (act = .tick ∨ Steady k k' (k.woken act)) := by
  cases act with
  | init t priority tick =>
    obtain ⟨k', called, good', steady⟩ := init_next tick good allowed.1 allowed.2.1 allowed.2.2
    exact ⟨k', called, good', Or.inr steady⟩
  | startup t =>
    obtain ⟨k', called, good', same⟩ := startup_next good allowed
    exact ⟨k', called, good', Or.inr (.of_timers same)⟩
  | start =>
    obtain ⟨s, called, good'⟩ := start_next good allowed.1 allowed.2
    refine ⟨{ k with scheduler := s }, ?_, good', Or.inr (.of_timers rfl)⟩
    rw [Threads.next, called]
    rfl
  | schedule =>
    obtain ⟨s, called, good', -⟩ := good.schedule allowed
    refine ⟨{ k with scheduler := s }, ?_, good', Or.inr (.of_timers rfl)⟩
    rw [Threads.next, called]
    rfl
  | yield =>
    obtain ⟨t, runs⟩ := allowed
    obtain ⟨k', called, good', same, -⟩ := yield_next good runs.started
    exact ⟨k', called, good', Or.inr (.of_timers same)⟩
  | sleep tick =>
    obtain ⟨⟨t, runs, other⟩, range⟩ := allowed
    obtain ⟨k', called, good', steady, -⟩ := sleep_next good runs other range
    exact ⟨k', called, good', Or.inr steady⟩
  | wait o flag time =>
    obtain ⟨⟨t, runs, other⟩, range⟩ := allowed
    obtain ⟨k', called, good', steady, -⟩ := wait_next good runs other range
    exact ⟨k', called, good', Or.inr steady⟩
  | wake o =>
    obtain ⟨t, rest, first⟩ := List.exists_cons_of_ne_nil allowed
    have asleep := good.scheduler.waits.suspended o t (by rw [first]; exact List.mem_cons_self)
    obtain ⟨k', called, good', steady, -⟩ := resume_spec good asleep
    refine ⟨k', ?_, good', Or.inr ?_⟩
    · rw [Threads.next, rtIpcListResume, first]
      exact called
    · rw [woken, first]
      exact steady
  | suspend t =>
    obtain ⟨k', called, good', steady, -⟩ := park_spec good allowed.1 (allowed.2.imp_right And.right)
    exact ⟨k', called, good', Or.inr steady⟩
  | unlink t =>
    obtain ⟨k', called, good', steady, -⟩ := unlink_spec good allowed.1
    exact ⟨k', called, good', Or.inr steady⟩
  | insert t =>
    obtain ⟨good', -⟩ := insert_spec good (good.resuming t allowed)
    exact ⟨_, rfl, good', Or.inr (.of_timers rfl)⟩
  | changePriority t priority =>
    obtain ⟨k', called, good', same⟩ := change_next good allowed.1 allowed.2
    exact ⟨k', called, good', Or.inr (.of_timers same)⟩
  | exit =>
    obtain ⟨t, runs, other⟩ := allowed
    obtain ⟨k', called, good', steady, -⟩ := exit_next good runs other
    exact ⟨k', called, good', Or.inr steady⟩
  | enterCritical =>
    refine ⟨_, rfl, lock_next good rfl ?_, Or.inr (.of_timers rfl)⟩
    have bound := good.lock
    have below : k.scheduler.lockNest < 32767 := allowed
    show 0 ≤ (k.scheduler.lockNest + 1).bmod 65536 ∧ (k.scheduler.lockNest + 1).bmod 65536 ≤ 32767
    rw [Int.bmod_def]
    omega
  | exitCritical =>
    refine ⟨_, rfl, lock_next good rfl ?_, Or.inr (.of_timers rfl)⟩
    have bound := good.lock
    show 0 ≤ max 0 ((k.scheduler.lockNest - 1).bmod 65536) ∧ max 0 ((k.scheduler.lockNest - 1).bmod 65536) ≤ 32767
    rw [Int.bmod_def]
    omega
  | tick =>
    obtain ⟨k', called, good', -⟩ := tick_spec good allowed
    exact ⟨k', called, good', Or.inl rfl⟩

/-! ### Who runs after a step -/

theorem slice_leads {s : Scheduler} {c : Nat} (good : Good idle k) (unlocked : k.scheduler.lockNest = 0)
    (leads : k.scheduler.Leads c) (sliced : slice k.scheduler c = some s) : ∃ d, s.Leads d := by
  have started : k.scheduler.current ≠ none := by
    rw [leads.current]
    exact Option.some_ne_none c
  unfold slice at sliced
  dsimp only at sliced
  split at sliced
  · let x : Thread := { k.scheduler.thread c with remainingTick := (k.scheduler.thread c).initTick, yielded := true }
    have changed : Good idle { k with scheduler := k.scheduler.set c x } := good.setCurrent leads.current rfl rfl rfl
    exact changed.leads started unlocked sliced
  · rw [← Option.some.inj sliced]
    refine ⟨c, leads.current, ?_, ?_⟩
    · rw [Scheduler.set_thread_self]
      exact leads.running
    · intro u ready
      rw [Scheduler.set_thread_self]
      have differs : u ≠ c := by
        rintro rfl
        rw [Scheduler.set_thread_self] at ready
        exact Stat.noConfusion (leads.running.symm.trans ready)
      rw [Scheduler.set_thread_of_ne differs] at ready ⊢
      exact leads.first u ready

theorem Timeout.leads {s m v : Scheduler} {c : Nat} (step : Timeout s m v t) (unlocked : s.lockNest = 0)
    (leads : s.Leads c) : ∃ d, v.Leads d := by
  have differs : c ≠ t := by
    rintro rfl
    exact Stat.noConfusion (leads.running.symm.trans step.asleep)
  have running : (m.thread c).stat = .running := by
    rw [step.woken.others c differs]
    exact leads.running
  obtain ⟨v', d, called, -, -, leads'⟩ := Scheduler.schedule_leads step.good' (step.woken.current.trans leads.current)
    (step.woken.lock.trans unlocked) (Or.inl running)
  obtain rfl : v' = v := Option.some.inj (called.symm.trans step.schedule)
  exact ⟨d, leads'⟩

theorem tick_leads {c : Nat} (good : Good idle k) (unlocked : k.scheduler.lockNest = 0) (leads : k.scheduler.Leads c)
    (ticked : k.rtTickIncrease = some k') : ∃ d, k'.scheduler.Leads d := by
  obtain ⟨s, sliced, good', running, lock⟩ := slice_spec good leads.current
  have first := slice_leads good unlocked leads sliced
  let P : Timers → Scheduler → Prop := fun _ s => s.lockNest = 0 ∧ ∃ d, s.Leads d
  obtain ⟨timers, s', checked, -, -, -, holds⟩ := check_spec (P := P) good' running ⟨lock.trans unlocked, first⟩ (by
    rintro timers s m v u ⟨unlocked, d, leads⟩ - - - step
    exact ⟨step.turn.lock.trans (step.woken.lock.trans unlocked), step.leads unlocked leads⟩)
  have called : k.rtTickIncrease = some { k with scheduler := s', timers := timers } := by
    rw [rtTickIncrease, leads.current, Option.bind_some, sliced, Option.bind_some, checked]
    rfl
  rw [← Option.some.inj (called.symm.trans ticked)]
  exact holds.2

/-! ### In every run -/

instance (tick : UInt32) : Decidable (Timers.InRange tick) := inferInstanceAs (Decidable (_ ∧ _))
instance decidableRuns (k : Threads) (P : Nat → Prop) [DecidablePred P] : Decidable (∃ t, k.Runs t ∧ P t) :=
  match here : k.scheduler.current with
  | none => .isFalse fun ⟨t, runs, _⟩ => Option.some_ne_none t (runs.1.symm.trans here)
  | some t =>
    decidable_of_iff ((k.scheduler.thread t).stat = .running ∧ P t)
      ⟨fun both => ⟨t, ⟨here, both.1⟩, both.2⟩, fun ⟨_, runs, holds⟩ =>
        (Option.some.inj (here.symm.trans runs.1)) ▸ ⟨runs.2, holds⟩⟩

instance (k : Threads) (t : Nat) : Decidable (k.Runs t) := inferInstanceAs (Decidable (_ ∧ _))

instance decidableAllowed (idle : Nat) (k : Threads) : ∀ act, Decidable (Allowed idle k act)
  | .init _ _ _ => inferInstanceAs (Decidable (_ ∧ _ ∧ _))
  | .startup _ => inferInstanceAs (Decidable (_ = _))
  | .start => inferInstanceAs (Decidable (_ ∧ _))
  | .schedule => inferInstanceAs (Decidable (_ ≠ _))
  | .yield =>
    decidable_of_iff (∃ t, k.Runs t ∧ True) ⟨fun ⟨t, runs, _⟩ => ⟨t, runs⟩, fun ⟨t, runs⟩ => ⟨t, runs, trivial⟩⟩
  | .sleep tick => inferInstanceAs (Decidable ((∃ t, k.Runs t ∧ t ≠ idle) ∧ Timers.InRange tick))
  | .wait _ _ none => decidable_of_iff (∃ t, k.Runs t ∧ t ≠ idle) ⟨fun runs => ⟨runs, nofun⟩, And.left⟩
  | .wait _ _ (some tick) =>
    decidable_of_iff ((∃ t, k.Runs t ∧ t ≠ idle) ∧ Timers.InRange tick)
      ⟨fun both => ⟨both.1, fun _ same => Option.some.inj same ▸ both.2⟩, fun both => ⟨both.1, both.2 tick rfl⟩⟩
  | .wake _ => inferInstanceAs (Decidable (_ ≠ _))
  | .suspend _ => inferInstanceAs (Decidable (_ ∧ (_ ∨ _)))
  | .unlink _ => inferInstanceAs (Decidable (_ ∧ _))
  | .insert _ => inferInstanceAs (Decidable (_ = _))
  | .changePriority _ _ => inferInstanceAs (Decidable (_ ∧ _))
  | .exit => inferInstanceAs (Decidable (∃ t, k.Runs t ∧ t ≠ idle))
  | .enterCritical => inferInstanceAs (Decidable (_ < _))
  | .exitCritical => .isTrue trivial
  | .tick => inferInstanceAs (Decidable (_ ≠ _))

theorem Good.start (idle : Nat) : Good idle system.start := by
  refine ⟨⟨⟨?_, ?_, ?_, ?_⟩, ⟨?_, ?_, ?_⟩, ?_, ?_⟩,
    ⟨⟨?_, ?_, ?_, ?_, ?_, ?_, ?_, ?_, ?_, List.Perm.refl _⟩, rfl, ?_⟩, ?_, ?_, ?_, ?_, ?_, ?_⟩
  all_goals simp [system, Scheduler.rtSystemSchedulerInit, blank, Scheduler.Started, Prepared]

theorem Good.reached (reached : system.Guarded (Allowed idle) k) : Good idle k := by
  apply reached.invariant (Good.start idle)
  intro k act k' good allowed moved
  obtain ⟨l, moved', good', -⟩ := good.next allowed
  obtain rfl : l = k' := Option.some.inj (moved'.symm.trans moved)
  exact good'

/-- The threads, the queues, the lists and the timers agree in every run, every call is served, and `rt_schedule`
leaves the most urgent thread running. -/
theorem threads_scheduled (reached : system.Guarded (Allowed idle) k) :
    (∀ p t, t ∈ k.scheduler.table p ↔
      (k.scheduler.thread t).stat = .ready ∧ (k.scheduler.thread t).currentPriority = p) ∧
    (∀ p, (k.scheduler.table p).Nodup) ∧
    (∀ t, (k.scheduler.thread t).stat = .running → k.scheduler.current = some t) ∧
    (∀ o t, t ∈ k.scheduler.waiting o → (k.scheduler.thread t).stat = .suspend ∧
      ∀ o', t ∈ k.scheduler.waiting o' → o' = o) ∧
    (∀ t ∈ k.timers.list, (k.scheduler.thread t).stat = .suspend ∧ k.timers.now < (k.timers.timer t).due) ∧
    (∀ t, k.resuming t = true → Adrift k.scheduler k.timers t) ∧
    (∀ act, Allowed idle k act → ∃ k', k.next act = some k' ∧
      (k.scheduler.lockNest = 0 → (act = .schedule ∨ act = .yield ∨ act = .exit ∨
        act = .tick ∧ ∃ c, k.scheduler.Leads c) → ∃ c, k'.scheduler.Leads c)) := by
  have good := Good.reached reached
  refine ⟨good.scheduler.queues.queued, good.scheduler.queues.nodup, good.scheduler.running, ?_, ?_, good.resuming, ?_⟩
  · intro o t member
    refine ⟨good.scheduler.waits.suspended o t member, ?_⟩
    intro o' member'
    exact good.scheduler.waits.apart o' o t member' member
  · intro t member
    exact ⟨good.sleeping t member, good.timers.ahead t member⟩
  · intro act allowed
    obtain ⟨k', moved, -⟩ := good.next allowed
    refine ⟨k', moved, ?_⟩
    rintro unlocked (rfl | rfl | rfl | ⟨rfl, c, leads⟩)
    · obtain ⟨s, called, rfl⟩ := Option.map_eq_some_iff.mp moved
      exact good.leads allowed unlocked called
    · obtain ⟨t, runs⟩ := allowed
      obtain ⟨l, called, -, -, leads⟩ := yield_next good runs.started
      obtain rfl : l = k' := Option.some.inj (called.symm.trans moved)
      exact leads unlocked
    · obtain ⟨t, runs, other⟩ := allowed
      obtain ⟨l, called, -, -, leads⟩ := exit_next good runs other
      obtain rfl : l = k' := Option.some.inj (called.symm.trans moved)
      exact leads unlocked
    · exact tick_leads good unlocked leads moved

/-- The idle thread and a thread above it. -/
def boot : List ThreadAct :=
  [.init 0 31 32, .startup 0, .unlink 0, .insert 0, .init 1 10 20, .startup 1, .unlink 1, .insert 1, .start]

theorem threads_scheduled_boot : ∃ k : Threads, k.scheduler.current = some 0 ∧
    ∀ t ∈ k.timers.list, (k.scheduler.thread t).stat = .suspend ∧ k.timers.now < (k.timers.timer t).due := by
  let acts := boot ++ [.sleep 2, .schedule, .tick]
  have current : ((system.run acts system.start).bind fun k => k.scheduler.current) = some 0 := by decide +kernel
  have meets : system.Meets (Allowed 0) acts system.start := by decide +kernel
  obtain ⟨k, ran, here⟩ := Option.bind_eq_some_iff.mp current
  exact ⟨k, here, (threads_scheduled (System.guarded_of_run .start meets ran)).2.2.2.2.1⟩

/-! ### Sleeping -/

def isTick : ThreadAct → Bool
  | .tick => true
  | _ => false

/-- Steps that do not wake the thread `t` before its time. -/
def Undisturbed (idle t : Nat) (k : Threads) (act : ThreadAct) : Prop := Allowed idle k act ∧ k.woken act ≠ some t

theorem isTick_iff {act : ThreadAct} : isTick act = true ↔ act = .tick := by
  cases act <;> simp [isTick]

/-- While its time has not come, a thread sleeps on. -/
theorem asleep_run {acts : List ThreadAct} (good : Good idle k) (asleep : t ∈ k.timers.list)
    (meets : system.Meets (Undisturbed idle t) acts k) (ran : system.run acts k = some k')
    (early : k.timers.now + acts.countP isTick < (k.timers.timer t).due) :
    Good idle k' ∧ t ∈ k'.timers.list ∧ (k'.timers.timer t).due = (k.timers.timer t).due ∧
      k'.timers.now = k.timers.now + acts.countP isTick := by
  induction acts generalizing k with
  | nil =>
    obtain rfl : k = k' := Option.some.inj ran
    exact ⟨good, asleep, rfl, rfl⟩
  | cons act rest ih =>
    obtain ⟨allowed, undisturbed⟩ := meets.1
    obtain ⟨l, moved, ran⟩ := Option.bind_eq_some_iff.mp ran
    rw [List.countP_cons] at early ⊢
    obtain ⟨l', moved', good', kind⟩ := good.next allowed
    obtain rfl : l' = l := Option.some.inj (moved'.symm.trans moved)
    by_cases ticks : act = .tick
    · subst ticks
      obtain ⟨l, ticked, -, -, now, sleepers⟩ := tick_spec good allowed
      obtain rfl : l = l' := Option.some.inj (ticked.symm.trans moved)
      have counts : isTick .tick = true := rfl
      rw [if_pos counts] at early ⊢
      rcases sleepers t asleep with ⟨still, due⟩ | ⟨ended, -⟩
      · obtain ⟨good'', last, due', now'⟩ := ih good' still (meets.2 l moved) ran (by omega)
        exact ⟨good'', last, due'.trans due, by omega⟩
      · omega
    · have steady := kind.resolve_left ticks
      obtain ⟨still, same⟩ := steady.asleep t asleep undisturbed
      have now := steady.now_eq
      rw [if_neg (isTick_iff.not.mpr ticks)] at early ⊢
      rw [← same] at early
      obtain ⟨good'', last, due', now'⟩ := ih good' still (meets.2 l' moved) ran (by omega)
      exact ⟨good'', last, by rw [due', same], by omega⟩

/-- A thread that calls `rt_thread_sleep`, or waits for an object with a waiting time, is suspended until the
tick it asked for, if nobody wakes it, and then it is woken with `-RT_ETIMEOUT`. -/
theorem woken_on_tick {act : ThreadAct} {tick : UInt32} {acts : List ThreadAct} {l : Threads}
    (reached : system.Guarded (Allowed idle) k) (runs : k.Runs t)
    (call : act = .sleep tick ∨ ∃ o flag, act = .wait o flag (some tick)) (allowed : Allowed idle k act)
    (moved : k.next act = some l) (meets : system.Meets (Undisturbed idle t) acts l)
    (ran : system.run acts l = some k') :
    (acts.countP isTick < tick.toNat → (k'.scheduler.thread t).stat = .suspend) ∧
      ∀ before, acts = before ++ [.tick] → acts.countP isTick = tick.toNat →
        ((k'.scheduler.thread t).stat = .ready ∨ (k'.scheduler.thread t).stat = .running) ∧
          (k'.scheduler.thread t).error = -eTimeout := by
  have good := Good.reached reached
  obtain ⟨good', asleep, due⟩ : Good idle l ∧ t ∈ l.timers.list ∧
      (l.timers.timer t).due = l.timers.now + tick.toNat := by
    rcases call with rfl | ⟨o, flag, rfl⟩
    · obtain ⟨⟨u, runs', other⟩, range⟩ := allowed
      obtain rfl : t = u := Option.some.inj (runs.1.symm.trans runs'.1)
      obtain ⟨l', called, good', -, listed, due⟩ := sleep_next good runs other range
      obtain rfl : l' = l := Option.some.inj (called.symm.trans moved)
      exact ⟨good', listed, due⟩
    · obtain ⟨⟨u, runs', other⟩, range⟩ := allowed
      obtain rfl : t = u := Option.some.inj (runs.1.symm.trans runs'.1)
      obtain ⟨l', called, good', -, timed⟩ := wait_next good runs other range
      obtain rfl : l' = l := Option.some.inj (called.symm.trans moved)
      obtain ⟨listed, due⟩ := timed tick rfl
      exact ⟨good', listed, due⟩
  constructor
  · intro early
    obtain ⟨good'', last, -⟩ := asleep_run good' asleep meets ran (by omega)
    exact good''.sleeping t last
  · rintro before rfl ends
    rw [List.countP_append, List.countP_singleton] at ends
    have counts : isTick .tick = true := rfl
    rw [if_pos counts] at ends
    obtain ⟨m, first, last⟩ := Option.bind_eq_some_iff.mp ((System.run_append before [.tick] l).symm.trans ran)
    obtain ⟨good₂, still, due', now⟩ := asleep_run good' asleep meets.append.1 first (by omega)
    obtain ⟨allowed', -⟩ := (meets.append.2 m first).1
    obtain ⟨n, ticked, good₃, -, now', sleepers⟩ := tick_spec good₂ allowed'
    have moved' : system.next m .tick = some n := ticked
    have last' : (system.next m .tick).bind (system.run []) = some k' := last
    rw [moved', Option.bind_some] at last'
    obtain rfl : n = k' := Option.some.inj last'
    rcases sleepers t still with ⟨listed, same⟩ | ⟨-, active, error⟩
    · have ahead := good₃.timers.ahead t listed
      omega
    · exact ⟨active, error⟩

instance decidableUndisturbed (k : Threads) (act : ThreadAct) : Decidable (Undisturbed idle t k act) :=
  inferInstanceAs (Decidable (_ ∧ _))

/-- The thread sleeps for two ticks, while the idle thread runs. -/
theorem woken_on_tick_boot : ∃ k : Threads, k.scheduler.current = some 1 ∧
    ((k.scheduler.thread 1).stat = .ready ∨ (k.scheduler.thread 1).stat = .running) ∧
      (k.scheduler.thread 1).error = -eTimeout := by
  let acts : List ThreadAct := [.schedule, .tick, .tick]
  have booted : (system.run boot system.start).isSome = true := by decide +kernel
  obtain ⟨k, ran⟩ := Option.isSome_iff_exists.mp booted
  have meets : system.Meets (Allowed 0) boot system.start := by decide +kernel
  have runs : ∀ k ∈ system.run boot system.start, k.Runs 1 := by
    unfold Runs
    decide +kernel
  have slept : ((system.run boot system.start).bind fun k => k.next (.sleep 2)).isSome = true := by decide +kernel
  rw [ran, Option.bind_some] at slept
  obtain ⟨l, moved⟩ := Option.isSome_iff_exists.mp slept
  have later : system.run (boot ++ [.sleep 2]) system.start = some l := by
    rw [System.run_append, ran, Option.bind_some, System.run]
    show (k.next (.sleep 2)).bind _ = _
    rw [moved]
    rfl
  have quiet : ∀ l ∈ system.run (boot ++ [.sleep 2]) system.start, system.Meets (Undisturbed 0 1) acts l := by
    decide +kernel
  have last : ((system.run (boot ++ [.sleep 2] ++ acts) system.start).bind fun k => k.scheduler.current) = some 1 := by
    decide +kernel
  rw [System.run_append, later, Option.bind_some] at last
  obtain ⟨k', ran', current⟩ := Option.bind_eq_some_iff.mp last
  have allowed : Allowed 0 k (.sleep 2) := ⟨⟨1, runs k ran, by decide⟩, by decide⟩
  have result := woken_on_tick (System.guarded_of_run .start meets ran) (runs k ran) (Or.inl rfl) allowed moved
    (quiet l later) ran'
  exact ⟨k', current, result.2 [.schedule, .tick] rfl rfl⟩

end BleSpeaker.Kernel.Threads
