import BleSpeaker.Kernel.Threads

/-!
# Ticks

What the clock interrupt does to the threads: the time slice of the current one ends or not, and the timers that
are due wake their threads, one after the other, each with a call of `rt_schedule` of its own. `check_spec` is
the rule for whatever such a wake-up keeps.
-/

namespace BleSpeaker.Kernel.Threads
open Lib
variable {idle t u o : Nat} {k k' : Threads} {x : Thread} {w : Option Nat}

theorem slice_spec (good : Good idle k) (here : k.scheduler.current = some t) :
    ∃ s, slice k.scheduler t = some s ∧ Good idle { k with scheduler := s } ∧ s.current ≠ none ∧
      s.lockNest = k.scheduler.lockNest := by
  have started : k.scheduler.current ≠ none := by
    rw [here]
    exact Option.some_ne_none t
  unfold slice
  dsimp only
  split
  · let x : Thread := { k.scheduler.thread t with remainingTick := (k.scheduler.thread t).initTick, yielded := true }
    have changed : Good idle { k with scheduler := k.scheduler.set t x } := good.setCurrent here rfl rfl rfl
    obtain ⟨s, called, good', turn, running⟩ := changed.schedule started
    exact ⟨s, called, good', running, turn.lock⟩
  · exact ⟨_, rfl, good.setCurrent here rfl rfl rfl, started, rfl⟩

/-- The timeout of the thread `t` takes the scheduler from `s` over `m` to `v`. -/
structure Timeout (s m v : Scheduler) (t : Nat) : Prop where
  good : s.Good
  asleep : (s.thread t).stat = .suspend
  woken : s.Woken m t { s.thread t with error := -eTimeout }
  good' : m.Good
  schedule : m.rtSchedule = some v
  turn : m.Turn v

theorem take_timer (timers : Timers) (t u : Nat) (oneshot : ∀ u, (timers.timer u).periodic = false) :
    ((timers.take t).timer u).periodic = false ∧ ((timers.take t).timer u).object = (timers.timer u).object := by
  by_cases same : u = t
  · subst same
    show ((Timers.set timers u _).timer u).periodic = false ∧ ((Timers.set timers u _).timer u).object = _
    rw [Timers.set_timer_self]
    exact ⟨oneshot u, rfl⟩
  · show ((Timers.set timers t _).timer u).periodic = false ∧ ((Timers.set timers t _).timer u).object = _
    rw [Timers.set_timer_of_ne same]
    exact ⟨oneshot u, rfl⟩

/-- What holds of the timers and the threads while the timers that are due fire in `k`. -/
structure Firing (idle : Nat) (k : Threads) (timers : Timers) (s : Scheduler) : Prop where
  scheduler : s.Good
  oneshot : ∀ u, (timers.timer u).periodic = false
  sleeping : ∀ u ∈ timers.list, (s.thread u).stat = .suspend
  running : s.current ≠ none
  alive : (s.thread idle).stat = .ready ∨ (s.thread idle).stat = .running
  prepared : ∀ t, Prepared (timers.timer t).object (s.thread t)
  resuming : ∀ t, k.resuming t = true → Adrift s timers t
  lock : s.lockNest = k.scheduler.lockNest

theorem Good.firing (good : Good idle k) (started : k.scheduler.current ≠ none) :
    Firing idle k { k.timers with now := k.timers.now + 1 } k.scheduler := by
  refine ⟨good.scheduler, good.oneshot, good.sleeping, started, good.idle started, good.prepared, ?_, rfl⟩
  intro t resuming
  exact ⟨(good.resuming t resuming).asleep, (good.resuming t resuming).fresh, (good.resuming t resuming).free⟩

theorem Firing.good {timers : Timers} {s : Scheduler} (firing : Firing idle k timers s) (good : Good idle k)
    (settled : timers.Settled) : Good idle { k with scheduler := s, timers := timers } :=
  ⟨firing.scheduler, settled, firing.oneshot, firing.sleeping, fun _ => firing.alive, firing.prepared,
    firing.resuming, firing.lock ▸ good.lock⟩

/-- `rt_timer_check` puts the timer of a thread, which fires once, back as a stopped one. -/
theorem restart_take {timers v : Timers} (oneshot : ∀ u, (timers.timer u).periodic = false)
    (restarted : (timers.take t).restart t = some v) : v = (timers.take t).remove t := by
  have stops : (timers.take t).restart t = some ((timers.take t).remove t) := by
    unfold Timers.restart
    have firing : (timers.take t).firing ≠ none := Option.some_ne_none t
    rw [if_neg firing]
    dsimp only
    refine if_neg fun both => ?_
    rw [show (((timers.take t).remove t).timer t).periodic = false from (take_timer timers t t oneshot).1] at both
    exact Bool.false_ne_true both.1
  exact Option.some.inj (restarted.symm.trans stops)

theorem left_list {timers : Timers} (nodup : timers.list.Nodup)
    (stays : u ∈ ((timers.take t).remove t).list) : u ∈ timers.list ∧ u ≠ t := by
  have once : u ∈ (timers.list.erase t).erase t := stays
  exact (nodup.mem_erase_iff.mp (List.mem_of_mem_erase once)).symm

theorem Timeout.active {s m v : Scheduler} (step : Timeout s m v t)
    (alive : (s.thread u).stat = .ready ∨ (s.thread u).stat = .running) :
    (v.thread u).stat = .ready ∨ (v.thread u).stat = .running := by
  have up : (m.thread u).stat = .ready ∨ (m.thread u).stat = .running := by
    by_cases same : u = t
    · subst same
      rw [step.woken.self]
      dsimp only
      split
      · exact Or.inr rfl
      · exact Or.inl rfl
    · rw [step.woken.others u same]
      exact alive
  obtain ⟨stat, yielded, entry, active⟩ := step.turn.active u up
  rw [entry]
  exact active

theorem Timeout.asleep_still {s m v : Scheduler} (step : Timeout s m v t) (differs : u ≠ t)
    (asleep : (s.thread u).stat = .suspend) : (v.thread u).stat = .suspend := by
  have still : (m.thread u).stat = .suspend := by
    rw [step.woken.others u differs]
    exact asleep
  rw [step.turn.parked u (by rw [still]; exact Stat.noConfusion) (by rw [still]; exact Stat.noConfusion)]
  exact still

/-- The timeout of a thread that is due: `rt_thread_timeout` wakes it and calls the scheduler. -/
theorem Firing.timeout {timers : Timers} {s : Scheduler} (firing : Firing idle k timers s)
    (member : t ∈ timers.list) :
    ∃ m v, Timeout s m v t ∧ rtThreadTimeout t (timers.take t, s) = some (timers.take t, v) := by
  have asleep := firing.sleeping t member
  obtain ⟨c, here⟩ := Option.ne_none_iff_exists'.mp firing.running
  let x : Thread := { s.thread t with error := -eTimeout }
  obtain ⟨middle, woken⟩ := Scheduler.wake_spec (x := x) firing.scheduler asleep asleep rfl rfl
  obtain ⟨v, d, called, last, turn, current⟩ := Scheduler.schedule_turn middle (woken.current.trans here)
  refine ⟨_, v, ⟨firing.scheduler, asleep, woken, middle, called, turn⟩, ?_⟩
  rw [rtThreadTimeout, if_pos asleep, called]
  rfl

theorem Firing.step {timers : Timers} {s m v : Scheduler} (firing : Firing idle k timers s)
    (nodup : timers.list.Nodup) (member : t ∈ timers.list) (step : Timeout s m v t) :
    Firing idle k ((timers.take t).remove t) v := by
  have kept := fun j => take_timer timers t j firing.oneshot
  obtain ⟨c, here⟩ := Option.ne_none_iff_exists'.mp firing.running
  obtain ⟨w, d, called, last, -, current⟩ := Scheduler.schedule_turn step.good' (step.woken.current.trans here)
  obtain rfl : w = v := Option.some.inj (called.symm.trans step.schedule)
  refine ⟨last, fun j => (kept j).1, ?_, ?_, step.active firing.alive, ?_, ?_, ?_⟩
  · intro j stays
    obtain ⟨before, differs⟩ := left_list nodup stays
    exact step.asleep_still differs (firing.sleeping j before)
  · rw [current]
    exact Option.some_ne_none d
  · refine prepared_turn step.turn (prepared_woken step.woken step.asleep ?_)
    intro j
    show Prepared ((timers.take t).timer j).object (s.thread j)
    rw [(kept j).2]
    exact firing.prepared j
  · intro j resumes
    have adrift := firing.resuming j resumes
    have differs : j ≠ t := by
      rintro rfl
      exact adrift.fresh member
    have after := (adrift.woken step.woken differs).turn step.turn
    exact ⟨after.asleep, fun stays => adrift.fresh (left_list nodup stays).1, after.free⟩
  · rw [step.turn.lock, step.woken.lock]
    exact firing.lock

theorem check_spec {P : Timers → Scheduler → Prop} (good : Good idle k) (started : k.scheduler.current ≠ none)
    (start : P { k.timers with now := k.timers.now + 1 } k.scheduler)
    (timeout : ∀ timers s m v t, P timers s → t ∈ timers.list → (timers.timer t).due = timers.now → timers.list.Nodup →
      Timeout s m v t → P ((timers.take t).remove t) v) :
    ∃ timers s, k.timers.check rtThreadTimeout k.scheduler = some (timers, s) ∧
      Good idle { k with scheduler := s, timers := timers } ∧ s.current ≠ none ∧
      timers.now = k.timers.now + 1 ∧ P timers s := by
  have result := @Timers.Settled.check k.timers Scheduler rtThreadTimeout
    (fun timers s => Firing idle k timers s ∧ P timers s) k.scheduler good.timers ⟨good.firing started, start⟩ ?_
  · obtain ⟨timers, s, checked, settled, now, firing, holds⟩ := result
    exact ⟨timers, s, checked, firing.good good settled, firing.running, now, holds⟩
  · rintro timers s t rest tgood quiet ⟨firing, holds⟩ first due
    have member : t ∈ timers.list := by
      rw [first]
      exact List.mem_cons_self
    obtain ⟨m, v, step, done⟩ := firing.timeout member
    refine ⟨timers.take t, v, done, (Timers.take_good tgood first due).1, Timers.Kept.refl _, ?_⟩
    intro u restarted _
    obtain rfl := restart_take firing.oneshot restarted
    exact ⟨firing.step tgood.nodup member step, timeout timers s m v t holds member due tgood.nodup step⟩

/-- The thread `t`, which slept at `k`, sleeps on, or its time has come and it was woken. -/
def Sleeper (k : Threads) (timers : Timers) (s : Scheduler) (t : Nat) : Prop :=
  (t ∈ timers.list ∧ (timers.timer t).due = (k.timers.timer t).due) ∨
    ((k.timers.timer t).due = k.timers.now + 1 ∧ ((s.thread t).stat = .ready ∨ (s.thread t).stat = .running) ∧
      (s.thread t).error = -eTimeout)

theorem Timeout.sleeper {timers : Timers} {s m v : Scheduler} (step : Timeout s m v u) (member : u ∈ timers.list)
    (now : timers.now = k.timers.now + 1) (due : (timers.timer u).due = timers.now)
    (before : Sleeper k timers s t) : Sleeper k ((timers.take u).remove u) v t := by
  by_cases same : t = u
  · subst same
    have time : (k.timers.timer t).due = k.timers.now + 1 := by
      rcases before with ⟨-, eq⟩ | ⟨eq, -⟩
      · rw [← eq, due, now]
      · exact eq
    have active : (m.thread t).stat = .ready ∨ (m.thread t).stat = .running := by
      rw [step.woken.self]
      dsimp only
      split
      · exact Or.inr rfl
      · exact Or.inl rfl
    obtain ⟨stat, yielded, entry, active'⟩ := step.turn.active t active
    refine Or.inr ⟨time, ?_, ?_⟩
    · rw [entry]
      exact active'
    · rw [entry, step.woken.self]
  · have middle : m.thread t = s.thread t := step.woken.others t same
    rcases before with ⟨still, eq⟩ | ⟨time, active, error⟩
    · refine Or.inl ⟨?_, ?_⟩
      · show t ∈ (timers.list.erase u).erase u
        exact (List.mem_erase_of_ne same).mpr ((List.mem_erase_of_ne same).mpr still)
      · show ((Timers.set timers u _).timer t).due = _
        rw [Timers.set_timer_of_ne same]
        exact eq
    · rw [← middle] at active error
      obtain ⟨stat, yielded, entry, active'⟩ := step.turn.active t active
      refine Or.inr ⟨time, ?_, ?_⟩
      · rw [entry]
        exact active'
      · rw [entry]
        exact error

theorem tick_spec (good : Good idle k) (started : k.scheduler.current ≠ none) :
    ∃ k', k.rtTickIncrease = some k' ∧ Good idle k' ∧ k'.scheduler.current ≠ none ∧
      k'.timers.now = k.timers.now + 1 ∧ ∀ t ∈ k.timers.list, Sleeper k k'.timers k'.scheduler t := by
  obtain ⟨c, here⟩ := Option.ne_none_iff_exists'.mp started
  obtain ⟨s, sliced, good', running, -⟩ := slice_spec good here
  let P : Timers → Scheduler → Prop := fun timers s =>
    timers.now = k.timers.now + 1 ∧ ∀ t ∈ k.timers.list, Sleeper k timers s t
  have start : P { k.timers with now := k.timers.now + 1 } s := ⟨rfl, fun t member => Or.inl ⟨member, rfl⟩⟩
  obtain ⟨timers, s', checked, good'', running', now, holds⟩ := check_spec (P := P) good' running start (by
    intro timers s m v u holds member due _ step
    exact ⟨holds.1, fun t sleeps => step.sleeper member holds.1 due (holds.2 t sleeps)⟩)
  refine ⟨{ k with scheduler := s', timers := timers }, ?_, good'', running', now, holds.2⟩
  rw [rtTickIncrease, here, Option.bind_some, sliced, Option.bind_some, checked]
  rfl

end BleSpeaker.Kernel.Threads
