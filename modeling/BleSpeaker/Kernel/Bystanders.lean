import BleSpeaker.Kernel.Interleavings

/-!
# What a step leaves alone

A step is about one thread, or about none. Of the others it changes what `rt_schedule` decides, who of those that
are ready runs, and nothing else: they are `Quiet`. Only the thread that is woken and those whose time has come
are `Roused`.
-/

namespace BleSpeaker.Kernel

namespace Scheduler

def Active (s : Scheduler) (t : Nat) : Prop := (s.thread t).stat = .ready ∨ (s.thread t).stat = .running

variable {s v : Scheduler} {t u : Nat} {x : Thread}

theorem insert_thread (differs : t ≠ u) : (s.rtScheduleInsertThread u).thread t = s.thread t := by
  unfold rtScheduleInsertThread
  split
  · exact set_thread_of_ne differs
  · exact set_thread_of_ne differs

theorem insert_waiting (s : Scheduler) (u : Nat) : (s.rtScheduleInsertThread u).waiting = s.waiting := by
  unfold rtScheduleInsertThread
  split
  · rfl
  · rfl

theorem Woken.active (woken : Woken s v t x) : v.Active t := by
  unfold Active
  rw [woken.self]
  dsimp only
  split
  · exact Or.inr rfl
  · exact Or.inl rfl

theorem Turn.active_of (turn : s.Turn v) (active : s.Active t) : v.Active t := by
  obtain ⟨stat, yielded, entry, active'⟩ := turn.active t active
  unfold Active
  rw [entry]
  exact active'

end Scheduler

namespace Threads
open Lib
variable {idle t u o : Nat} {k k' l : Threads} {x : Thread} {act : ThreadAct}

structure Quiet (k k' : Threads) (t : Nat) : Prop where
  error : (k'.scheduler.thread t).error = (k.scheduler.thread t).error
  priority : (k'.scheduler.thread t).currentPriority = (k.scheduler.thread t).currentPriority
  parked : ¬ k.scheduler.Active t → (k'.scheduler.thread t).stat = (k.scheduler.thread t).stat
  active : k.scheduler.Active t → k'.scheduler.Active t
  waiting : ∀ o, t ∈ k'.scheduler.waiting o ↔ t ∈ k.scheduler.waiting o
  timers : t ∈ k'.timers.list ↔ t ∈ k.timers.list

/-- A suspended thread is woken, and its call finds `error`. -/
structure Roused (k k' : Threads) (t : Nat) (error : Int) : Prop where
  asleep : (k.scheduler.thread t).stat = .suspend
  active : k'.scheduler.Active t
  error_eq : (k'.scheduler.thread t).error = error
  priority : (k'.scheduler.thread t).currentPriority = (k.scheduler.thread t).currentPriority

theorem Quiet.refl (k : Threads) (t : Nat) : Quiet k k t := ⟨rfl, rfl, fun _ => rfl, id, fun _ => Iff.rfl, Iff.rfl⟩

theorem Quiet.trans (first : Quiet k k' t) (second : Quiet k' l t) : Quiet k l t := by
  refine ⟨second.error.trans first.error, second.priority.trans first.priority, ?_, second.active ∘ first.active,
    fun o => (second.waiting o).trans (first.waiting o), second.timers.trans first.timers⟩
  intro parked
  have still : ¬ k'.scheduler.Active t := by
    unfold Scheduler.Active
    rw [first.parked parked]
    exact parked
  rw [second.parked still, first.parked parked]

theorem Quiet.of_entry (entry : k'.scheduler.thread t = k.scheduler.thread t)
    (waiting : ∀ o, t ∈ k'.scheduler.waiting o ↔ t ∈ k.scheduler.waiting o)
    (timers : t ∈ k'.timers.list ↔ t ∈ k.timers.list) : Quiet k k' t := by
  refine ⟨by rw [entry], by rw [entry], fun _ => by rw [entry], ?_, waiting, timers⟩
  unfold Scheduler.Active
  rw [entry]
  exact id

theorem Quiet.turn {s : Scheduler} (turn : k.scheduler.Turn s) : Quiet k { k with scheduler := s } t := by
  have fields : (s.thread t).error = (k.scheduler.thread t).error ∧
      (s.thread t).currentPriority = (k.scheduler.thread t).currentPriority := by
    by_cases active : k.scheduler.Active t
    · obtain ⟨stat, yielded, entry, -⟩ := turn.active t active
      rw [entry]
      exact ⟨rfl, rfl⟩
    · have parked := not_or.mp active
      rw [turn.parked t parked.1 parked.2]
      exact ⟨rfl, rfl⟩
  refine ⟨fields.1, fields.2, ?_, turn.active_of, ?_, Iff.rfl⟩
  · intro parked
    have parked := not_or.mp parked
    dsimp only
    rw [turn.parked t parked.1 parked.2]
  · intro o
    dsimp only
    rw [turn.waiting]

/-- The entry of another thread changes, or of this one what its calls do not see. -/
theorem Quiet.set (same : t ≠ u ∨ (x.error = (k.scheduler.thread u).error ∧
      x.currentPriority = (k.scheduler.thread u).currentPriority ∧ x.stat = (k.scheduler.thread u).stat)) :
    Quiet k { k with scheduler := k.scheduler.set u x } t := by
  by_cases here : t = u
  · subst here
    obtain ⟨error, priority, stat⟩ := same.resolve_left (not_not.mpr rfl)
    refine ⟨?_, ?_, fun _ => ?_, ?_, fun _ => Iff.rfl, Iff.rfl⟩
    · dsimp only
      rw [Scheduler.set_thread_self]
      exact error
    · dsimp only
      rw [Scheduler.set_thread_self]
      exact priority
    · dsimp only
      rw [Scheduler.set_thread_self]
      exact stat
    · dsimp only
      unfold Scheduler.Active
      rw [Scheduler.set_thread_self, stat]
      exact id
  · exact .of_entry (Scheduler.set_thread_of_ne here) (fun _ => Iff.rfl) Iff.rfl

/-! ### One thread after another -/

/-- What is left of a call of `rtThreadInit`. -/
theorem init_cases {priority : Nat} {tick : UInt32} (called : k.rtThreadInit u priority tick = some k') :
    ∃ timers x, timers.list = k.timers.list ∧ k' = { k with scheduler := k.scheduler.set u x, timers := timers } := by
  unfold rtThreadInit at called
  split at called
  · obtain ⟨timers, set, rfl⟩ := Option.map_eq_some_iff.mp called
    refine ⟨timers, _, ?_, rfl⟩
    unfold Timers.rtTimerInit at set
    split at set
    · cases set
    · rw [← Option.some.inj set]
      rfl
  · cases called

theorem init_quiet {priority : Nat} {tick : UInt32} (differs : t ≠ u)
    (called : k.rtThreadInit u priority tick = some k') : Quiet k k' t := by
  obtain ⟨timers, x, list, rfl⟩ := init_cases called
  exact .of_entry (Scheduler.set_thread_of_ne differs) (fun _ => Iff.rfl) (by rw [list])

theorem park_quiet (differs : t ≠ u) (called : k.park u = some k') : Quiet k k' t := by
  obtain ⟨timers, stopped, rfl⟩ := Option.map_eq_some_iff.mp called
  exact .of_entry (Scheduler.set_thread_of_ne differs) (fun o => List.mem_erase_of_ne differs)
    (Timers.stop_mem stopped differs)

theorem unlink_quiet (differs : t ≠ u) (called : k.unlink u = some k') : Quiet k k' t := by
  obtain ⟨timers, stopped, rfl⟩ := Option.map_eq_some_iff.mp called
  exact .of_entry rfl (fun o => List.mem_erase_of_ne differs) (Timers.stop_mem stopped differs)

theorem insert_quiet (k : Threads) (differs : t ≠ u) : Quiet k (k.insert u) t := by
  refine .of_entry (Scheduler.insert_thread differs) ?_ Iff.rfl
  intro o
  show t ∈ (k.scheduler.rtScheduleInsertThread u).waiting o ↔ _
  rw [Scheduler.insert_waiting]

/-- A call of `rtThreadResume` does nothing, or what its two halves do. -/
theorem resume_cases (called : k.rtThreadResume u = some k') :
    k' = k ∨ (k.scheduler.thread u).stat = .suspend ∧ ∃ l, k.unlink u = some l ∧ k' = l.insert u := by
  unfold rtThreadResume at called
  split at called
  · cases called
  · split at called
    · exact Or.inl (Option.some.inj called).symm
    · rename_i asleep
      obtain ⟨l, unlinked, rfl⟩ := Option.map_eq_some_iff.mp called
      exact Or.inr ⟨not_not.mp asleep, l, unlinked, rfl⟩

theorem resume_quiet (differs : t ≠ u) (called : k.rtThreadResume u = some k') : Quiet k k' t := by
  rcases resume_cases called with rfl | ⟨-, l, unlinked, rfl⟩
  · exact .refl k' t
  · exact (unlink_quiet differs unlinked).trans (insert_quiet l differs)

theorem startup_cases (called : k.rtThreadStartup u = some k') :
    ∃ x, k' = { k with scheduler := k.scheduler.set u x } := by
  unfold rtThreadStartup at called
  dsimp only at called
  split at called
  · exact ⟨_, (Option.some.inj called).symm⟩
  · cases called

theorem startup_quiet (differs : t ≠ u) (called : k.rtThreadStartup u = some k') : Quiet k k' t := by
  obtain ⟨x, rfl⟩ := startup_cases called
  exact .set (Or.inl differs)

theorem resume_roused (good : Good idle k) (asleep : (k.scheduler.thread t).stat = .suspend)
    (called : k.rtThreadResume t = some k') : Roused k k' t (k.scheduler.thread t).error := by
  obtain ⟨l, called', -, -, woken⟩ := resume_spec good asleep
  obtain rfl : l = k' := Option.some.inj (called'.symm.trans called)
  refine ⟨asleep, woken.active, ?_, ?_⟩
  · rw [woken.self]
  · rw [woken.self]

theorem startTimer_quiet {tick : UInt32} (good : Good idle k) (range : Timers.InRange tick)
    (asleep : (k.scheduler.thread u).stat = .suspend) (fresh : u ∉ k.timers.list)
    (differs : t ≠ u) (called : k.startTimer u tick = some k') : Quiet k k' t := by
  have object := good.object (t := u) (by rw [asleep]; exact Stat.noConfusion)
  obtain ⟨timers, ran, -, -, list, -⟩ := good.timers.restart object range fresh
  rw [startTimer, ran] at called
  rw [← Option.some.inj called]
  refine .of_entry rfl (fun _ => Iff.rfl) ?_
  dsimp only
  rw [list.mem_iff, List.mem_cons]
  exact or_iff_right differs

theorem link_quiet (o : Nat) (flag : IpcFlag) (differs : t ≠ u) :
    Quiet k { k with scheduler := link k.scheduler o u flag } t := by
  obtain ⟨list, others, same⟩ := link_spec k.scheduler o u flag
  refine .of_entry ?_ ?_ Iff.rfl
  · dsimp only
    rw [same]
  · intro o'
    dsimp only
    by_cases here : o' = o
    · rw [here, list.mem_iff, List.mem_cons]
      exact or_iff_right differs
    · rw [others o' here]

theorem sleep_quiet {tick : UInt32} (good : Good idle k) (runs : k.Runs u) (other : u ≠ idle)
    (range : Timers.InRange tick) (differs : t ≠ u) (called : k.rtThreadSleep tick = some k') : Quiet k k' t := by
  obtain ⟨k₁, suspended, good₁, -, parked, called'⟩ := sleep_parks tick good runs other
  rw [called'] at called
  exact (park_quiet differs suspended).trans
    (startTimer_quiet good₁ range parked.adrift.asleep parked.adrift.fresh differs called)

theorem wait_quiet {flag : IpcFlag} {time : Option UInt32} (good : Good idle k) (runs : k.Runs u) (other : u ≠ idle)
    (range : ∀ tick ∈ time, Timers.InRange tick) (differs : t ≠ u) (called : k.wait o flag time = some k') :
    Quiet k k' t := by
  obtain ⟨k₁, k₂, suspended, rfl, good₂, -, parked, asleep, -, called'⟩ := wait_parks (o := o) flag good runs other
  have first : Quiet k (k.cleared u) t := .set (Or.inl differs)
  have before := (first.trans (park_quiet differs suspended)).trans (link_quiet o flag differs)
  rw [called' time] at called
  cases time with
  | none =>
    rw [← Option.some.inj called]
    exact before
  | some tick => exact before.trans (startTimer_quiet good₂ (range tick rfl) asleep parked.adrift.fresh differs called)

theorem change_quiet {priority : Nat} (differs : t ≠ u) (called : k.changePriority u priority = some k') :
    Quiet k k' t := by
  unfold changePriority at called
  dsimp only at called
  split at called
  · cases called
  · split at called
    · rw [← Option.some.inj called]
      refine .of_entry ?_ ?_ Iff.rfl
      · dsimp only
        rw [Scheduler.insert_thread differs]
        exact Scheduler.set_thread_of_ne differs
      · intro o
        dsimp only
        rw [Scheduler.insert_waiting]
        exact List.mem_erase_of_ne differs
    · rw [← Option.some.inj called]
      exact .set (Or.inl differs)

/-- A thread that exits is closed first, and then calls `rt_schedule`. -/
theorem exit_closes (good : Good idle k) (runs : k.Runs u) (other : u ≠ idle) (called : k.rtThreadExit = some k') :
    ∃ l s, l.scheduler = (k.scheduler.rtScheduleRemoveThread u).set u
        { k.scheduler.thread u with stat := .close, yielded := false } ∧
      (∀ t, t ≠ u → (t ∈ l.timers.list ↔ t ∈ k.timers.list)) ∧ Good idle l ∧ l.scheduler.rtSchedule = some s ∧
      k' = { l with scheduler := s } := by
  obtain ⟨timers, detached, -, closed⟩ := good.closed runs other
  rw [rtThreadExit, runs.1, Option.bind_some, detached, Option.bind_some] at called
  obtain ⟨s, scheduled, rfl⟩ := Option.map_eq_some_iff.mp called
  refine ⟨_, s, rfl, ?_, closed, scheduled, rfl⟩
  intro t differs
  unfold Timers.rtTimerDetach at detached
  split at detached
  · cases detached
  · rw [← Option.some.inj detached]
    exact List.mem_erase_of_ne differs

theorem schedule_quiet (good : Good idle k) (started : k.scheduler.current ≠ none) {s : Scheduler}
    (called : k.scheduler.rtSchedule = some s) : Quiet k { k with scheduler := s } t := by
  obtain ⟨v, called', -, turn, -⟩ := good.schedule started
  obtain rfl : v = s := Option.some.inj (called'.symm.trans called)
  exact .turn turn

theorem exit_quiet (good : Good idle k) (runs : k.Runs u) (other : u ≠ idle) (differs : t ≠ u)
    (called : k.rtThreadExit = some k') : Quiet k k' t := by
  obtain ⟨l, s, closed, timers, good', scheduled, rfl⟩ := exit_closes good runs other called
  have away : Quiet k l t := by
    refine .of_entry ?_ ?_ (timers t differs)
    · rw [closed]
      exact Scheduler.set_thread_of_ne differs
    · rw [closed]
      exact fun _ => List.mem_erase_of_ne differs
  have started : l.scheduler.current ≠ none := by
    rw [closed]
    exact runs.started
  exact away.trans (schedule_quiet good' started scheduled)

theorem slice_quiet {s : Scheduler} {c : Nat} (good : Good idle k) (here : k.scheduler.current = some c)
    (sliced : slice k.scheduler c = some s) : Quiet k { k with scheduler := s } t := by
  unfold slice at sliced
  dsimp only at sliced
  split at sliced
  · let x : Thread := { k.scheduler.thread c with remainingTick := (k.scheduler.thread c).initTick, yielded := true }
    have changed : Good idle { k with scheduler := k.scheduler.set c x } := good.setCurrent here rfl rfl rfl
    have first : Quiet k { k with scheduler := k.scheduler.set c x } t := .set (Or.inr ⟨rfl, rfl, rfl⟩)
    refine first.trans (schedule_quiet changed ?_ sliced)
    dsimp only
    show k.scheduler.current ≠ none
    rw [here]
    exact Option.some_ne_none c
  · rw [← Option.some.inj sliced]
    exact .set (Or.inr ⟨rfl, rfl, rfl⟩)

theorem yield_quiet (good : Good idle k) (started : k.scheduler.current ≠ none) (called : k.rtThreadYield = some k') :
    Quiet k k' t := by
  obtain ⟨c, here⟩ := Option.ne_none_iff_exists'.mp started
  let x : Thread := { k.scheduler.thread c with remainingTick := (k.scheduler.thread c).initTick, yielded := true }
  have changed : Good idle { k with scheduler := k.scheduler.set c x } := good.setCurrent here rfl rfl rfl
  rw [rtThreadYield, here, Option.bind_some] at called
  obtain ⟨s, scheduled, rfl⟩ := Option.map_eq_some_iff.mp called
  have first : Quiet k { k with scheduler := k.scheduler.set c x } t := .set (Or.inr ⟨rfl, rfl, rfl⟩)
  exact first.trans (schedule_quiet changed started scheduled)

/-! ### The tick -/

/-- The thread sleeps on or goes on, or its time has come. -/
def Ticked (k k' : Threads) (t : Nat) : Prop := Quiet k k' t ∨ t ∈ k.timers.list ∧ Roused k k' t (-eTimeout)

theorem Timeout.ticked {timers : Timers} {s m v : Scheduler} (step : Timeout s m v u) (member : u ∈ timers.list)
    (nodup : timers.list.Nodup) (before : Ticked k { k with scheduler := s, timers := timers } t) :
    Ticked k { k with scheduler := v, timers := (timers.take u).remove u } t := by
  have list : ((timers.take u).remove u).list = timers.list.erase u := by
    show (timers.list.erase u).erase u = _
    rw [List.erase_of_not_mem fun here => (nodup.mem_erase_iff.mp here).1 rfl]
  have turned : Quiet { k with scheduler := m, timers := (timers.take u).remove u }
      { k with scheduler := v, timers := (timers.take u).remove u } t := .turn step.turn
  by_cases same : t = u
  · subst same
    rcases before with quiet | ⟨-, roused⟩
    · have asleep : (k.scheduler.thread t).stat = .suspend := by
        by_contra awake
        by_cases active : k.scheduler.Active t
        · rcases quiet.active active with ready | run
          · exact Stat.noConfusion (step.asleep.symm.trans ready)
          · exact Stat.noConfusion (step.asleep.symm.trans run)
        · exact awake ((quiet.parked active).symm.trans step.asleep)
      refine Or.inr ⟨quiet.timers.mp member, asleep, turned.active step.woken.active, ?_, ?_⟩
      · rw [turned.error, step.woken.self]
      · rw [turned.priority, step.woken.self]
        exact quiet.priority
    · rcases roused.active with ready | run
      · exact Stat.noConfusion (step.asleep.symm.trans ready)
      · exact Stat.noConfusion (step.asleep.symm.trans run)
  · have middle : Quiet { k with scheduler := s, timers := timers }
        { k with scheduler := m, timers := (timers.take u).remove u } t := by
      refine .of_entry (step.woken.others t same) ?_ ?_
      · intro o
        dsimp only
        rw [step.woken.waiting]
        exact List.mem_erase_of_ne same
      · dsimp only
        rw [list]
        exact List.mem_erase_of_ne same
    have whole := middle.trans turned
    rcases before with quiet | ⟨listed, roused⟩
    · exact Or.inl (quiet.trans whole)
    · exact Or.inr ⟨listed, roused.asleep, whole.active roused.active, whole.error.trans roused.error_eq,
        whole.priority.trans roused.priority⟩

theorem tick_ticked (good : Good idle k) (started : k.scheduler.current ≠ none) (ticked : k.rtTickIncrease = some k')
    (t : Nat) : Ticked k k' t := by
  obtain ⟨c, here⟩ := Option.ne_none_iff_exists'.mp started
  obtain ⟨s, sliced, good', running, -⟩ := slice_spec good here
  let P : Timers → Scheduler → Prop := fun timers s => Ticked k { k with scheduler := s, timers := timers } t
  have start : P { k.timers with now := k.timers.now + 1 } s := by
    have first : Quiet k { k with scheduler := s } t := slice_quiet good here sliced
    exact Or.inl (first.trans (.of_entry rfl (fun _ => Iff.rfl) Iff.rfl))
  obtain ⟨timers, s', checked, -, -, -, holds⟩ := check_spec (P := P) good' running start (by
    intro timers s m v u holds member _ nodup step
    exact step.ticked member nodup holds)
  have called : k.rtTickIncrease = some { k with scheduler := s', timers := timers } := by
    rw [rtTickIncrease, here, Option.bind_some, sliced, Option.bind_some, checked]
    rfl
  rw [← Option.some.inj (called.symm.trans ticked)]
  exact holds

/-! ### Any step -/

/-- The step is not one of the thread `t`, and not about it. -/
def Aloof (k : Threads) (t : Nat) : ThreadAct → Prop
  | .init u _ _ | .startup u | .suspend u | .unlink u | .insert u | .changePriority u _ => t ≠ u
  | .sleep _ | .wait _ _ _ | .exit => k.scheduler.current ≠ some t
  | .start => False
  | .schedule | .yield | .wake _ | .enterCritical | .exitCritical | .tick => True

theorem Good.others (good : Good idle k) (allowed : Allowed idle k act) (aloof : k.Aloof t act)
    (moved : k.next act = some k') :
    Quiet k k' t ∨ k.woken act = some t ∧ Roused k k' t (k.scheduler.thread t).error ∨
      act = .tick ∧ t ∈ k.timers.list ∧ Roused k k' t (-eTimeout) := by
  cases act with
  | init u priority tick => exact Or.inl (init_quiet aloof moved)
  | startup u => exact Or.inl (startup_quiet aloof moved)
  | start => exact aloof.elim
  | schedule =>
    obtain ⟨s, called, rfl⟩ := Option.map_eq_some_iff.mp moved
    exact Or.inl (schedule_quiet good allowed called)
  | yield =>
    obtain ⟨c, runs⟩ := allowed
    exact Or.inl (yield_quiet good runs.started moved)
  | sleep tick =>
    obtain ⟨⟨c, runs, other⟩, range⟩ := allowed
    exact Or.inl (sleep_quiet good runs other range (fun same => aloof (same ▸ runs.1)) moved)
  | wait o flag time =>
    obtain ⟨⟨c, runs, other⟩, range⟩ := allowed
    exact Or.inl (wait_quiet good runs other range (fun same => aloof (same ▸ runs.1)) moved)
  | wake o =>
    obtain ⟨u, first, called⟩ := Option.bind_eq_some_iff.mp moved
    by_cases same : t = u
    · subst same
      refine Or.inr (Or.inl ⟨first, resume_roused good ?_ called⟩)
      exact good.scheduler.waits.suspended o t (List.mem_of_mem_head? first)
    · exact Or.inl (resume_quiet same called)
  | suspend u => exact Or.inl (park_quiet aloof moved)
  | unlink u => exact Or.inl (unlink_quiet aloof moved)
  | insert u =>
    rw [← Option.some.inj moved]
    exact Or.inl (insert_quiet k aloof)
  | changePriority u priority => exact Or.inl (change_quiet aloof moved)
  | exit =>
    obtain ⟨c, runs, other⟩ := allowed
    exact Or.inl (exit_quiet good runs other (fun same => aloof (same ▸ runs.1)) moved)
  | enterCritical =>
    rw [← Option.some.inj moved]
    exact Or.inl (.of_entry rfl (fun _ => Iff.rfl) Iff.rfl)
  | exitCritical =>
    rw [← Option.some.inj moved]
    exact Or.inl (.of_entry rfl (fun _ => Iff.rfl) Iff.rfl)
  | tick =>
    rcases tick_ticked good allowed moved t with quiet | ⟨listed, roused⟩
    · exact Or.inl quiet
    · exact Or.inr (Or.inr ⟨rfl, listed, roused⟩)

/-! ### The lists of the objects -/

/-- What a call of `wait` leaves of the thread that calls. -/
structure Waiting (k k' : Threads) (o t : Nat) (time : Option UInt32) : Prop where
  asleep : (k'.scheduler.thread t).stat = .suspend
  error : (k'.scheduler.thread t).error = 0
  priority : (k'.scheduler.thread t).currentPriority = (k.scheduler.thread t).currentPriority
  waiting : ∀ o', t ∈ k'.scheduler.waiting o' ↔ o' = o
  current : k'.scheduler.current = some t
  lock : k'.scheduler.lockNest = k.scheduler.lockNest
  now_eq : k'.timers.now = k.timers.now
  timed : t ∈ k'.timers.list → ∃ tick ∈ time, (k'.timers.timer t).due = k.timers.now + tick.toNat

theorem wait_spec {flag : IpcFlag} {time : Option UInt32} (good : Good idle k) (runs : k.Runs t) (other : t ≠ idle)
    (range : ∀ tick ∈ time, Timers.InRange tick) (called : k.wait o flag time = some k') : Waiting k k' o t time := by
  obtain ⟨k₁, k₂, suspended, rfl, good₂, -, parked, asleep, calm, called'⟩ := wait_parks (o := o) flag good runs other
  obtain ⟨list, others, same⟩ := link_spec k₁.scheduler o t flag
  have entry : (link k₁.scheduler o t flag).thread t = { k.scheduler.thread t with stat := .suspend, error := 0 } := by
    obtain ⟨timers, -, rfl⟩ := Option.map_eq_some_iff.mp suspended
    rw [same]
    show ((k.cleared t).scheduler.rtScheduleRemoveThread t |>.setStat t .suspend).thread t = _
    rw [Scheduler.setStat, Scheduler.set_thread_self]
    show { ((k.scheduler.set t _).thread t) with stat := .suspend } = _
    rw [Scheduler.set_thread_self]
  have before : Waiting k { k₁ with scheduler := link k₁.scheduler o t flag } o t none := by
    refine ⟨asleep, ?_, ?_, ?_, ?_, ?_, parked.now_eq, fun member => absurd member parked.adrift.fresh⟩
    · dsimp only
      rw [entry]
    · dsimp only
      rw [entry]
    · intro o'
      by_cases here : o' = o
      · subst here
        exact iff_of_true (list.mem_iff.mpr List.mem_cons_self) rfl
      · refine iff_of_false ?_ here
        dsimp only
        rw [others o' here]
        exact parked.adrift.free o'
    · dsimp only
      rw [same]
      exact parked.current.trans runs.1
    · obtain ⟨timers, -, rfl⟩ := Option.map_eq_some_iff.mp suspended
      dsimp only
      rw [same]
      rfl
  rw [called' time] at called
  cases time with
  | none =>
    rw [← Option.some.inj called]
    exact before
  | some tick =>
    obtain ⟨k₃, started, -, steady, scheduler, -, -, due⟩ :=
      startTimer_spec good₂ (range tick rfl) asleep parked.adrift.fresh calm
    obtain rfl : k₃ = k' := Option.some.inj (started.symm.trans called)
    refine ⟨?_, ?_, ?_, ?_, ?_, ?_, steady.now_eq.trans before.now_eq, fun _ => ⟨tick, rfl, before.now_eq ▸ due⟩⟩
    · rw [scheduler]
      exact before.asleep
    · rw [scheduler]
      exact before.error
    · rw [scheduler]
      exact before.priority
    · rw [scheduler]
      exact before.waiting
    · rw [scheduler]
      exact before.current
    · rw [scheduler]
      exact before.lock

/-- A thread that sleeps is suspended, and nothing else about it changes. -/
theorem sleep_spec {tick : UInt32} (good : Good idle k) (runs : k.Runs t) (other : t ≠ idle)
    (range : Timers.InRange tick) (called : k.rtThreadSleep tick = some k') :
    k'.scheduler = (k.scheduler.rtScheduleRemoveThread t).setStat t .suspend := by
  obtain ⟨k₁, suspended, good₁, -, parked, called'⟩ := sleep_parks tick good runs other
  obtain ⟨k₂, started, -, -, scheduler, -⟩ :=
    startTimer_spec good₁ range parked.adrift.asleep parked.adrift.fresh parked.calm
  obtain rfl : k₂ = k' := Option.some.inj ((called'.trans started).symm.trans called)
  obtain ⟨timers, -, rfl⟩ := Option.map_eq_some_iff.mp suspended
  exact scheduler

theorem park_waiting (called : k.park u = some k') (member : t ∈ k'.scheduler.waiting o) :
    t ∈ k.scheduler.waiting o := by
  obtain ⟨timers, -, rfl⟩ := Option.map_eq_some_iff.mp called
  exact List.mem_of_mem_erase member

theorem unlink_waiting (called : k.unlink u = some k') (member : t ∈ k'.scheduler.waiting o) :
    t ∈ k.scheduler.waiting o := by
  obtain ⟨timers, -, rfl⟩ := Option.map_eq_some_iff.mp called
  exact List.mem_of_mem_erase member

theorem insert_waiting (member : t ∈ (k.insert u).scheduler.waiting o) : t ∈ k.scheduler.waiting o := by
  change t ∈ (k.scheduler.rtScheduleInsertThread u).waiting o at member
  rwa [Scheduler.insert_waiting] at member

theorem change_waiting {priority : Nat} (called : k.changePriority u priority = some k')
    (member : t ∈ k'.scheduler.waiting o) : t ∈ k.scheduler.waiting o := by
  unfold changePriority at called
  dsimp only at called
  split at called
  · cases called
  · split at called
    · rw [← Option.some.inj called] at member
      dsimp only at member
      rw [Scheduler.insert_waiting] at member
      exact List.mem_of_mem_erase member
    · rwa [← Option.some.inj called] at member

theorem exit_waiting (good : Good idle k) (runs : k.Runs u) (other : u ≠ idle) (called : k.rtThreadExit = some k')
    (member : t ∈ k'.scheduler.waiting o) : t ∈ k.scheduler.waiting o := by
  obtain ⟨l, s, closed, -, good', scheduled, rfl⟩ := exit_closes good runs other called
  obtain ⟨v, scheduled', -, turn, -⟩ := good'.schedule (by rw [closed]; exact runs.started)
  obtain rfl : v = s := Option.some.inj (scheduled'.symm.trans scheduled)
  dsimp only at member
  rw [turn.waiting, closed] at member
  exact List.mem_of_mem_erase member

/-- `rt_timer_start` asserts that the waiting time is in its range. -/
theorem wait_range {flag : IpcFlag} {tick : UInt32} (called : k.wait o flag (some tick) = some k') :
    tick < halfTickMax := by
  obtain ⟨t, -, called⟩ := Option.bind_eq_some_iff.mp called
  obtain ⟨l, -, called⟩ := Option.bind_eq_some_iff.mp called
  obtain ⟨timers, ran, -⟩ := Option.map_eq_some_iff.mp called
  obtain ⟨timers', set, ran⟩ := Option.bind_eq_some_iff.mp ran
  obtain ⟨timers'', started, -⟩ := Option.bind_eq_some_iff.mp ran
  have started : timers'.rtTimerStart t = some timers'' := started
  unfold Timers.rtTimerStart at started
  dsimp only at started
  split at started
  · rename_i both
    have set : l.timers.rtTimerControl t { l.timers.timer t with initTick := tick } = some timers' := set
    unfold Timers.rtTimerControl at set
    split at set
    · cases set
    · have below : (timers'.timer t).initTick < halfTickMax := both.2
      rw [← Option.some.inj set, Timers.set_timer_self] at below
      exact below
  · cases started

/-- Only a thread that waits joins a list, and only the one that it waits for. -/
theorem Good.joins (good : Good idle k) (allowed : Allowed idle k act) (running : act ≠ .start)
    (moved : k.next act = some k') (member : t ∈ k'.scheduler.waiting o) :
    t ∈ k.scheduler.waiting o ∨ k.scheduler.current = some t ∧ ∃ flag time, act = .wait o flag time := by
  obtain ⟨l, moved', good', -⟩ := good.next allowed
  obtain rfl : l = k' := Option.some.inj (moved'.symm.trans moved)
  by_cases aloof : k.Aloof t act
  · have awake : l.scheduler.Active t → t ∈ k.scheduler.waiting o := by
      intro active
      have asleep := good'.scheduler.waits.suspended o t member
      rcases active with ready | run
      · exact Stat.noConfusion (asleep.symm.trans ready)
      · exact Stat.noConfusion (asleep.symm.trans run)
    rcases good.others allowed aloof moved with quiet | ⟨-, roused⟩ | ⟨-, -, roused⟩
    · exact Or.inl ((quiet.waiting o).mp member)
    · exact Or.inl (awake roused.active)
    · exact Or.inl (awake roused.active)
  · cases act with
    | init u priority tick =>
      obtain ⟨timers, x, -, rfl⟩ := init_cases moved
      exact Or.inl member
    | startup u =>
      obtain ⟨x, rfl⟩ := startup_cases moved
      exact Or.inl member
    | start => exact absurd rfl running
    | sleep tick =>
      obtain ⟨⟨c, runs, other⟩, range⟩ := allowed
      rw [sleep_spec good runs other range moved] at member
      exact Or.inl (List.mem_of_mem_erase member)
    | wait o' flag time =>
      obtain ⟨⟨c, runs, other⟩, range⟩ := allowed
      obtain rfl : c = t := Option.some.inj (runs.1.symm.trans (not_not.mp aloof))
      obtain rfl := ((wait_spec good runs other range moved).waiting o).mp member
      exact Or.inr ⟨runs.1, flag, time, rfl⟩
    | suspend u => exact Or.inl (park_waiting moved member)
    | unlink u => exact Or.inl (unlink_waiting moved member)
    | insert u =>
      rw [← Option.some.inj moved] at member
      exact Or.inl (insert_waiting member)
    | changePriority u priority => exact Or.inl (change_waiting moved member)
    | exit =>
      obtain ⟨c, runs, other⟩ := allowed
      exact Or.inl (exit_waiting good runs other moved member)
    | _ => exact absurd trivial aloof

/-- A thread that was started stays so and keeps its priority, whatever it waits for. -/
theorem Good.ranked (good : Good idle k) (allowed : Allowed idle k act)
    (own : k.Aloof t act ∨ (∃ tick, act = .sleep tick) ∨ ∃ o flag time, act = .wait o flag time)
    (moved : k.next act = some k') (started : k.scheduler.Started t) :
    k'.scheduler.Started t ∧ (k'.scheduler.thread t).currentPriority = (k.scheduler.thread t).currentPriority := by
  have active : k'.scheduler.Active t → k'.scheduler.Started t := by
    rintro (ready | run)
    · exact Scheduler.started_of_stat ready ⟨Stat.noConfusion, Stat.noConfusion⟩
    · exact Scheduler.started_of_stat run ⟨Stat.noConfusion, Stat.noConfusion⟩
  by_cases aloof : k.Aloof t act
  · rcases good.others allowed aloof moved with quiet | ⟨-, roused⟩ | ⟨-, -, roused⟩
    · refine ⟨?_, quiet.priority⟩
      by_cases up : k.scheduler.Active t
      · exact active (quiet.active up)
      · unfold Scheduler.Started
        rw [quiet.parked up]
        exact started
    · exact ⟨active roused.active, roused.priority⟩
    · exact ⟨active roused.active, roused.priority⟩
  · rcases own.resolve_left aloof with ⟨tick, rfl⟩ | ⟨o, flag, time, rfl⟩
    · obtain ⟨⟨c, runs, other⟩, range⟩ := allowed
      obtain rfl : c = t := Option.some.inj (runs.1.symm.trans (not_not.mp aloof))
      have entry : k'.scheduler.thread c = { k.scheduler.thread c with stat := .suspend } := by
        rw [sleep_spec good runs other range moved]
        exact Scheduler.set_thread_self _ _ _
      have asleep : (k'.scheduler.thread c).stat = .suspend := by rw [entry]
      refine ⟨Scheduler.started_of_stat asleep ⟨Stat.noConfusion, Stat.noConfusion⟩, ?_⟩
      rw [entry]
    · obtain ⟨⟨c, runs, other⟩, range⟩ := allowed
      obtain rfl : c = t := Option.some.inj (runs.1.symm.trans (not_not.mp aloof))
      have waits := wait_spec good runs other range moved
      exact ⟨Scheduler.started_of_stat waits.asleep ⟨Stat.noConfusion, Stat.noConfusion⟩, waits.priority⟩

/-! ### Who runs -/

/-- The processor changes hands in `rt_schedule` only, when the scheduler is not locked. -/
structure Hands (k k' : Threads) : Prop where
  lock : k'.scheduler.lockNest = k.scheduler.lockNest
  current : k'.scheduler.current = k.scheduler.current ∨ k.scheduler.lockNest = 0 ∧ ∃ c, k'.scheduler.Leads c

theorem schedule_hands {s : Scheduler} (good : Good idle k) (started : k.scheduler.current ≠ none)
    (called : k.scheduler.rtSchedule = some s) : Hands k { k with scheduler := s } := by
  obtain ⟨v, called', -, turn, -⟩ := good.schedule started
  obtain rfl : v = s := Option.some.inj (called'.symm.trans called)
  refine ⟨turn.lock, ?_⟩
  by_cases unlocked : k.scheduler.lockNest = 0
  · exact Or.inr ⟨unlocked, good.leads started unlocked called⟩
  · left
    rw [Scheduler.rtSchedule, if_neg fun both => unlocked both.1] at called
    rw [← Option.some.inj called]

theorem insert_hands (s : Scheduler) (t : Nat) :
    (s.rtScheduleInsertThread t).lockNest = s.lockNest ∧ (s.rtScheduleInsertThread t).current = s.current := by
  unfold Scheduler.rtScheduleInsertThread
  split
  · exact ⟨rfl, rfl⟩
  · exact ⟨rfl, rfl⟩

theorem resume_hands (called : k.rtThreadResume t = some k') : Hands k k' := by
  rcases resume_cases called with rfl | ⟨-, l, unlinked, rfl⟩
  · exact ⟨rfl, Or.inl rfl⟩
  · obtain ⟨timers, -, rfl⟩ := Option.map_eq_some_iff.mp unlinked
    obtain ⟨lock, current⟩ := insert_hands (k.scheduler.unlink t) t
    exact ⟨lock, Or.inl current⟩

theorem change_hands {priority : Nat} (called : k.changePriority t priority = some k') : Hands k k' := by
  unfold changePriority at called
  dsimp only at called
  split at called
  · cases called
  · split at called
    · rw [← Option.some.inj called]
      refine ⟨?_, Or.inl ?_⟩
      · dsimp only
        rw [(insert_hands _ t).1]
        rfl
      · dsimp only
        rw [(insert_hands _ t).2]
        rfl
    · rw [← Option.some.inj called]
      exact ⟨rfl, Or.inl rfl⟩

theorem slice_hands {s : Scheduler} {c : Nat} (good : Good idle k) (here : k.scheduler.current = some c)
    (sliced : slice k.scheduler c = some s) : Hands k { k with scheduler := s } := by
  unfold slice at sliced
  dsimp only at sliced
  split at sliced
  · let x : Thread := { k.scheduler.thread c with remainingTick := (k.scheduler.thread c).initTick, yielded := true }
    have changed : Good idle { k with scheduler := k.scheduler.set c x } := good.setCurrent here rfl rfl rfl
    have started : (k.scheduler.set c x).current ≠ none := by
      show k.scheduler.current ≠ none
      rw [here]
      exact Option.some_ne_none c
    obtain ⟨lock, current⟩ := schedule_hands changed started sliced
    exact ⟨lock, current⟩
  · rw [← Option.some.inj sliced]
    exact ⟨rfl, Or.inl rfl⟩

theorem Timeout.schedules {s m v : Scheduler} (step : Timeout s m v t) (started : s.current ≠ none)
    (unlocked : s.lockNest = 0) : ∃ d, v.Leads d := by
  obtain ⟨c, here⟩ := Option.ne_none_iff_exists'.mp (step.woken.current ▸ started)
  have alive : (m.thread c).stat = .running ∨ ∃ u, (m.thread u).stat = .ready := by
    rcases step.woken.active with ready | run
    · exact Or.inr ⟨t, ready⟩
    · obtain rfl : t = c := Option.some.inj ((step.good'.running t run).symm.trans here)
      exact Or.inl run
  obtain ⟨w, d, called, -, -, leads⟩ :=
    Scheduler.schedule_leads step.good' here (step.woken.lock.trans unlocked) alive
  obtain rfl : w = v := Option.some.inj (called.symm.trans step.schedule)
  exact ⟨d, leads⟩

theorem Timeout.hands {s m v : Scheduler} (step : Timeout s m v t) (started : s.current ≠ none) :
    v.lockNest = s.lockNest ∧ (v.current = s.current ∨ s.lockNest = 0 ∧ ∃ d, v.Leads d) := by
  refine ⟨step.turn.lock.trans step.woken.lock, ?_⟩
  by_cases unlocked : s.lockNest = 0
  · exact Or.inr ⟨unlocked, step.schedules started unlocked⟩
  · left
    have called := step.schedule
    have locked : m.lockNest ≠ 0 := step.woken.lock ▸ unlocked
    rw [Scheduler.rtSchedule, if_neg fun both => locked both.1] at called
    rw [← Option.some.inj called]
    exact step.woken.current

theorem tick_hands (good : Good idle k) (started : k.scheduler.current ≠ none) (ticked : k.rtTickIncrease = some k') :
    Hands k k' := by
  obtain ⟨c, here⟩ := Option.ne_none_iff_exists'.mp started
  obtain ⟨s, sliced, good', running, -⟩ := slice_spec good here
  let P : Timers → Scheduler → Prop := fun _ s => s.current ≠ none ∧ s.lockNest = k.scheduler.lockNest ∧
    (s.current = k.scheduler.current ∨ k.scheduler.lockNest = 0 ∧ ∃ c, s.Leads c)
  have first := slice_hands good here sliced
  have start : P { k.timers with now := k.timers.now + 1 } s := ⟨running, first.lock, first.current⟩
  obtain ⟨timers, s', checked, -, -, -, holds⟩ := check_spec (P := P) good' running start (by
    rintro timers s m v u ⟨started, lock, current⟩ - - - step
    obtain ⟨lock', current'⟩ := step.hands started
    refine ⟨?_, lock'.trans lock, ?_⟩
    · rcases current' with same | ⟨-, d, leads⟩
      · rw [same]
        exact started
      · rw [leads.current]
        exact Option.some_ne_none d
    · rw [lock] at current'
      rcases current' with same | leads
      · rw [same]
        rcases current with before | ⟨unlocked, d, leads⟩
        · exact Or.inl before
        · refine Or.inr ⟨unlocked, ?_⟩
          exact step.leads (lock.trans unlocked) leads
      · exact Or.inr leads)
  have called : k.rtTickIncrease = some { k with scheduler := s', timers := timers } := by
    rw [rtTickIncrease, here, Option.bind_some, sliced, Option.bind_some, checked]
    rfl
  rw [← Option.some.inj (called.symm.trans ticked)]
  exact ⟨holds.2.1, holds.2.2⟩

/-- Nobody's time has come, or the timeouts have called `rt_schedule`. -/
theorem tick_rouses (good : Good idle k) (started : k.scheduler.current ≠ none) (ticked : k.rtTickIncrease = some k') :
    (∀ t, Quiet k k' t) ∨ (k.scheduler.lockNest = 0 → ∃ c, k'.scheduler.Leads c) := by
  obtain ⟨c, here⟩ := Option.ne_none_iff_exists'.mp started
  obtain ⟨s, sliced, good', running, lock⟩ := slice_spec good here
  let P : Timers → Scheduler → Prop := fun timers s => s.current ≠ none ∧ s.lockNest = k.scheduler.lockNest ∧
    ((∀ t, Quiet k { k with scheduler := s, timers := timers } t) ∨ (k.scheduler.lockNest = 0 → ∃ c, s.Leads c))
  have start : P { k.timers with now := k.timers.now + 1 } s := by
    refine ⟨running, lock, Or.inl fun t => ?_⟩
    have first : Quiet k { k with scheduler := s } t := slice_quiet good here sliced
    exact first.trans (.of_entry rfl (fun _ => Iff.rfl) Iff.rfl)
  obtain ⟨timers, s', checked, -, -, -, -, -, holds⟩ := check_spec (P := P) good' running start (by
    rintro timers s m v u ⟨started, lock, -⟩ - - - step
    obtain ⟨lock', -⟩ := step.hands started
    obtain ⟨d, there⟩ := Option.ne_none_iff_exists'.mp (step.woken.current ▸ started)
    obtain ⟨w, e, called, -, -, current⟩ := Scheduler.schedule_turn step.good' there
    obtain rfl : w = v := Option.some.inj (called.symm.trans step.schedule)
    refine ⟨by rw [current]; exact Option.some_ne_none e, lock'.trans lock, Or.inr fun unlocked => ?_⟩
    exact step.schedules started (lock.trans unlocked))
  have called : k.rtTickIncrease = some { k with scheduler := s', timers := timers } := by
    rw [rtTickIncrease, here, Option.bind_some, sliced, Option.bind_some, checked]
    rfl
  rw [← Option.some.inj (called.symm.trans ticked)]
  exact holds

/-- A step that neither starts the scheduler nor locks or unlocks it. -/
def Plain : ThreadAct → Prop
  | .start | .enterCritical | .exitCritical => False
  | _ => True

theorem not_plain (other : ¬ Plain act) : act = .start ∨ act = .enterCritical ∨ act = .exitCritical := by
  cases act <;> simp [Plain] at other ⊢

/-- A step that does not call `rt_schedule` leaves the processor to the thread that has it. -/
theorem Good.hands (good : Good idle k) (allowed : Allowed idle k act) (plain : Plain act)
    (moved : k.next act = some k') : Hands k k' := by
  cases act with
  | init u priority tick =>
    obtain ⟨timers, x, -, rfl⟩ := init_cases moved
    exact ⟨rfl, Or.inl rfl⟩
  | startup u =>
    obtain ⟨x, rfl⟩ := startup_cases moved
    exact ⟨rfl, Or.inl rfl⟩
  | start => exact plain.elim
  | schedule =>
    obtain ⟨s, called, rfl⟩ := Option.map_eq_some_iff.mp moved
    exact schedule_hands good allowed called
  | yield =>
    obtain ⟨c, runs⟩ := allowed
    let x : Thread := { k.scheduler.thread c with remainingTick := (k.scheduler.thread c).initTick, yielded := true }
    have changed : Good idle { k with scheduler := k.scheduler.set c x } := good.setCurrent runs.1 rfl rfl rfl
    have called : k.rtThreadYield = some k' := moved
    rw [rtThreadYield, runs.1, Option.bind_some] at called
    obtain ⟨s, scheduled, rfl⟩ := Option.map_eq_some_iff.mp called
    have hands : Hands { k with scheduler := k.scheduler.set c x } { k with scheduler := s } :=
      schedule_hands changed runs.started scheduled
    exact ⟨hands.lock, hands.current⟩
  | sleep tick =>
    obtain ⟨⟨c, runs, other⟩, range⟩ := allowed
    have same := sleep_spec good runs other range moved
    exact ⟨by rw [same]; rfl, Or.inl (by rw [same]; rfl)⟩
  | wait o flag time =>
    obtain ⟨⟨c, runs, other⟩, range⟩ := allowed
    have waits := wait_spec good runs other range moved
    exact ⟨waits.lock, Or.inl (waits.current.trans runs.1.symm)⟩
  | wake o =>
    obtain ⟨u, -, called⟩ := Option.bind_eq_some_iff.mp moved
    exact resume_hands called
  | suspend u =>
    obtain ⟨timers, -, rfl⟩ := Option.map_eq_some_iff.mp moved
    exact ⟨rfl, Or.inl rfl⟩
  | unlink u =>
    obtain ⟨timers, -, rfl⟩ := Option.map_eq_some_iff.mp moved
    exact ⟨rfl, Or.inl rfl⟩
  | insert u =>
    rw [← Option.some.inj moved]
    obtain ⟨lock, current⟩ := insert_hands k.scheduler u
    exact ⟨lock, Or.inl current⟩
  | changePriority u priority => exact change_hands moved
  | exit =>
    obtain ⟨c, runs, other⟩ := allowed
    obtain ⟨l, s, closed, -, good', scheduled, rfl⟩ := exit_closes good runs other moved
    obtain ⟨lock, current⟩ := schedule_hands good' (by rw [closed]; exact runs.started) scheduled
    rw [closed] at lock current
    exact ⟨lock, current⟩
  | enterCritical => exact plain.elim
  | exitCritical => exact plain.elim
  | tick => exact tick_hands good allowed moved

theorem Good.runs_on (good : Good idle k) (allowed : Allowed idle k act) (running : act ≠ .start)
    (moved : k.next act = some k') (started : k.scheduler.current ≠ none) : k'.scheduler.current ≠ none := by
  by_cases plain : Plain act
  · rcases (good.hands allowed plain moved).current with same | ⟨-, c, leads⟩
    · rw [same]
      exact started
    · rw [leads.current]
      exact Option.some_ne_none c
  · rcases (not_plain plain).resolve_left running with rfl | rfl
    · rw [← Option.some.inj moved]
      exact started
    · rw [← Option.some.inj moved]
      exact started

/-! ### What a call goes through while others move -/

/-- The thread `t` may be woken, but it is not put to sleep, and only its own timer gives it an error. -/
structure Unharmed (k k' : Threads) (t : Nat) : Prop where
  now_le : k.timers.now ≤ k'.timers.now
  active : k.scheduler.Active t → k'.scheduler.Active t
  timers : t ∈ k'.timers.list → t ∈ k.timers.list ∧ (k'.timers.timer t).due = (k.timers.timer t).due
  error : (k'.scheduler.thread t).error = (k.scheduler.thread t).error ∨
    t ∈ k.timers.list ∧ (k.timers.timer t).due ≤ k'.timers.now ∧ (k'.scheduler.thread t).error = -eTimeout ∧
      k'.scheduler.Active t

theorem Good.awake_of (good : Good idle k) (active : k.scheduler.Active t) : t ∉ k.timers.list := by
  apply good.awake
  rcases active with ready | run
  · rw [ready]
    exact Stat.noConfusion
  · rw [run]
    exact Stat.noConfusion

theorem woken_roused (good : Good idle k) (aloof : k.Aloof t act) (moved : k.next act = some k')
    (woken : k.woken act = some t) : Roused k k' t (k.scheduler.thread t).error := by
  cases act with
  | wake o =>
    obtain ⟨u, first, called⟩ := Option.bind_eq_some_iff.mp moved
    obtain rfl : u = t := Option.some.inj (first.symm.trans woken)
    exact resume_roused good (good.scheduler.waits.suspended o u (List.mem_of_mem_head? first)) called
  | unlink u => exact absurd (Option.some.inj woken).symm aloof
  | _ => cases woken

theorem tick_unharmed (good : Good idle k) (started : k.scheduler.current ≠ none) (ticked : k.rtTickIncrease = some k')
    (t : Nat) : Unharmed k k' t := by
  obtain ⟨l, called, good', -, now, sleepers⟩ := tick_spec good started
  obtain rfl : l = k' := Option.some.inj (called.symm.trans ticked)
  have later : k.timers.now ≤ l.timers.now := by omega
  rcases tick_ticked good started ticked t with quiet | ⟨listed, roused⟩
  · refine ⟨later, quiet.active, ?_, Or.inl quiet.error⟩
    intro member
    have before := quiet.timers.mp member
    rcases sleepers t before with ⟨-, due⟩ | ⟨-, active, -⟩
    · exact ⟨before, due⟩
    · exact absurd member (good'.awake_of active)
  · have awake := good'.awake_of roused.active
    refine ⟨later, fun _ => roused.active, fun member => absurd member awake,
      Or.inr ⟨listed, ?_, roused.error_eq, roused.active⟩⟩
    rcases sleepers t listed with ⟨still, -⟩ | ⟨due, -⟩
    · exact absurd still awake
    · omega

theorem Good.unharmed (good : Good idle k) (allowed : Allowed idle k act) (aloof : k.Aloof t act)
    (moved : k.next act = some k') : Unharmed k k' t := by
  obtain ⟨l, moved', good', kind⟩ := good.next allowed
  obtain rfl : l = k' := Option.some.inj (moved'.symm.trans moved)
  by_cases ticks : act = .tick
  · subst ticks
    exact tick_unharmed good allowed moved t
  · have steady := kind.resolve_left ticks
    have now : k.timers.now ≤ l.timers.now := Nat.le_of_eq steady.now_eq.symm
    by_cases woken : k.woken act = some t
    · have roused := woken_roused good aloof moved woken
      have listed := good'.awake_of roused.active
      exact ⟨now, fun _ => roused.active, fun member => absurd member listed, Or.inl roused.error_eq⟩
    · rcases good.others allowed aloof moved with quiet | ⟨woken', -⟩ | ⟨ticks', -⟩
      · refine ⟨now, quiet.active, ?_, Or.inl quiet.error⟩
        intro member
        obtain ⟨-, same⟩ := steady.asleep t (quiet.timers.mp member) woken
        exact ⟨quiet.timers.mp member, by rw [same]⟩
      · exact absurd woken' woken
      · exact absurd ticks' ticks

end Threads
end BleSpeaker.Kernel
