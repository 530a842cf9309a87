import BleSpeaker.Kernel.Scheduler

/-!
# Who runs next

What `rt_schedule` does to a scheduler whose queues are in order: nothing while the scheduler is locked or
nobody is ready, and otherwise the current thread goes on or makes way for the first ready thread of the highest
priority. Afterwards no ready thread is more urgent than the one that runs.
-/

namespace BleSpeaker.Kernel.Scheduler
variable {s : Scheduler} {t u p : Nat} {x : Thread}

theorem rtFfs_spec {value : BitVec 32} (filled : value ≠ 0) :
    ∃ p < 32, rtFfs value = p + 1 ∧ value.getLsbD p = true ∧ ∀ q < p, value.getLsbD q = false := by
  unfold rtFfs
  split
  · rename_i p found
    rw [List.find?_range_eq_some] at found
    obtain ⟨here, member, before⟩ := found
    refine ⟨p, List.mem_range.mp member, rfl, here, ?_⟩
    intro q below
    simpa using before q below
  · rename_i nothing
    rw [List.find?_range_eq_none] at nothing
    refine absurd (BitVec.eq_of_getLsbD_eq ?_) filled
    intro p below
    have clear : value.getLsbD p = false := by simpa using nothing p below
    rw [clear]
    simp

/-- The first thread of the highest queue that is not empty. -/
structure Highest (s : Scheduler) (p first : Nat) (rest : List Nat) : Prop where
  priority : s.highestReadyPriority = p
  queue : s.table p = first :: rest
  above : ∀ q < p, s.table q = []

theorem Queues.highest (queues : Queues s) (filled : s.group ≠ 0) : ∃ p first rest, Highest s p first rest := by
  obtain ⟨p, below, index, here, above⟩ := rtFfs_spec filled
  obtain ⟨first, rest, queue⟩ := List.exists_cons_of_ne_nil ((queues.bit p below).mp here)
  refine ⟨p, first, rest, ?_, queue, ?_⟩
  · rw [highestReadyPriority, index, Nat.add_sub_cancel]
  · intro q less
    have clear := (queues.bit q (Nat.lt_trans less below)).not.mp (by rw [above q less]; exact Bool.false_ne_true)
    exact not_not.mp clear

theorem Queues.empty (queues : Queues s) (clear : s.group = 0) (p : Nat) : s.table p = [] := by
  by_contra filled
  obtain ⟨first, rest, queue⟩ := List.exists_cons_of_ne_nil filled
  have member : first ∈ s.table p := by
    rw [queue]
    exact List.mem_cons_self
  have bit := (queues.bit p (queues.lt member)).mpr filled
  rw [clear] at bit
  simp at bit

theorem Highest.ready {rest : List Nat} (highest : Highest s p t rest) (queues : Queues s) :
    (s.thread t).stat = .ready ∧ (s.thread t).currentPriority = p := by
  rw [← queues.queued, highest.queue]
  exact List.mem_cons_self

theorem Highest.le {rest : List Nat} (highest : Highest s p t rest) (queues : Queues s)
    (ready : (s.thread u).stat = .ready) : p ≤ (s.thread u).currentPriority := by
  by_contra above
  have member := (queues.queued _ u).mpr ⟨ready, rfl⟩
  rw [highest.above _ (Nat.lt_of_not_le above)] at member
  exact absurd member List.not_mem_nil

/-- What one call of `rt_schedule` can do. -/
theorem schedule_cases {c : Nat} (good : Good s) (here : s.current = some c) (unlocked : s.lockNest = 0) :
    (s.group = 0 ∧ s.rtSchedule = some s) ∨
    (∃ p first rest, Highest s p first rest ∧ s.Keeps c ∧ s.rtSchedule = some ((s.setYield c false).dispatch c)) ∨
    (∃ p first rest, Highest s p first rest ∧ ¬ s.Keeps c ∧ s.rtSchedule = some ((s.clearYield c).switch c first)) := by
  by_cases clear : s.group = 0
  · refine Or.inl ⟨clear, ?_⟩
    rw [rtSchedule, if_neg (fun both => both.2 clear)]
  · obtain ⟨p, first, rest, highest⟩ := good.queues.highest clear
    have other : first ≠ c := by
      rintro rfl
      exact (good.current first here).1 (highest.ready good.queues).1
    have chosen : s.rtSchedule = some (if s.Keeps c ∨ first = c then (s.clearYield c).dispatch c
        else (s.clearYield c).switch c first) := by
      rw [rtSchedule, if_pos ⟨unlocked, clear⟩, highest.priority, highest.queue, here]
      rfl
    by_cases keeps : s.Keeps c
    · refine Or.inr (Or.inl ⟨p, first, rest, highest, keeps, ?_⟩)
      rw [chosen, if_pos (Or.inl keeps), clearYield, if_pos keeps.1]
    · refine Or.inr (Or.inr ⟨p, first, rest, highest, keeps, ?_⟩)
      rw [chosen, if_neg (fun either => either.elim keeps other)]

/-- What a call of `rt_schedule` leaves of the threads: only ready threads and the running one are changed, and
they stay one or the other. -/
structure Turn (s t : Scheduler) : Prop where
  parked : ∀ u, (s.thread u).stat ≠ .ready → (s.thread u).stat ≠ .running → t.thread u = s.thread u
  active : ∀ u, (s.thread u).stat = .ready ∨ (s.thread u).stat = .running →
    ∃ stat yielded, t.thread u = { s.thread u with stat := stat, yielded := yielded } ∧
      (stat = .ready ∨ stat = .running)
  waiting : t.waiting = s.waiting
  lock : t.lockNest = s.lockNest

theorem Turn.refl (s : Scheduler) : Turn s s := ⟨fun _ _ _ => rfl, fun _ active => ⟨_, _, rfl, active⟩, rfl, rfl⟩

/-- The current thread goes on. -/
structure Kept (s t : Scheduler) (c : Nat) : Prop where
  current : t.current = some c
  table : t.table = s.table
  thread : t.thread = (s.setYield c false).thread
  waiting : t.waiting = s.waiting
  lock : t.lockNest = s.lockNest
  switches : t.switches = s.switches

/-- The current thread makes way for another. -/
structure Switched (s t : Scheduler) (c first : Nat) : Prop where
  current : t.current = some first
  table : ∀ q, t.table q = (if (s.thread c).stat = .running ∧ q = (s.thread c).currentPriority then s.table q ++ [c]
    else s.table q).erase first
  old : t.thread c = if (s.thread c).stat = .running then { s.thread c with stat := .ready, yielded := false }
    else s.thread c
  new : t.thread first = { s.thread first with stat := .running }
  others : ∀ u, u ≠ c → u ≠ first → t.thread u = s.thread u
  waiting : t.waiting = s.waiting
  lock : t.lockNest = s.lockNest
  switches : t.switches = s.switches ++ [(c, first)]

variable {c first : Nat} {rest : List Nat}

theorem keeps_spec (good : Good s) (here : s.current = some c) (keeps : s.Keeps c) :
    Good ((s.setYield c false).dispatch c) ∧ Kept s ((s.setYield c false).dispatch c) c := by
  have missing : (fun q => (s.table q).erase c) = s.table := good.queues.erase (good.current c here).1
  have started : s.Started c := by
    constructor
    · rw [keeps.1]
      exact Stat.noConfusion
    · rw [keeps.1]
      exact Stat.noConfusion
  have mask := good.queues.mask c started
  have entry : ((s.setYield c false).dispatch c).thread = (s.setYield c false).thread := by
    funext u
    by_cases same : u = c
    · subst same
      rw [dispatch, setStat, set_thread_self]
      show { (s.setYield u false).thread u with stat := Stat.running } = _
      rw [setYield, set_thread_self, ← keeps.1]
    · rw [dispatch, setStat, set_thread_of_ne same]
      rfl
  have parts : ∀ u, ((s.setYield c false).thread u).stat = (s.thread u).stat := by
    intro u
    by_cases same : u = c
    · subst same
      rw [setYield, set_thread_self]
    · rw [setYield, set_thread_of_ne same]
  have stands : (s.thread c).stat ≠ .suspend := by
    rw [keeps.1]
    exact Stat.noConfusion
  refine ⟨⟨?_, ?_, ?_, ?_⟩, ⟨here, missing, entry, good.waits.erase stands, rfl, rfl⟩⟩
  · have quiet : Queues (s.setYield c false) := by
      refine good.queues.set (good.current c here).1 ?_ fun _ _ => mask
      exact (good.current c here).1
    refine quiet.remove ?_ Stat.noConfusion ?_
    · unfold Started
      rw [parts]
      exact started
    · intro _ _
      show ((s.setYield c false).thread c).currentPriority < 32 ∧ ((s.setYield c false).thread c).numberMask =
        priorityMask ((s.setYield c false).thread c).currentPriority
      rw [setYield, set_thread_self]
      exact mask
  · have quiet : Waits (s.setYield c false) := good.waits.set (Or.inr (good.waits.free stands))
    exact (quiet.unlink _).congr rfl rfl
  · intro u
    rw [entry, parts]
    exact good.running u
  · intro u
    rw [entry, parts]
    exact good.current u

/-- The first ready thread runs, which was not the current one. -/
theorem dispatch_spec (queues : Queues s) (waits : Waits s) (here : s.current = some first)
    (ready : (s.thread first).stat = .ready) (alone : ∀ u, (s.thread u).stat ≠ .running) :
    Good (s.dispatch first) ∧ (s.dispatch first).current = some first ∧
      (∀ q, (s.dispatch first).table q = (s.table q).erase first) ∧
      (s.dispatch first).thread first = { s.thread first with stat := .running } ∧
      (∀ u, u ≠ first → (s.dispatch first).thread u = s.thread u) ∧ (s.dispatch first).waiting = s.waiting ∧
      (s.dispatch first).lockNest = s.lockNest := by
  have stands : (s.thread first).stat ≠ .suspend := by
    rw [ready]
    exact Stat.noConfusion
  have started : s.Started first := started_of_stat ready ⟨Stat.noConfusion, Stat.noConfusion⟩
  have new : (s.dispatch first).thread first = { s.thread first with stat := .running } := set_thread_self _ _ _
  have others : ∀ u, u ≠ first → (s.dispatch first).thread u = s.thread u := fun u differs => set_thread_of_ne differs
  refine ⟨⟨?_, ?_, ?_, ?_⟩, here, fun _ => rfl, new, others, waits.erase stands, rfl⟩
  · exact queues.remove started Stat.noConfusion fun _ _ => queues.mask first started
  · exact (waits.unlink _).congr rfl rfl
  · intro u run
    by_cases same : u = first
    · exact same ▸ here
    · rw [others u same] at run
      exact absurd run (alone u)
  · intro u current
    obtain rfl : first = u := Option.some.inj (here.symm.trans current)
    rw [new]
    exact ⟨Stat.noConfusion, Stat.noConfusion⟩

/-- The running thread joins the end of its queue. -/
structure Returned (s v : Scheduler) (c first : Nat) : Prop where
  queues : Queues v
  waits : Waits v
  current : v.current = some first
  table : ∀ q, v.table q = if q = (s.thread c).currentPriority then s.table q ++ [c] else s.table q
  self : v.thread c = { s.thread c with stat := .ready, yielded := false }
  others : ∀ u, u ≠ c → v.thread u = s.thread u
  waiting : v.waiting = s.waiting
  lock : v.lockNest = s.lockNest
  switches : v.switches = s.switches ++ [(c, first)]

theorem returned_spec (good : Good s) (run : (s.thread c).stat = .running) (other : first ≠ c) :
    Returned s (rtScheduleInsertThread
      { s.setYield c false with current := some first, switches := s.switches ++ [(c, first)] } c) c first := by
  let v : Scheduler := { s.setYield c false with current := some first, switches := s.switches ++ [(c, first)] }
  have started : s.Started c := started_of_stat run ⟨Stat.noConfusion, Stat.noConfusion⟩
  have stands : (s.thread c).stat ≠ .suspend := by
    rw [run]
    exact Stat.noConfusion
  have quiet : (s.thread c).stat ≠ .ready := by
    rw [run]
    exact Stat.noConfusion
  have self : v.thread c = { s.thread c with yielded := false } := set_thread_self _ _ _
  have running : (v.thread c).stat = .running := by
    rw [self]
    exact run
  have away : v.current ≠ some c := fun eq => other (Option.some.inj eq)
  have inserted : v.rtScheduleInsertThread c = _ := insert_away away
  have yields : Queues (s.setYield c false) :=
    good.queues.set quiet quiet fun _ _ => good.queues.mask c started
  have queues : Queues v := yields.congr rfl rfl rfl
  have waits : Waits v := (good.waits.set (Or.inr (good.waits.free stands)) : Waits (s.setYield c false)).congr rfl rfl
  refine ⟨?_, ?_, ?_, ?_, ?_, ?_, ?_, ?_, ?_⟩
  · refine queues.insert away (started_of_stat running ⟨Stat.noConfusion, Stat.noConfusion⟩) ?_
    rw [running]
    exact Stat.noConfusion
  · have free : ∀ o, c ∉ v.waiting o := good.waits.free stands
    show Waits (v.rtScheduleInsertThread c)
    rw [inserted]
    exact (waits.set (Or.inr free) : Waits (v.setStat c .ready)).congr rfl rfl
  · show (v.rtScheduleInsertThread c).current = _
    rw [inserted]
    rfl
  · intro q
    show (v.rtScheduleInsertThread c).table q = _
    rw [inserted, self]
    show Function.update s.table (s.thread c).currentPriority (s.table (s.thread c).currentPriority ++ [c]) q = _
    rw [Function.update_apply]
    split
    · rename_i eq
      rw [eq]
    · rfl
  · show (v.rtScheduleInsertThread c).thread c = _
    rw [inserted]
    show (v.setStat c .ready).thread c = _
    rw [setStat, set_thread_self, self]
  · intro u differs
    show (v.rtScheduleInsertThread c).thread u = _
    rw [inserted]
    show (v.setStat c .ready).thread u = _
    rw [setStat, set_thread_of_ne differs]
    exact set_thread_of_ne differs
  · show (v.rtScheduleInsertThread c).waiting = _
    rw [inserted]
    rfl
  · show (v.rtScheduleInsertThread c).lockNest = _
    rw [inserted]
    rfl
  · show (v.rtScheduleInsertThread c).switches = _
    rw [inserted]
    rfl

theorem switch_running (good : Good s) (here : s.current = some c) (run : (s.thread c).stat = .running)
    (other : first ≠ c) (ready : (s.thread first).stat = .ready) :
    Good ((s.clearYield c).switch c first) ∧ Switched s ((s.clearYield c).switch c first) c first := by
  let v : Scheduler := { s.setYield c false with current := some first, switches := s.switches ++ [(c, first)] }
  have running : (v.thread c).stat = .running := by
    show ((s.setYield c false).thread c).stat = .running
    rw [setYield, set_thread_self]
    exact run
  have shape : (s.clearYield c).switch c first = (v.rtScheduleInsertThread c).dispatch first := by
    rw [clearYield, if_pos run]
    exact congrArg (fun w => dispatch w first) (if_pos running)
  have returned : Returned s (v.rtScheduleInsertThread c) c first := returned_spec good run other
  have alone : ∀ u, ((v.rtScheduleInsertThread c).thread u).stat ≠ .running := by
    intro u
    by_cases eq : u = c
    · rw [eq, returned.self]
      exact Stat.noConfusion
    · rw [returned.others u eq]
      exact fun run => eq (Option.some.inj ((good.running u run).symm.trans here))
  have ready' : ((v.rtScheduleInsertThread c).thread first).stat = .ready := by
    rw [returned.others first other]
    exact ready
  obtain ⟨good', current, table, new, others, waiting, lock⟩ :=
    dispatch_spec returned.queues returned.waits returned.current ready' alone
  rw [shape]
  refine ⟨good', current, ?_, ?_, ?_, ?_, waiting.trans returned.waiting, lock.trans returned.lock, returned.switches⟩
  · intro q
    rw [table, returned.table]
    simp only [run, true_and]
  · rw [others c (Ne.symm other), returned.self, if_pos run]
  · rw [new, returned.others first other]
  · intro u away old
    rw [others u old, returned.others u away]

/-- A thread that has suspended itself joins no queue. -/
theorem switch_parked (good : Good s) (here : s.current = some c) (run : (s.thread c).stat ≠ .running)
    (other : first ≠ c) (ready : (s.thread first).stat = .ready) :
    Good ((s.clearYield c).switch c first) ∧ Switched s ((s.clearYield c).switch c first) c first := by
  let v : Scheduler := { s with current := some first, switches := s.switches ++ [(c, first)] }
  have shape : (s.clearYield c).switch c first = v.dispatch first := by
    rw [clearYield, if_neg run]
    exact congrArg (fun w => dispatch w first) (if_neg run)
  have alone : ∀ u, (v.thread u).stat ≠ .running := by
    intro u
    by_cases eq : u = c
    · rw [eq]
      exact run
    · exact fun run => eq (Option.some.inj ((good.running u run).symm.trans here))
  have queues : Queues v := good.queues.congr rfl rfl rfl
  have waits : Waits v := good.waits.congr rfl rfl
  obtain ⟨good', current, table, new, others, waiting, lock⟩ := dispatch_spec queues waits rfl ready alone
  rw [shape]
  refine ⟨good', current, ?_, ?_, new, ?_, waiting, lock, rfl⟩
  · intro q
    rw [table, if_neg fun both => run both.1]
  · rw [others c (Ne.symm other), if_neg run]
  · intro u _ old
    exact others u old

theorem switch_spec (good : Good s) (here : s.current = some c) (highest : Highest s p first rest) :
    Good ((s.clearYield c).switch c first) ∧ Switched s ((s.clearYield c).switch c first) c first := by
  obtain ⟨ready, -⟩ := highest.ready good.queues
  have other : first ≠ c := by
    rintro rfl
    exact (good.current first here).1 ready
  by_cases run : (s.thread c).stat = .running
  · exact switch_running good here run other ready
  · exact switch_parked good here run other ready

/-- What one call of `rt_schedule` does. -/
theorem schedule_spec (good : Good s) (here : s.current = some c) :
    ∃ v, s.rtSchedule = some v ∧ Good v ∧
      ((v = s ∧ (s.lockNest ≠ 0 ∨ s.group = 0)) ∨
        s.lockNest = 0 ∧ ∃ p first rest, Highest s p first rest ∧
          (s.Keeps c ∧ Kept s v c ∨ ¬ s.Keeps c ∧ Switched s v c first)) := by
  by_cases unlocked : s.lockNest = 0
  · rcases schedule_cases good here unlocked with
      ⟨clear, same⟩ | ⟨p, first, rest, highest, keeps, kept⟩ | ⟨p, first, rest, highest, leaves, switched⟩
    · exact ⟨s, same, good, Or.inl ⟨rfl, Or.inr clear⟩⟩
    · obtain ⟨good', spec⟩ := keeps_spec good here keeps
      exact ⟨_, kept, good', Or.inr ⟨unlocked, p, first, rest, highest, Or.inl ⟨keeps, spec⟩⟩⟩
    · obtain ⟨good', spec⟩ := switch_spec good here highest
      exact ⟨_, switched, good', Or.inr ⟨unlocked, p, first, rest, highest, Or.inr ⟨leaves, spec⟩⟩⟩
  · refine ⟨s, ?_, good, Or.inl ⟨rfl, Or.inl unlocked⟩⟩
    rw [rtSchedule, if_neg fun both => unlocked both.1]

/-- The thread that runs: no ready thread is more urgent. -/
structure Leads (s : Scheduler) (c : Nat) : Prop where
  current : s.current = some c
  running : (s.thread c).stat = .running
  first : ∀ u, (s.thread u).stat = .ready → (s.thread c).currentPriority ≤ (s.thread u).currentPriority

theorem Switched.turn {v : Scheduler} (switched : Switched s v c first) (ready : (s.thread first).stat = .ready) :
    Turn s v := by
  refine ⟨?_, ?_, switched.waiting, switched.lock⟩
  · intro u waits stands
    by_cases old : u = c
    · subst old
      rw [switched.old, if_neg stands]
    · refine switched.others u old ?_
      rintro rfl
      exact waits ready
  · intro u active
    by_cases new : u = first
    · subst new
      exact ⟨.running, _, switched.new, Or.inr rfl⟩
    · by_cases old : u = c
      · subst old
        rw [switched.old]
        split
        · exact ⟨.ready, false, rfl, Or.inl rfl⟩
        · exact ⟨_, _, rfl, active⟩
      · exact ⟨_, _, switched.others u old new, active⟩

theorem Kept.turn {v : Scheduler} (kept : Kept s v c) (run : (s.thread c).stat = .running) : Turn s v := by
  have others : ∀ u, u ≠ c → v.thread u = s.thread u := by
    intro u differs
    rw [kept.thread]
    exact set_thread_of_ne differs
  refine ⟨?_, ?_, kept.waiting, kept.lock⟩
  · intro u _ stands
    apply others
    rintro rfl
    exact stands run
  · intro u active
    by_cases same : u = c
    · subst same
      refine ⟨_, false, ?_, active⟩
      rw [kept.thread]
      exact set_thread_self _ _ _
    · exact ⟨_, _, others u same, active⟩

theorem schedule_turn (good : Good s) (here : s.current = some c) :
    ∃ v d, s.rtSchedule = some v ∧ Good v ∧ Turn s v ∧ v.current = some d := by
  obtain ⟨v, called, good', result⟩ := schedule_spec good here
  rcases result with ⟨rfl, -⟩ | ⟨-, p, first, rest, highest, ⟨keeps, kept⟩ | ⟨-, switched⟩⟩
  · exact ⟨v, c, called, good', Turn.refl v, here⟩
  · exact ⟨v, c, called, good', kept.turn keeps.1, kept.current⟩
  · exact ⟨v, first, called, good', switched.turn (highest.ready good.queues).1, switched.current⟩

/-- After `rt_schedule` the most urgent thread runs, unless the scheduler is locked. -/
theorem schedule_leads (good : Good s) (here : s.current = some c) (unlocked : s.lockNest = 0)
    (alive : (s.thread c).stat = .running ∨ ∃ u, (s.thread u).stat = .ready) :
    ∃ v d, s.rtSchedule = some v ∧ Good v ∧ Turn s v ∧ Leads v d := by
  obtain ⟨v, called, good', result⟩ := schedule_spec good here
  rcases result with ⟨rfl, locked | clear⟩ | ⟨-, p, first, rest, highest, ⟨keeps, kept⟩ | ⟨leaves, switched⟩⟩
  · exact absurd unlocked locked
  · have nobody : ∀ u, (v.thread u).stat ≠ .ready := by
      intro u ready
      have member := (good.queues.queued _ u).mpr ⟨ready, rfl⟩
      rw [good.queues.empty clear] at member
      exact absurd member List.not_mem_nil
    have run := alive.resolve_right fun ⟨u, ready⟩ => nobody u ready
    exact ⟨v, c, called, good', Turn.refl v, here, run, fun u ready => absurd ready (nobody u)⟩
  · refine ⟨v, c, called, good', kept.turn keeps.1, kept.current, ?_, ?_⟩
    · rw [kept.thread, setYield, set_thread_self]
      exact keeps.1
    · have same : (v.thread c).currentPriority = (s.thread c).currentPriority := by
        rw [kept.thread, setYield, set_thread_self]
      intro u ready
      have differs : u ≠ c := by
        rintro rfl
        exact (good'.current u kept.current).1 ready
      have entry : v.thread u = s.thread u := by
        rw [kept.thread]
        exact set_thread_of_ne differs
      rw [entry] at ready
      rw [same, entry]
      have least := highest.le good.queues ready
      have bound := keeps.2
      rw [highest.priority] at bound
      omega
  · obtain ⟨ready, priority⟩ := highest.ready good.queues
    refine ⟨v, first, called, good', switched.turn ready, switched.current, ?_, ?_⟩
    · rw [switched.new]
    · have same : (v.thread first).currentPriority = p := by
        rw [switched.new]
        exact priority
      rw [same]
      intro u waits
      have other : u ≠ first := by
        rintro rfl
        rw [switched.new] at waits
        exact Stat.noConfusion waits
      by_cases old : u = c
      · -- the thread that ran was not more urgent
        subst old
        rw [switched.old] at waits ⊢
        split
        · rename_i run
          show p ≤ (s.thread u).currentPriority
          by_contra above
          exact leaves ⟨run, Or.inl (by rw [highest.priority]; omega)⟩
        · rename_i stands
          rw [if_neg stands] at waits
          exact absurd waits (good.current u here).1
      · rw [switched.others u old other] at waits ⊢
        exact highest.le good.queues waits

end BleSpeaker.Kernel.Scheduler
