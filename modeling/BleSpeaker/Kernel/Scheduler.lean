import Mathlib.Data.List.Nodup
import Mathlib.Logic.Function.Basic

/-!
# The scheduler

`scheduler.c` for one processor and 32 priorities: a queue of ready threads for each priority, a word with a bit
for each queue that is not empty, and `rt_schedule`, which gives the processor to the first thread of the
highest of them. Priority 0 is the highest.

A thread is a number. `none` as a result stands for a pointer that is not valid: `rt_schedule` before the
scheduler was started, or the entry of an empty queue.
-/

namespace BleSpeaker.Kernel

inductive Stat where
  | init
  | ready
  | suspend
  | running
  | close
deriving DecidableEq

/-- `RT_ETIMEOUT` -/
def eTimeout : Int := 2

structure Thread where
  stat : Stat
  /-- `RT_THREAD_STAT_YIELD`, the flag beside the state. -/
  yielded : Bool
  initPriority : Nat
  currentPriority : Nat
  numberMask : BitVec 32
  initTick : UInt32
  remainingTick : UInt32
  error : Int

structure Scheduler where
  table : Nat → List Nat
  /-- The threads that are suspended on an object. A thread has one list node, `tlist`, for all lists. -/
  waiting : Nat → List Nat
  group : BitVec 32
  thread : Nat → Thread
  current : Option Nat
  lockNest : Int
  /-- The calls of `rt_scheduler_hook`, with the threads that it is given. -/
  switches : List (Nat × Nat)

def threadPriorityMax : Nat := 32

/-- `__rt_ffs`: one more than the lowest bit that is set, or 0. -/
def rtFfs (value : BitVec 32) : Nat :=
  match (List.range 32).find? fun p => value.getLsbD p with
  | some p => p + 1
  | none => 0

def priorityMask (priority : Nat) : BitVec 32 := 1#32 <<< priority

namespace Scheduler

def set (s : Scheduler) (t : Nat) (x : Thread) : Scheduler := { s with thread := Function.update s.thread t x }

def setStat (s : Scheduler) (t : Nat) (stat : Stat) : Scheduler := s.set t { s.thread t with stat := stat }

def setYield (s : Scheduler) (t : Nat) (yielded : Bool) : Scheduler :=
  s.set t { s.thread t with yielded := yielded }

def rtSystemSchedulerInit (thread : Nat → Thread) : Scheduler :=
  ⟨fun _ => [], fun _ => [], 0, thread, none, 0, []⟩

def rtScheduleInsertThread (s : Scheduler) (t : Nat) : Scheduler :=
  -- it's current thread, it should be RUNNING thread
  if s.current = some t then s.setStat t .running
  else
    let priority := (s.thread t).currentPriority
    { s.setStat t .ready with
      table := Function.update s.table priority (s.table priority ++ [t])
      group := s.group ||| (s.thread t).numberMask }

/-- `rt_list_remove`: the thread leaves whichever list it is in. -/
def unlink (s : Scheduler) (t : Nat) : Scheduler :=
  { s with
    table := fun p => (s.table p).erase t
    waiting := fun o => (s.waiting o).erase t }

def rtScheduleRemoveThread (s : Scheduler) (t : Nat) : Scheduler :=
  { s.unlink t with
    group :=
      if (s.unlink t).table (s.thread t).currentPriority = [] then s.group &&& ~~~ (s.thread t).numberMask
      else s.group }

/-- The last lines of a choice: the thread leaves its queue and runs. -/
def dispatch (s : Scheduler) (t : Nat) : Scheduler := (s.rtScheduleRemoveThread t).setStat t .running

def highestReadyPriority (s : Scheduler) : Nat := rtFfs s.group - 1

/-- The running thread goes on although others are ready. -/
def Keeps (s : Scheduler) (t : Nat) : Prop :=
  (s.thread t).stat = .running ∧ ((s.thread t).currentPriority < s.highestReadyPriority ∨
    ((s.thread t).currentPriority = s.highestReadyPriority ∧ (s.thread t).yielded = false))

instance (s : Scheduler) (t : Nat) : Decidable (s.Keeps t) := inferInstanceAs (Decidable (_ ∧ _))

def clearYield (s : Scheduler) (t : Nat) : Scheduler :=
  if (s.thread t).stat = .running then s.setYield t false else s

/-- A thread that was running and is not the one that runs next is ready again. -/
def switch (s : Scheduler) (old new : Nat) : Scheduler :=
  let s := { s with current := some new, switches := s.switches ++ [(old, new)] }
  let s := if (s.thread old).stat = .running then s.rtScheduleInsertThread old else s
  s.dispatch new

def rtSchedule (s : Scheduler) : Option Scheduler :=
  if s.lockNest = 0 ∧ s.group ≠ 0 then
    (s.table s.highestReadyPriority).head?.bind fun first =>
      s.current.map fun current =>
        if s.Keeps current ∨ first = current then (s.clearYield current).dispatch current
        else (s.clearYield current).switch current first
  else some s

def rtSystemSchedulerStart (s : Scheduler) : Option Scheduler :=
  (s.table s.highestReadyPriority).head?.map fun first =>
    ({ s with current := some first }.dispatch first).setYield first false

/-- `rt_scheduler_lock_nest` is an `rt_int16_t`. -/
def rtEnterCritical (s : Scheduler) : Scheduler := { s with lockNest := (s.lockNest + 1).bmod 65536 }

/-- `rt_exit_critical` up to where it enables interrupts. When the result is 0 it goes on to `rt_schedule`. -/
def rtExitCritical (s : Scheduler) : Scheduler := { s with lockNest := max 0 ((s.lockNest - 1).bmod 65536) }

/-! ### The queues and the ready word -/

/-- The thread was started and is not closed: its mask is the one of its priority. -/
def Started (s : Scheduler) (t : Nat) : Prop := (s.thread t).stat ≠ .init ∧ (s.thread t).stat ≠ .close

structure Queues (s : Scheduler) : Prop where
  queued : ∀ p t, t ∈ s.table p ↔ (s.thread t).stat = .ready ∧ (s.thread t).currentPriority = p
  nodup : ∀ p, (s.table p).Nodup
  bit : ∀ p < 32, s.group.getLsbD p = true ↔ s.table p ≠ []
  mask : ∀ t, s.Started t → (s.thread t).currentPriority < 32 ∧
    (s.thread t).numberMask = priorityMask (s.thread t).currentPriority

variable {s : Scheduler} {t u p : Nat} {x : Thread}

theorem set_thread_self (s : Scheduler) (t : Nat) (x : Thread) : (s.set t x).thread t = x := by
  show Function.update s.thread t x t = x
  rw [Function.update_self]

theorem set_thread_of_ne (differs : u ≠ t) : (s.set t x).thread u = s.thread u := by
  show Function.update s.thread t x u = s.thread u
  rw [Function.update_of_ne differs]

theorem priorityMask_bit {p q : Nat} (valid : q < 32) : (priorityMask p).getLsbD q = true ↔ q = p := by
  rw [priorityMask, BitVec.getLsbD_shiftLeft]
  simp only [valid, decide_true, Bool.true_and, BitVec.getLsbD_one, Bool.and_eq_true, Bool.not_eq_true',
    decide_eq_false_iff_not, decide_eq_true_eq]
  omega

theorem Queues.lt (queues : Queues s) (member : t ∈ s.table p) : p < 32 := by
  obtain ⟨ready, rfl⟩ := (queues.queued p t).mp member
  refine (queues.mask t ⟨?_, ?_⟩).1
  · rw [ready]
    exact Stat.noConfusion
  · rw [ready]
    exact Stat.noConfusion

theorem Queues.erase (queues : Queues s) (stat : (s.thread t).stat ≠ .ready) :
    (fun p => (s.table p).erase t) = s.table :=
  funext fun p => List.erase_of_not_mem fun member => stat ((queues.queued p t).mp member).1

/-- A thread that is not ready keeps its queue when its entry changes. -/
theorem Queues.set (queues : Queues s) (before : (s.thread t).stat ≠ .ready) (after : x.stat ≠ .ready)
    (mask : x.stat ≠ .init → x.stat ≠ .close → x.currentPriority < 32 ∧ x.numberMask = priorityMask x.currentPriority) :
    Queues (s.set t x) := by
  refine { queued := ?_, nodup := queues.nodup, bit := queues.bit, mask := ?_ }
  · intro p u
    by_cases here : u = t
    · subst here
      rw [set_thread_self]
      show u ∈ s.table p ↔ _
      rw [queues.queued]
      simp only [before, after, false_and]
    · rw [set_thread_of_ne here]
      exact queues.queued p u
  · intro u
    unfold Started
    by_cases here : u = t
    · subst here
      rw [set_thread_self]
      exact fun started => mask started.1 started.2
    · rw [set_thread_of_ne here]
      exact queues.mask u

theorem Queues.insert (queues : Queues s) (other : s.current ≠ some t) (started : s.Started t)
    (before : (s.thread t).stat ≠ .ready) : Queues (s.rtScheduleInsertThread t) := by
  obtain ⟨valid, mask⟩ := queues.mask t started
  rw [rtScheduleInsertThread, if_neg other]
  have missing : ∀ p, t ∉ s.table p := fun p member => before ((queues.queued p t).mp member).1
  refine { queued := ?_, nodup := ?_, bit := ?_, mask := ?_ }
  · intro p u
    show u ∈ Function.update s.table _ _ p ↔
      ((s.setStat t .ready).thread u).stat = _ ∧ ((s.setStat t .ready).thread u).currentPriority = p
    rw [Function.update_apply]
    by_cases here : u = t
    · subst here
      rw [setStat, set_thread_self]
      by_cases same : p = (s.thread u).currentPriority
      · rw [if_pos same]
        simp [same]
      · rw [if_neg same]
        simp only [missing, true_and, false_iff]
        exact fun eq => same eq.symm
    · rw [setStat, set_thread_of_ne here, ← queues.queued]
      split
      · rename_i same
        rw [same, List.mem_append, List.mem_singleton]
        simp only [here, or_false]
      · rfl
  · intro p
    show (Function.update s.table _ _ p).Nodup
    rw [Function.update_apply]
    split
    · rw [List.nodup_append]
      refine ⟨queues.nodup _, List.nodup_singleton t, ?_⟩
      rintro a member b single rfl
      rw [List.mem_singleton] at single
      exact missing _ (single ▸ member)
    · exact queues.nodup p
  · intro p below
    show (s.group ||| (s.thread t).numberMask).getLsbD p = true ↔ Function.update s.table _ _ p ≠ []
    rw [BitVec.getLsbD_or, Bool.or_eq_true, queues.bit p below, mask, priorityMask_bit below, Function.update_apply]
    split
    · rename_i same
      simp [same]
    · rename_i differs
      simp only [differs, or_false]
  · intro u
    unfold Started
    show ((s.setStat t .ready).thread u).stat ≠ _ ∧ ((s.setStat t .ready).thread u).stat ≠ _ → _
    by_cases here : u = t
    · subst here
      show _ → ((s.setStat u .ready).thread u).currentPriority < 32 ∧
        ((s.setStat u .ready).thread u).numberMask = priorityMask ((s.setStat u .ready).thread u).currentPriority
      rw [setStat, set_thread_self]
      exact fun _ => ⟨valid, mask⟩
    · show _ → ((s.setStat t .ready).thread u).currentPriority < 32 ∧
        ((s.setStat t .ready).thread u).numberMask = priorityMask ((s.setStat t .ready).thread u).currentPriority
      rw [setStat, set_thread_of_ne here]
      exact queues.mask u

/-- A thread that leaves its queue for good, or to run. -/
theorem Queues.remove (queues : Queues s) (started : s.Started t) (after : x.stat ≠ .ready)
    (mask : x.stat ≠ .init → x.stat ≠ .close → x.currentPriority < 32 ∧ x.numberMask = priorityMask x.currentPriority) :
    Queues ((s.rtScheduleRemoveThread t).set t x) := by
  obtain ⟨valid, own⟩ := queues.mask t started
  have elsewhere : ∀ p, p ≠ (s.thread t).currentPriority → (s.table p).erase t = s.table p := by
    intro p differs
    apply List.erase_of_not_mem
    intro member
    exact differs ((queues.queued p t).mp member).2.symm
  refine { queued := ?_, nodup := fun p => (queues.nodup p).erase t, bit := ?_, mask := ?_ }
  · intro p u
    show u ∈ (s.table p).erase t ↔ _
    rw [(queues.nodup p).mem_erase_iff, queues.queued]
    by_cases here : u = t
    · subst here
      rw [set_thread_self]
      simp only [ne_eq, not_true_eq_false, after, false_and]
    · rw [set_thread_of_ne here]
      simp only [ne_eq, here, not_false_eq_true, true_and]
      exact Iff.rfl
  · intro p below
    show BitVec.getLsbD (if (s.table (s.thread t).currentPriority).erase t = [] then
      s.group &&& ~~~ (s.thread t).numberMask else s.group) p = true ↔ (s.table p).erase t ≠ []
    by_cases here : p = (s.thread t).currentPriority
    · rw [← here]
      split
      · rename_i empty
        have inside : (s.thread t).numberMask.getLsbD p = true := by
          rw [own, priorityMask_bit below]
          exact here
        rw [BitVec.getLsbD_and, BitVec.getLsbD_not, inside, Bool.not_true, Bool.and_false, Bool.and_false]
        simp only [Bool.false_eq_true, empty, ne_eq, not_true_eq_false]
      · rename_i filled
        rw [queues.bit p below]
        refine ⟨fun _ => filled, ?_⟩
        intro _ empty
        rw [empty] at filled
        exact filled (List.erase_nil t)
    · rw [elsewhere p here, ← queues.bit p below]
      split
      · have outside : (s.thread t).numberMask.getLsbD p = false := by
          rw [own, ← Bool.not_eq_true, priorityMask_bit below]
          exact here
        rw [BitVec.getLsbD_and, BitVec.getLsbD_not, outside]
        simp only [below, decide_true, Bool.not_false, Bool.and_true]
      · rfl
  · intro u
    unfold Started
    by_cases here : u = t
    · subst here
      rw [set_thread_self]
      exact fun started => mask started.1 started.2
    · rw [set_thread_of_ne here]
      exact queues.mask u

/-! ### The lists of the objects and the current thread -/

/-- The lists of the objects hold suspended threads only, and no thread twice. -/
structure Waits (s : Scheduler) : Prop where
  suspended : ∀ o t, t ∈ s.waiting o → (s.thread t).stat = .suspend
  nodup : ∀ o, (s.waiting o).Nodup
  apart : ∀ o o' t, t ∈ s.waiting o → t ∈ s.waiting o' → o = o'

/-- Only the current thread runs, and it is in no queue. -/
structure Good (s : Scheduler) : Prop where
  queues : Queues s
  waits : Waits s
  running : ∀ t, (s.thread t).stat = .running → s.current = some t
  current : ∀ t, s.current = some t → (s.thread t).stat ≠ .ready ∧ (s.thread t).stat ≠ .init

theorem Waits.congr {v : Scheduler} (waits : Waits s) (waiting : v.waiting = s.waiting)
    (thread : v.thread = s.thread) : Waits v := by
  refine ⟨?_, ?_, ?_⟩
  · rw [waiting, thread]
    exact waits.suspended
  · rw [waiting]
    exact waits.nodup
  · rw [waiting]
    exact waits.apart

theorem Waits.unlink (waits : Waits s) (x : Thread) : Waits ((s.unlink t).set t x) := by
  have kept : ∀ o u, u ∈ (s.waiting o).erase t → u ∈ s.waiting o ∧ u ≠ t := fun o u member =>
    ((waits.nodup o).mem_erase_iff.mp member).symm
  refine ⟨?_, fun o => (waits.nodup o).erase t, ?_⟩
  · intro o u member
    obtain ⟨member, differs⟩ := kept o u member
    rw [set_thread_of_ne differs]
    exact waits.suspended o u member
  · intro o o' u member member'
    exact waits.apart o o' u (kept o u member).1 (kept o' u member').1

theorem Waits.set (waits : Waits s) (still : x.stat = .suspend ∨ ∀ o, t ∉ s.waiting o) : Waits (s.set t x) := by
  refine ⟨?_, waits.nodup, waits.apart⟩
  intro o u member
  by_cases same : u = t
  · subst same
    rw [set_thread_self]
    exact still.resolve_right fun free => free o member
  · rw [set_thread_of_ne same]
    exact waits.suspended o u member

theorem Waits.free (waits : Waits s) (stat : (s.thread t).stat ≠ .suspend) (o : Nat) : t ∉ s.waiting o :=
  fun member => stat (waits.suspended o t member)

theorem Waits.erase (waits : Waits s) (stat : (s.thread t).stat ≠ .suspend) :
    (fun o => (s.waiting o).erase t) = s.waiting :=
  funext fun o => List.erase_of_not_mem (waits.free stat o)

theorem started_of_stat {stat : Stat} (here : (s.thread t).stat = stat) (valid : stat ≠ .init ∧ stat ≠ .close) :
    s.Started t := by
  unfold Started
  rw [here]
  exact valid

theorem Queues.congr {v : Scheduler} (queues : Queues s) (table : v.table = s.table) (group : v.group = s.group)
    (thread : v.thread = s.thread) : Queues v := by
  refine ⟨?_, ?_, ?_, ?_⟩
  · rw [table, thread]
    exact queues.queued
  · rw [table]
    exact queues.nodup
  · rw [table, group]
    exact queues.bit
  · unfold Started
    rw [thread]
    exact queues.mask

/-! ### Changes of one thread -/

/-- What an entry that is in no ready queue has to meet. -/
structure Fits (s : Scheduler) (t : Nat) (x : Thread) : Prop where
  away : x.stat ≠ .ready
  mask : x.stat ≠ .init → x.stat ≠ .close → x.currentPriority < 32 ∧ x.numberMask = priorityMask x.currentPriority
  running : x.stat = .running → s.current = some t
  current : s.current = some t → x.stat ≠ .init

theorem Fits.good {v : Scheduler} (fits : Fits s t x) (good : Good s) (queues : Queues (v.set t x))
    (waits : Waits (v.set t x)) (thread : v.thread = s.thread) (current : v.current = s.current) :
    Good (v.set t x) := by
  refine ⟨queues, waits, ?_, ?_⟩
  · intro u run
    show v.current = some u
    rw [current]
    by_cases same : u = t
    · subst same
      rw [set_thread_self] at run
      exact fits.running run
    · rw [set_thread_of_ne same, thread] at run
      exact good.running u run
  · intro u here
    have here' : s.current = some u := current ▸ here
    by_cases same : u = t
    · subst same
      rw [set_thread_self]
      exact ⟨fits.away, fits.current here'⟩
    · rw [set_thread_of_ne same, thread]
      exact good.current u here'

theorem Good.set (good : Good s) (fits : Fits s t x) (before : (s.thread t).stat ≠ .ready)
    (still : x.stat = .suspend ∨ ∀ o, t ∉ s.waiting o) : Good (s.set t x) :=
  fits.good good (good.queues.set before fits.away fits.mask) (good.waits.set still) rfl rfl

theorem Good.remove (good : Good s) (fits : Fits s t x) (started : s.Started t) :
    Good ((s.rtScheduleRemoveThread t).set t x) :=
  fits.good good (good.queues.remove started fits.away fits.mask) ((good.waits.unlink x).congr rfl rfl) rfl rfl

/-- A suspended thread becomes ready, or goes on running if it was not yet switched away from. -/
structure Woken (s v : Scheduler) (t : Nat) (x : Thread) : Prop where
  self : v.thread t = { x with stat := if s.current = some t then .running else .ready }
  others : ∀ u, u ≠ t → v.thread u = s.thread u
  table : ∀ p, v.table p =
    if s.current ≠ some t ∧ p = x.currentPriority then s.table p ++ [t] else s.table p
  waiting : ∀ o, v.waiting o = (s.waiting o).erase t
  current : v.current = s.current
  lock : v.lockNest = s.lockNest
  switches : v.switches = s.switches

theorem insert_away (away : s.current ≠ some t) : s.rtScheduleInsertThread t =
    { s.setStat t .ready with
      table := Function.update s.table (s.thread t).currentPriority (s.table (s.thread t).currentPriority ++ [t])
      group := s.group ||| (s.thread t).numberMask } := if_neg away

/-- Behind `unlink`, with the entry `x` of a suspended thread. -/
structure Unlinked (s v : Scheduler) (t : Nat) (x : Thread) : Prop where
  asleep : x.stat = .suspend
  queues : Queues v
  waits : Waits v
  self : v.thread t = x
  others : ∀ u, u ≠ t → v.thread u = s.thread u
  table : v.table = s.table
  waiting : ∀ o, v.waiting o = (s.waiting o).erase t
  free : ∀ o, t ∉ v.waiting o
  mask : x.currentPriority < 32 ∧ x.numberMask = priorityMask x.currentPriority
  current : v.current = s.current
  lock : v.lockNest = s.lockNest
  switches : v.switches = s.switches

theorem unlinked_spec (good : Good s) (asleep : (s.thread t).stat = .suspend) (stat : x.stat = .suspend)
    (priority : x.currentPriority = (s.thread t).currentPriority) (mask : x.numberMask = (s.thread t).numberMask) :
    Unlinked s ((s.set t x).unlink t) t x := by
  have own := good.queues.mask t (started_of_stat asleep ⟨Stat.noConfusion, Stat.noConfusion⟩)
  rw [← priority, ← mask] at own
  have before : (s.thread t).stat ≠ .ready := by
    rw [asleep]
    exact Stat.noConfusion
  have away : x.stat ≠ .ready := by
    rw [stat]
    exact Stat.noConfusion
  have table : ((s.set t x).unlink t).table = s.table := good.queues.erase before
  exact
    { asleep := stat
      queues := (good.queues.set before away fun _ _ => own).congr table rfl rfl
      waits := (good.waits.unlink x : Waits ((s.unlink t).set t x)).congr rfl rfl
      self := set_thread_self _ _ _
      others := fun u differs => set_thread_of_ne differs
      table := table
      waiting := fun _ => rfl
      free := fun o member => ((good.waits.nodup o).mem_erase_iff.mp member).1 rfl
      mask := own
      current := rfl
      lock := rfl
      switches := rfl }

/-- A thread that is resumed before it has gone to `rt_schedule` runs on. -/
theorem Unlinked.runs (unlinked : Unlinked s v t x) (good : Good s) (here : s.current = some t) :
    Good (v.rtScheduleInsertThread t) ∧ Woken s (v.rtScheduleInsertThread t) t x := by
  have result : v.rtScheduleInsertThread t = v.set t { x with stat := .running } := by
    have runs : v.rtScheduleInsertThread t = v.setStat t .running := if_pos (unlinked.current.trans here)
    rw [runs, setStat, unlinked.self]
  have entry : ∀ u, u ≠ t → (v.set t { x with stat := .running }).thread u = s.thread u := by
    intro u differs
    rw [set_thread_of_ne differs]
    exact unlinked.others u differs
  have current : (v.set t { x with stat := .running }).current = s.current := unlinked.current
  rw [result]
  refine ⟨⟨?_, unlinked.waits.set (Or.inr unlinked.free), ?_, ?_⟩,
    ⟨?_, entry, ?_, unlinked.waiting, current, unlinked.lock, unlinked.switches⟩⟩
  · refine unlinked.queues.set ?_ Stat.noConfusion fun _ _ => unlinked.mask
    rw [unlinked.self, unlinked.asleep]
    exact Stat.noConfusion
  · intro u run
    rw [current]
    by_cases same : u = t
    · exact same ▸ here
    · rw [entry u same] at run
      exact good.running u run
  · intro u now
    rw [current] at now
    obtain rfl : t = u := Option.some.inj (here.symm.trans now)
    rw [set_thread_self]
    exact ⟨Stat.noConfusion, Stat.noConfusion⟩
  · rw [set_thread_self, if_pos here]
  · intro p
    rw [if_neg fun both => both.1 here]
    exact congrFun unlinked.table p

/-- Any other thread joins the end of the queue of its priority. -/
theorem Unlinked.queued (unlinked : Unlinked s v t x) (good : Good s) (away : s.current ≠ some t) :
    Good (v.rtScheduleInsertThread t) ∧ Woken s (v.rtScheduleInsertThread t) t x := by
  have elsewhere : v.current ≠ some t := by
    rw [unlinked.current]
    exact away
  have asleep : (v.thread t).stat = .suspend := by
    rw [unlinked.self]
    exact unlinked.asleep
  have result := insert_away elsewhere
  have others : ∀ u, u ≠ t → (v.rtScheduleInsertThread t).thread u = s.thread u := by
    intro u differs
    rw [result]
    exact (set_thread_of_ne differs).trans (unlinked.others u differs)
  have current : (v.rtScheduleInsertThread t).current = s.current := by
    rw [result]
    exact unlinked.current
  have ready : (v.rtScheduleInsertThread t).thread t = { x with stat := .ready } := by
    rw [result, ← unlinked.self]
    exact set_thread_self _ _ _
  refine ⟨⟨?_, ?_, ?_, ?_⟩, ⟨?_, others, ?_, ?_, current, ?_, ?_⟩⟩
  · refine unlinked.queues.insert elsewhere (started_of_stat asleep ⟨Stat.noConfusion, Stat.noConfusion⟩) ?_
    rw [asleep]
    exact Stat.noConfusion
  · rw [result]
    exact (unlinked.waits.set (Or.inr unlinked.free) : Waits (v.setStat t .ready)).congr rfl rfl
  · intro u run
    rw [current]
    by_cases same : u = t
    · rw [same, ready] at run
      exact Stat.noConfusion run
    · rw [others u same] at run
      exact good.running u run
  · intro u now
    rw [current] at now
    have differs : u ≠ t := by
      rintro rfl
      exact away now
    rw [others u differs]
    exact good.current u now
  · rw [ready, if_neg away]
  · intro p
    rw [result, unlinked.self]
    show Function.update v.table x.currentPriority (v.table x.currentPriority ++ [t]) p = _
    rw [Function.update_apply, unlinked.table]
    by_cases same : p = x.currentPriority
    · rw [if_pos same, if_pos ⟨away, same⟩, same]
    · rw [if_neg same, if_neg fun both => same both.2]
  · intro o
    rw [result]
    exact unlinked.waiting o
  · rw [result]
    exact unlinked.lock
  · rw [result]
    exact unlinked.switches

theorem wake_spec (good : Good s) (asleep : (s.thread t).stat = .suspend) (stat : x.stat = .suspend)
    (priority : x.currentPriority = (s.thread t).currentPriority) (mask : x.numberMask = (s.thread t).numberMask) :
    Good (((s.set t x).unlink t).rtScheduleInsertThread t) ∧
      Woken s (((s.set t x).unlink t).rtScheduleInsertThread t) t x := by
  have unlinked := unlinked_spec good asleep stat priority mask
  by_cases here : s.current = some t
  · exact unlinked.runs good here
  · exact unlinked.queued good here

/-- A ready thread joins the end of the queue of its new priority. -/
structure Requeued (s v : Scheduler) (t : Nat) (x : Thread) : Prop where
  self : v.thread t = x
  others : ∀ u, u ≠ t → v.thread u = s.thread u
  table : ∀ p, v.table p =
    if p = x.currentPriority then (s.table p).erase t ++ [t] else (s.table p).erase t
  waiting : v.waiting = s.waiting
  current : v.current = s.current
  lock : v.lockNest = s.lockNest
  switches : v.switches = s.switches

theorem requeue_spec (good : Good s) (before : (s.thread t).stat = .ready) (after : x.stat = .ready)
    (valid : x.currentPriority < 32) (mask : x.numberMask = priorityMask x.currentPriority) :
    Good (((s.rtScheduleRemoveThread t).set t x).rtScheduleInsertThread t) ∧
      Requeued s (((s.rtScheduleRemoveThread t).set t x).rtScheduleInsertThread t) t x := by
  have started : s.Started t := started_of_stat before ⟨Stat.noConfusion, Stat.noConfusion⟩
  have away : s.current ≠ some t := fun here => (good.current t here).1 before
  have awake : (s.thread t).stat ≠ .suspend := by
    rw [before]
    exact Stat.noConfusion
  -- between the two calls the entry says that the thread is ready although it is in no queue
  let v := (s.rtScheduleRemoveThread t).set t { x with stat := .suspend }
  let w := (s.rtScheduleRemoveThread t).set t x
  have self : v.thread t = { x with stat := .suspend } := set_thread_self _ _ _
  have self' : w.thread t = x := set_thread_self _ _ _
  have unset : v.setStat t .ready = w.setStat t .ready := by
    have entries : ({ v.thread t with stat := .ready } : Thread) = { w.thread t with stat := .ready } := by
      rw [self, self']
    unfold setStat
    rw [entries]
    unfold v w set
    dsimp only
    rw [Function.update_idem, Function.update_idem]
  have same : w.rtScheduleInsertThread t = v.rtScheduleInsertThread t := by
    have first : w.rtScheduleInsertThread t = _ := insert_away away
    have second : v.rtScheduleInsertThread t = _ := insert_away away
    rw [first, second, unset, self, self']
    rfl
  have fits : s.Fits t { x with stat := .suspend } :=
    ⟨Stat.noConfusion, fun _ _ => ⟨valid, mask⟩, fun run => Stat.noConfusion run, fun _ => Stat.noConfusion⟩
  have middle : Good v := good.remove fits started
  have asleep : (v.thread t).stat = .suspend := by rw [self]
  obtain ⟨good', woken⟩ := wake_spec middle asleep asleep rfl rfl
  have unlinked : (v.set t (v.thread t)).unlink t = v := by
    have lists : (fun p => (v.table p).erase t) = v.table := by
      funext p
      exact List.erase_of_not_mem fun member => ((good.queues.nodup p).mem_erase_iff.mp member).1 rfl
    have waits : (fun o => (v.waiting o).erase t) = v.waiting := by
      funext o
      exact List.erase_of_not_mem fun member => ((good.waits.nodup o).mem_erase_iff.mp member).1 rfl
    unfold unlink set
    rw [Function.update_eq_self]
    dsimp only
    rw [lists, waits]
  rw [unlinked] at good' woken
  rw [same]
  refine ⟨good', ?_, ?_, ?_, ?_, woken.current, woken.lock, woken.switches⟩
  · rw [woken.self, self]
    show { x with stat := if s.current = some t then Stat.running else Stat.ready } = x
    rw [if_neg away, ← after]
  · intro u differs
    rw [woken.others u differs]
    exact set_thread_of_ne differs
  · intro p
    rw [woken.table, self]
    show (if s.current ≠ some t ∧ p = x.currentPriority then (s.table p).erase t ++ [t] else (s.table p).erase t) = _
    simp only [ne_eq, away, not_false_eq_true, true_and]
  · funext o
    rw [woken.waiting]
    show ((s.waiting o).erase t).erase t = s.waiting o
    have free := good.waits.free awake o
    rw [List.erase_of_not_mem free, List.erase_of_not_mem free]

end Scheduler

end BleSpeaker.Kernel
