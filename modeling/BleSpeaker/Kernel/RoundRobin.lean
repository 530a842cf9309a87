import BleSpeaker.Kernel.Interleavings

/-!
# Taking turns

A thread that is ready waits for those before it in the queue of its priority, each for the rest of its time
slice. That sum falls with every tick that a thread of this priority has, and nothing raises it while the
scheduler is not locked: so the thread is chosen after a bounded number of such ticks, whatever else happens.
-/

namespace BleSpeaker.Kernel

namespace Scheduler
variable {s v : Scheduler} {t u c first : Nat} {x : Thread}

/-- The ticks until a time slice ends. `remaining_tick` is counted down first and then compared with 0. -/
def ticksLeft (remainingTick : UInt32) : Nat := (remainingTick - 1).toNat + 1

theorem ticksLeft_pred {tick : UInt32} (more : tick - 1 ≠ 0) : ticksLeft tick = ticksLeft (tick - 1) + 1 := by
  have positive : (tick - 1).toNat ≠ 0 := fun zero => more (UInt32.toNat.inj zero)
  have below := (tick - 1).toNat_lt
  have gap : (tick - 1 - 1).toNat = (4294967296 - 1 + (tick - 1).toNat) % 4294967296 := UInt32.toNat_sub _ _
  unfold ticksLeft
  omega

/-- Those of a queue that come before `t`. -/
def before (t : Nat) (queue : List Nat) : List Nat := queue.takeWhile fun u => decide (u ≠ t)

def slices (s : Scheduler) : List Nat → Nat
  | [] => 0
  | u :: us => ticksLeft (s.thread u).remainingTick + s.slices us

/-- The ticks of the threads that were chosen or are chosen before `t` at its priority. -/
def ahead (s : Scheduler) (t : Nat) : Nat := s.slices (before t (s.table (s.thread t).currentPriority))

/-- The current thread has the priority of `t`. -/
def Level (s : Scheduler) (t : Nat) : Prop :=
  ∃ c ∈ s.current, (s.thread c).currentPriority = (s.thread t).currentPriority

instance (s : Scheduler) (t : Nat) : Decidable (s.Level t) := inferInstanceAs (Decidable (∃ c ∈ s.current, _))

def turn (s : Scheduler) : Nat := s.slices s.current.toList

/-- How many ticks of its level a ready thread can have to wait for. -/
def rank (s : Scheduler) (t : Nat) : Nat := s.ahead t + if s.Level t then s.turn else 0

/-! ### The part of a queue before a thread -/

variable {queue more : List Nat}

theorem before_append (member : t ∈ queue) : before t (queue ++ more) = before t queue := by
  induction queue with
  | nil => exact absurd member List.not_mem_nil
  | cons a rest ih =>
    unfold before at ih ⊢
    rw [List.cons_append, List.takeWhile_cons, List.takeWhile_cons]
    by_cases here : a = t
    · simp [here]
    · rw [ih ((List.mem_cons.mp member).resolve_left (Ne.symm here))]

theorem before_erase (differs : u ≠ t) : before t (queue.erase u) = (before t queue).erase u := by
  induction queue with
  | nil => rfl
  | cons a rest ih =>
    unfold before at ih ⊢
    by_cases here : a = u
    · subst here
      rw [List.erase_cons_head, List.takeWhile_cons_of_pos (by simpa using differs), List.erase_cons_head]
    · rw [List.erase_cons_tail (by simpa using here)]
      by_cases target : a = t
      · rw [List.takeWhile_cons_of_neg (by simp [target]), List.takeWhile_cons_of_neg (by simp [target]),
          List.erase_nil]
      · rw [List.takeWhile_cons_of_pos (by simpa using target), List.takeWhile_cons_of_pos (by simpa using target), ih,
          List.erase_cons_tail (by simpa using here)]

theorem mem_of_mem_before (member : u ∈ before t queue) : u ∈ queue := (List.takeWhile_sublist _).subset member

theorem turn_eq (here : s.current = some c) : s.turn = ticksLeft (s.thread c).remainingTick := by
  unfold turn
  rw [here]
  rfl

theorem slices_congr {us : List Nat} (same : ∀ u ∈ us, (v.thread u).remainingTick = (s.thread u).remainingTick) :
    v.slices us = s.slices us := by
  induction us with
  | nil => rfl
  | cons u us ih =>
    rw [List.forall_mem_cons] at same
    rw [slices, slices, same.1, ih same.2]

theorem slices_erase {us : List Nat} (member : u ∈ us) :
    ticksLeft (s.thread u).remainingTick + s.slices (us.erase u) = s.slices us := by
  induction us with
  | nil => exact absurd member List.not_mem_nil
  | cons w us ih =>
    by_cases here : w = u
    · rw [here, List.erase_cons_head, slices]
    · have rest := ih ((List.mem_cons.mp member).resolve_left (Ne.symm here))
      rw [List.erase_cons_tail (by simpa using here), slices, slices]
      omega

theorem slices_erase_le (s : Scheduler) (us : List Nat) (u : Nat) : s.slices (us.erase u) ≤ s.slices us := by
  by_cases member : u ∈ us
  · have whole := slices_erase (s := s) member
    omega
  · rw [List.erase_of_not_mem member]

/-! ### One call of `rt_schedule` -/

theorem prefix_of_eq {log log' : List (Nat × Nat)} (same : log = log') : log <+: log' := same ▸ List.prefix_refl log

def Chosen (s v : Scheduler) (t : Nat) : Prop :=
  ∃ more, v.switches = s.switches ++ more ∧ t ∈ more.map Prod.snd

/-- From `s` to `v` the thread `t` was chosen, or it is ready as before and has at most `bound` ticks to wait
for. -/
structure Queued (s v : Scheduler) (t bound : Nat) : Prop where
  started : s.current ≠ none → v.current ≠ none
  grows : s.switches <+: v.switches
  waits : Chosen s v t ∨ (v.thread t).stat = .ready ∧
    (v.thread t).currentPriority = (s.thread t).currentPriority ∧ v.rank t ≤ bound

theorem Queued.mono {bound larger : Nat} (queued : Queued s v t bound) (le : bound ≤ larger) : Queued s v t larger :=
  ⟨queued.started, queued.grows,
    queued.waits.imp_right fun ⟨ready, priority, rank⟩ => ⟨ready, priority, Nat.le_trans rank le⟩⟩

theorem rank_le (priority : (v.thread t).currentPriority = (s.thread t).currentPriority)
    (queues : v.ahead t ≤ s.ahead t) (current : v.current = s.current)
    (same : ∀ c ∈ s.current, (v.thread c).currentPriority = (s.thread c).currentPriority ∧
      (v.thread c).remainingTick = (s.thread c).remainingTick) : v.rank t ≤ s.rank t := by
  have level : v.Level t ↔ s.Level t := by
    unfold Level
    rw [priority, current]
    constructor
    · rintro ⟨c, here, eq⟩
      exact ⟨c, here, (same c here).1 ▸ eq⟩
    · rintro ⟨c, here, eq⟩
      exact ⟨c, here, (same c here).1.trans eq⟩
  have turns : v.turn = s.turn := by
    unfold turn
    rw [current]
    apply slices_congr
    intro c here
    exact (same c (Option.mem_toList.mp here)).2
  unfold rank
  simp only [level, turns]
  exact Nat.add_le_add_right queues _

theorem ahead_congr (priority : (v.thread t).currentPriority = (s.thread t).currentPriority)
    (queue : v.table (s.thread t).currentPriority = s.table (s.thread t).currentPriority)
    (same : ∀ u ∈ s.table (s.thread t).currentPriority, (v.thread u).remainingTick = (s.thread u).remainingTick) :
    v.ahead t = s.ahead t := by
  unfold ahead
  rw [priority, queue]
  exact slices_congr fun u member => same u (mem_of_mem_before member)

/-- The thread that runs gives way. -/
theorem switched_queued {p : Nat} {rest : List Nat} (good : Good s) (ready : (s.thread t).stat = .ready)
    (here : s.current = some c) (highest : Highest s p first rest) (switched : Switched s v c first) :
    Queued s v t (s.ahead t) := by
  have grows : s.switches <+: v.switches := ⟨_, switched.switches.symm⟩
  have started : s.current ≠ none → v.current ≠ none := by
    rw [switched.current]
    exact fun _ => Option.some_ne_none first
  by_cases chosen : first = t
  · refine ⟨started, grows, Or.inl ⟨_, switched.switches, ?_⟩⟩
    simp [chosen]
  · have member := (good.queues.queued _ t).mpr ⟨ready, rfl⟩
    have other : t ≠ c := by
      rintro rfl
      exact (good.current t here).1 ready
    have entry := switched.others t other (Ne.symm chosen)
    have least := highest.le good.queues ready
    obtain ⟨firstReady, firstPriority⟩ := highest.ready good.queues
    have fields : ∀ u, (v.thread u).remainingTick = (s.thread u).remainingTick := by
      intro u
      by_cases new : u = first
      · rw [new, switched.new]
      · by_cases old : u = c
        · rw [old, switched.old]
          split
          · rfl
          · rfl
        · rw [switched.others u old new]
    have part : before t (v.table (s.thread t).currentPriority) =
        (before t (s.table (s.thread t).currentPriority)).erase first := by
      rw [switched.table]
      split
      · rw [before_erase chosen, before_append member]
      · rw [before_erase chosen]
    have ahead : v.ahead t = s.slices ((before t (s.table (s.thread t).currentPriority)).erase first) := by
      unfold ahead
      rw [entry, part]
      exact slices_congr fun u _ => fields u
    have turns : v.turn = ticksLeft (s.thread first).remainingTick := by rw [turn_eq switched.current, fields]
    refine ⟨started, grows, Or.inr ⟨by rw [entry]; exact ready, by rw [entry], ?_⟩⟩
    unfold rank
    rw [ahead]
    split
    · rename_i level
      obtain ⟨d, there, eq⟩ := level
      obtain rfl : first = d := Option.some.inj (switched.current.symm.trans there)
      rw [switched.new, entry] at eq
      have level : (s.thread first).currentPriority = (s.thread t).currentPriority := eq
      have inside : first ∈ before t (s.table (s.thread t).currentPriority) := by
        unfold before
        rw [← level, firstPriority, highest.queue, List.takeWhile_cons_of_pos (by simpa using chosen)]
        exact List.mem_cons_self
      rw [turns, Nat.add_comm, slices_erase inside]
      rfl
    · exact slices_erase_le s _ first

theorem schedule_queued (good : Good s) (ready : (s.thread t).stat = .ready) (here : s.current = some c)
    (called : s.rtSchedule = some v) :
    Queued s v t (s.rank t) ∧ (s.lockNest = 0 → ¬ s.Keeps c → Queued s v t (s.ahead t)) := by
  obtain ⟨w, called', -, result⟩ := schedule_spec good here
  obtain rfl : w = v := Option.some.inj (called'.symm.trans called)
  have member := (good.queues.queued _ t).mpr ⟨ready, rfl⟩
  rcases result with ⟨rfl, locked | clear⟩ | ⟨unlocked, p, first, rest, highest, ⟨keeps, kept⟩ | ⟨leaves, switched⟩⟩
  · refine ⟨⟨id, List.prefix_refl _, Or.inr ⟨ready, rfl, Nat.le_refl _⟩⟩, fun unlocked => absurd unlocked locked⟩
  · rw [good.queues.empty clear] at member
    exact absurd member List.not_mem_nil
  · refine ⟨⟨?_, ?_, Or.inr ?_⟩, fun _ leaves => absurd keeps leaves⟩
    · rw [kept.current]
      exact fun _ => Option.some_ne_none c
    · exact prefix_of_eq kept.switches.symm
    · have entry : ∀ u, (w.thread u).stat = (s.thread u).stat ∧
          (w.thread u).currentPriority = (s.thread u).currentPriority ∧
          (w.thread u).remainingTick = (s.thread u).remainingTick := by
        intro u
        rw [kept.thread, setYield]
        by_cases same : u = c
        · rw [same, set_thread_self]
          exact ⟨rfl, rfl, rfl⟩
        · rw [set_thread_of_ne same]
          exact ⟨rfl, rfl, rfl⟩
      refine ⟨(entry t).1.trans ready, (entry t).2.1, ?_⟩
      refine rank_le (entry t).2.1 (Nat.le_of_eq ?_) (kept.current.trans here.symm) fun u _ => (entry u).2
      exact ahead_congr (entry t).2.1 (by rw [kept.table]) fun u _ => (entry u).2.2
  · have queued := switched_queued good ready here highest switched
    exact ⟨queued.mono (Nat.le_add_right _ _), fun _ _ => queued⟩

/-! ### What else changes the queues -/

theorem Queued.still (switches : v.switches = s.switches) (ready : (v.thread t).stat = .ready)
    (priority : (v.thread t).currentPriority = (s.thread t).currentPriority) (queues : v.ahead t ≤ s.ahead t)
    (current : v.current = s.current)
    (same : ∀ c ∈ s.current, (v.thread c).currentPriority = (s.thread c).currentPriority ∧
      (v.thread c).remainingTick = (s.thread c).remainingTick) : Queued s v t (s.rank t) := by
  refine ⟨by rw [current]; exact id, prefix_of_eq switches.symm, Or.inr ⟨ready, priority, ?_⟩⟩
  exact rank_le priority queues current same

theorem Queued.refl (ready : (s.thread t).stat = .ready) : Queued s s t (s.rank t) :=
  .still rfl ready rfl (Nat.le_refl _) rfl fun _ _ => ⟨rfl, rfl⟩

theorem Queued.trans {w : Scheduler} {bound : Nat} (first : Queued s v t bound)
    (next : (v.thread t).stat = .ready → Queued v w t (v.rank t)) (started : v.current ≠ none → w.current ≠ none)
    (grows : v.switches <+: w.switches) : Queued s w t bound := by
  refine ⟨started ∘ first.started, first.grows.trans grows, ?_⟩
  rcases first.waits with ⟨more, log, chosen⟩ | ⟨ready, priority, rank⟩
  · obtain ⟨later, eq⟩ := grows
    refine Or.inl ⟨more ++ later, ?_, ?_⟩
    · rw [← eq, log, List.append_assoc]
    · rw [List.map_append]
      exact List.mem_append_left _ chosen
  · rcases (next ready).waits with ⟨more, log, chosen⟩ | ⟨ready', priority', rank'⟩
    · obtain ⟨earlier, eq⟩ := first.grows
      refine Or.inl ⟨earlier ++ more, ?_, ?_⟩
      · rw [log, ← eq, List.append_assoc]
      · rw [List.map_append]
        exact List.mem_append_right _ chosen
    · exact Or.inr ⟨ready', priority'.trans priority, Nat.le_trans rank' rank⟩

/-- The entry of a thread that is not ready changes, and if it is the current one it keeps its priority and its
time slice. -/
theorem set_queued (good : Good s) (ready : (s.thread t).stat = .ready) (before : (s.thread u).stat ≠ .ready)
    (same : s.current = some u → x.currentPriority = (s.thread u).currentPriority ∧
      x.remainingTick = (s.thread u).remainingTick) : Queued s (s.set u x) t (s.rank t) := by
  have other : t ≠ u := by
    rintro rfl
    exact before ready
  have entry : (s.set u x).thread t = s.thread t := set_thread_of_ne other
  refine .still rfl (by rw [entry]; exact ready) (by rw [entry]) (Nat.le_of_eq ?_) rfl ?_
  · refine ahead_congr (by rw [entry]) rfl ?_
    intro w member
    have waits := ((good.queues.queued _ w).mp member).1
    rw [set_thread_of_ne]
    rintro rfl
    exact before waits
  · intro c here
    by_cases eq : c = u
    · subst eq
      rw [set_thread_self]
      exact same here
    · rw [set_thread_of_ne eq]
      exact ⟨rfl, rfl⟩

theorem woken_queued (good : Good s) (ready : (s.thread t).stat = .ready) (asleep : (s.thread u).stat = .suspend)
    (woken : Woken s v u x) (priority : x.currentPriority = (s.thread u).currentPriority)
    (remaining : x.remainingTick = (s.thread u).remainingTick) : Queued s v t (s.rank t) := by
  have other : t ≠ u := by
    rintro rfl
    exact Stat.noConfusion (ready.symm.trans asleep)
  have entry := woken.others t other
  have member := (good.queues.queued _ t).mpr ⟨ready, rfl⟩
  have fields : ∀ w, (v.thread w).currentPriority = (s.thread w).currentPriority ∧
      (v.thread w).remainingTick = (s.thread w).remainingTick := by
    intro w
    by_cases same : w = u
    · rw [same, woken.self]
      exact ⟨priority, remaining⟩
    · rw [woken.others w same]
      exact ⟨rfl, rfl⟩
  refine .still woken.switches (by rw [entry]; exact ready) (by rw [entry]) (Nat.le_of_eq ?_) woken.current
    fun c _ => fields c
  unfold ahead
  rw [entry, woken.table]
  split
  · rw [before_append member]
    exact slices_congr fun w _ => (fields w).2
  · exact slices_congr fun w _ => (fields w).2

/-- A thread is taken out of its queue. -/
theorem removed_queued (ready : (s.thread t).stat = .ready) (other : t ≠ u)
    (priority : x.currentPriority = (s.thread u).currentPriority)
    (remaining : x.remainingTick = (s.thread u).remainingTick) :
    Queued s ((s.rtScheduleRemoveThread u).set u x) t (s.rank t) := by
  have entry : ((s.rtScheduleRemoveThread u).set u x).thread t = s.thread t := set_thread_of_ne other
  have fields : ∀ w, (((s.rtScheduleRemoveThread u).set u x).thread w).currentPriority = (s.thread w).currentPriority ∧
      (((s.rtScheduleRemoveThread u).set u x).thread w).remainingTick = (s.thread w).remainingTick := by
    intro w
    by_cases same : w = u
    · rw [same, set_thread_self]
      exact ⟨priority, remaining⟩
    · rw [set_thread_of_ne same]
      exact ⟨rfl, rfl⟩
  refine .still rfl (by rw [entry]; exact ready) (by rw [entry]) ?_ rfl fun c _ => fields c
  have part : before t (((s.rtScheduleRemoveThread u).set u x).table (s.thread t).currentPriority) =
      (before t (s.table (s.thread t).currentPriority)).erase u := before_erase (Ne.symm other)
  unfold ahead
  rw [entry, part, slices_congr fun w _ => (fields w).2]
  exact slices_erase_le s _ u

theorem requeued_queued (good : Good s) (ready : (s.thread t).stat = .ready) (other : t ≠ u)
    (requeued : Requeued s v u x) (away : s.current ≠ some u)
    (remaining : x.remainingTick = (s.thread u).remainingTick) : Queued s v t (s.rank t) := by
  have entry := requeued.others t other
  have member := (good.queues.queued _ t).mpr ⟨ready, rfl⟩
  have fields : ∀ w, (v.thread w).remainingTick = (s.thread w).remainingTick := by
    intro w
    by_cases same : w = u
    · rw [same, requeued.self]
      exact remaining
    · rw [requeued.others w same]
  refine .still requeued.switches (by rw [entry]; exact ready) (by rw [entry]) ?_ requeued.current ?_
  · have part : before t (v.table (s.thread t).currentPriority) =
        (before t (s.table (s.thread t).currentPriority)).erase u := by
      rw [requeued.table]
      split
      · rw [before_append ((List.mem_erase_of_ne other).mpr member), before_erase (Ne.symm other)]
      · exact before_erase (Ne.symm other)
    unfold ahead
    rw [entry, part, slices_congr fun w _ => fields w]
    exact slices_erase_le s _ u
  · intro c here
    have differs : c ≠ u := by
      rintro rfl
      exact away here
    rw [requeued.others c differs]
    exact ⟨rfl, rfl⟩

theorem schedule_advances (good : Good s) (started : s.current ≠ none) (called : s.rtSchedule = some v) :
    v.current ≠ none ∧ s.switches <+: v.switches := by
  obtain ⟨c, here⟩ := Option.ne_none_iff_exists'.mp started
  obtain ⟨w, called', -, result⟩ := schedule_spec good here
  obtain rfl : w = v := Option.some.inj (called'.symm.trans called)
  rcases result with ⟨rfl, -⟩ | ⟨-, p, first, rest, -, ⟨-, kept⟩ | ⟨-, switched⟩⟩
  · exact ⟨started, List.prefix_refl _⟩
  · rw [kept.current, kept.switches]
    exact ⟨Option.some_ne_none c, List.prefix_refl _⟩
  · rw [switched.current, switched.switches]
    exact ⟨Option.some_ne_none first, List.prefix_append _ _⟩

theorem highest_le (good : Good s) (ready : (s.thread t).stat = .ready) :
    s.highestReadyPriority ≤ (s.thread t).currentPriority := by
  have member := (good.queues.queued _ t).mpr ⟨ready, rfl⟩
  have filled : s.group ≠ 0 := by
    intro clear
    rw [good.queues.empty clear] at member
    exact absurd member List.not_mem_nil
  obtain ⟨p, first, rest, highest⟩ := good.queues.highest filled
  rw [highest.priority]
  exact highest.le good.queues ready

theorem level_iff (here : s.current = some c) :
    s.Level t ↔ (s.thread c).currentPriority = (s.thread t).currentPriority := by
  unfold Level
  rw [here]
  exact ⟨fun ⟨d, there, eq⟩ => Option.some.inj there ▸ eq, fun eq => ⟨c, rfl, eq⟩⟩

/-- The current thread has another time slice. -/
theorem rank_set (good : Good s) (here : s.current = some c) (ready : (s.thread t).stat = .ready)
    (priority : x.currentPriority = (s.thread c).currentPriority) :
    (s.set c x).thread t = s.thread t ∧ (s.set c x).ahead t = s.ahead t ∧
      (s.set c x).rank t = s.ahead t + if s.Level t then ticksLeft x.remainingTick else 0 := by
  have other : t ≠ c := by
    rintro rfl
    exact (good.current t here).1 ready
  have entry : (s.set c x).thread t = s.thread t := set_thread_of_ne other
  have ahead : (s.set c x).ahead t = s.ahead t := by
    refine ahead_congr (by rw [entry]) rfl ?_
    intro w member
    rw [set_thread_of_ne]
    rintro rfl
    exact (good.current w here).1 ((good.queues.queued _ w).mp member).1
  have here' : (s.set c x).current = some c := here
  have turns : (s.set c x).turn = ticksLeft x.remainingTick := by rw [turn_eq here', set_thread_self]
  refine ⟨entry, ahead, ?_⟩
  unfold rank
  rw [ahead, turns]
  simp only [level_iff here', level_iff here, set_thread_self, entry, priority]

theorem Queued.rebase {w : Scheduler} {bound : Nat} (queued : Queued w v t bound) (switches : w.switches = s.switches)
    (current : w.current = s.current) (entry : w.thread t = s.thread t) : Queued s v t bound := by
  obtain ⟨started, grows, waits⟩ := queued
  unfold Chosen at waits
  rw [current] at started
  rw [switches] at grows waits
  rw [entry] at waits
  exact ⟨started, grows, waits⟩

end Scheduler

namespace Threads
open Lib Scheduler
variable {idle t u : Nat} {k k' : Threads} {x : Thread}

/-! ### A step of the threads -/

/-- What the turn of `t` rests on: nobody takes it out of its queue, the thread that runs keeps its priority, and
no time slice ends or is given up while the scheduler is locked. -/
def Fair (idle t : Nat) (k : Threads) (act : ThreadAct) : Prop :=
  Allowed idle k act ∧
    match act with
    | .tick | .yield => k.scheduler.lockNest = 0
    | .suspend u => u ≠ t
    | .changePriority u _ => u ≠ t ∧ k.scheduler.current ≠ some u
    | _ => True

/-- The current thread has used up its time slice, or given it up. -/
theorem reload_queued {c : Nat} {s : Scheduler} (good : Good idle k) (here : k.scheduler.current = some c)
    (ready : (k.scheduler.thread t).stat = .ready) (unlocked : k.scheduler.lockNest = 0)
    (called : (k.scheduler.set c { k.scheduler.thread c with
      remainingTick := (k.scheduler.thread c).initTick, yielded := true }).rtSchedule = some s) :
    Queued k.scheduler s t (k.scheduler.ahead t) := by
  let x : Thread := { k.scheduler.thread c with remainingTick := (k.scheduler.thread c).initTick, yielded := true }
  have changed : Good idle { k with scheduler := k.scheduler.set c x } := good.setCurrent here rfl rfl rfl
  have priority : x.currentPriority = (k.scheduler.thread c).currentPriority := rfl
  obtain ⟨entry, ahead, rank⟩ := rank_set good.scheduler here ready priority
  have ready' : ((k.scheduler.set c x).thread t).stat = .ready := by
    rw [entry]
    exact ready
  obtain ⟨any, gives⟩ := schedule_queued changed.scheduler ready' here called
  by_cases level : k.scheduler.Level t
  · have leaves : ¬ (k.scheduler.set c x).Keeps c := by
      rintro ⟨-, more | ⟨-, stays⟩⟩
      · have least := highest_le changed.scheduler ready'
        rw [Scheduler.set_thread_self] at more
        rw [entry, ← (level_iff here).mp level] at least
        exact absurd more (Nat.not_lt_of_le least)
      · rw [Scheduler.set_thread_self] at stays
        exact Bool.false_ne_true stays.symm
    exact ((gives unlocked leaves).mono (Nat.le_of_eq ahead)).rebase rfl rfl entry
  · rw [if_neg level] at rank
    exact (any.mono (Nat.le_of_eq rank)).rebase rfl rfl entry

theorem slice_queued {c b : Nat} {s : Scheduler} (good : Good idle k) (here : k.scheduler.current = some c)
    (ready : (k.scheduler.thread t).stat = .ready) (unlocked : k.scheduler.lockNest = 0)
    (sliced : slice k.scheduler c = some s)
    (bound : b + (if k.scheduler.Level t then 1 else 0) = k.scheduler.rank t) : Queued k.scheduler s t b := by
  have whole : k.scheduler.rank t = k.scheduler.ahead t +
      if k.scheduler.Level t then ticksLeft (k.scheduler.thread c).remainingTick else 0 := by
    rw [rank, turn_eq here]
  rw [whole] at bound
  unfold slice at sliced
  dsimp only at sliced
  split at sliced
  · rename_i ended
    refine (reload_queued good here ready unlocked sliced).mono ?_
    have last : ticksLeft (k.scheduler.thread c).remainingTick = 1 := by
      unfold ticksLeft
      rw [ended]
      rfl
    rw [last] at bound
    omega
  · rename_i more
    obtain rfl := Option.some.inj sliced
    let x : Thread := { k.scheduler.thread c with remainingTick := (k.scheduler.thread c).remainingTick - 1 }
    have priority : x.currentPriority = (k.scheduler.thread c).currentPriority := rfl
    obtain ⟨entry, -, rank⟩ := rank_set good.scheduler here ready priority
    refine ⟨id, List.prefix_refl _, Or.inr ⟨by rw [entry]; exact ready, by rw [entry], ?_⟩⟩
    show (k.scheduler.set c x).rank t ≤ b
    rw [rank]
    by_cases level : k.scheduler.Level t
    · have falls := ticksLeft_pred more
      have rest : ticksLeft x.remainingTick = ticksLeft ((k.scheduler.thread c).remainingTick - 1) := rfl
      rw [if_pos level, if_pos level] at bound
      rw [if_pos level]
      omega
    · rw [if_neg level, if_neg level] at bound
      rw [if_neg level]
      omega

theorem Timeout.queued {s m v : Scheduler} (step : Timeout s m v u) (started : s.current ≠ none)
    (ready : (s.thread t).stat = .ready) : Queued s v t (s.rank t) := by
  have woken := woken_queued step.good ready step.asleep step.woken rfl rfl
  obtain ⟨c, here⟩ := Option.ne_none_iff_exists'.mp started
  have here' : m.current = some c := step.woken.current.trans here
  obtain ⟨started', grows⟩ := schedule_advances step.good' (by rw [here']; exact Option.some_ne_none c) step.schedule
  exact woken.trans (fun ready' => (schedule_queued step.good' ready' here' step.schedule).1) (fun _ => started') grows

theorem tick_queued {c b : Nat} (good : Good idle k) (here : k.scheduler.current = some c)
    (ready : (k.scheduler.thread t).stat = .ready) (unlocked : k.scheduler.lockNest = 0)
    (ticked : k.rtTickIncrease = some k') (bound : b + (if k.scheduler.Level t then 1 else 0) = k.scheduler.rank t) :
    Queued k.scheduler k'.scheduler t b := by
  obtain ⟨s, sliced, good', running, -⟩ := slice_spec good here
  have first := slice_queued good here ready unlocked sliced bound
  let P : Timers → Scheduler → Prop := fun _ s => s.current ≠ none ∧ Queued k.scheduler s t b
  have start : P { k.timers with now := k.timers.now + 1 } s := ⟨running, first⟩
  obtain ⟨timers, s', checked, -, -, -, -, holds⟩ := check_spec (P := P) good' running start (by
    rintro timers s m v u ⟨started, queued⟩ - - - step
    have there : m.current ≠ none := step.woken.current ▸ started
    obtain ⟨started', grows⟩ := schedule_advances step.good' there step.schedule
    exact ⟨started', queued.trans (step.queued started) (fun _ => started') (step.woken.switches ▸ grows)⟩)
  have called : k.rtTickIncrease = some { k with scheduler := s', timers := timers } := by
    rw [rtTickIncrease, here, Option.bind_some, sliced, Option.bind_some, checked]
    rfl
  rw [← Option.some.inj (called.symm.trans ticked)]
  exact holds

theorem park_queued (ready : (k.scheduler.thread t).stat = .ready) (other : t ≠ u) (called : k.park u = some k') :
    Queued k.scheduler k'.scheduler t (k.scheduler.rank t) := by
  obtain ⟨timers, -, rfl⟩ := Option.map_eq_some_iff.mp called
  exact removed_queued ready other rfl rfl

theorem suspend_queued (ready : (k.scheduler.thread t).stat = .ready) (other : t ≠ u)
    (called : k.rtThreadSuspend u = some k') : Queued k.scheduler k'.scheduler t (k.scheduler.rank t) := by
  unfold rtThreadSuspend at called
  dsimp only at called
  split at called
  · cases called
  · split at called
    · rw [← Option.some.inj called]
      exact .refl ready
    · split at called
      · cases called
      · exact park_queued ready other called

theorem resume_queued (good : Good idle k) (ready : (k.scheduler.thread t).stat = .ready)
    (asleep : (k.scheduler.thread u).stat = .suspend) (called : k.rtThreadResume u = some k') :
    Queued k.scheduler k'.scheduler t (k.scheduler.rank t) := by
  obtain ⟨l, called', -, -, woken⟩ := resume_spec good asleep
  obtain rfl : l = k' := Option.some.inj (called'.symm.trans called)
  exact woken_queued good.scheduler ready asleep woken rfl rfl

/-- A suspended thread is in no queue. -/
theorem unlink_queued (good : Good idle k) (ready : (k.scheduler.thread t).stat = .ready)
    (asleep : (k.scheduler.thread u).stat = .suspend) (called : k.unlink u = some k') :
    Queued k.scheduler k'.scheduler t (k.scheduler.rank t) := by
  obtain ⟨timers, -, rfl⟩ := Option.map_eq_some_iff.mp called
  have tables : (k.scheduler.unlink u).table = k.scheduler.table :=
    good.scheduler.queues.erase (by rw [asleep]; exact Stat.noConfusion)
  have same : (k.scheduler.unlink u).ahead t = k.scheduler.ahead t :=
    ahead_congr rfl (congrFun tables _) fun _ _ => rfl
  exact .still rfl ready rfl (Nat.le_of_eq same) rfl fun _ _ => ⟨rfl, rfl⟩

theorem startTimer_scheduler {tick : UInt32} (called : k.startTimer u tick = some k') : k'.scheduler = k.scheduler := by
  obtain ⟨timers, -, rfl⟩ := Option.map_eq_some_iff.mp called
  rfl

theorem startup_queued (good : Good idle k) (ready : (k.scheduler.thread t).stat = .ready)
    (called : k.rtThreadStartup u = some k') : Queued k.scheduler k'.scheduler t (k.scheduler.rank t) := by
  unfold rtThreadStartup at called
  dsimp only at called
  split at called
  · rename_i init
    obtain rfl := Option.some.inj called
    refine set_queued good.scheduler ready ?_ fun here => absurd init (good.scheduler.current u here).2
    rw [init]
    exact Stat.noConfusion
  · cases called

theorem wait_queued {o : Nat} {flag : IpcFlag} {time : Option UInt32} (good : Good idle k)
    (ready : (k.scheduler.thread t).stat = .ready) (called : k.wait o flag time = some k') :
    Queued k.scheduler k'.scheduler t (k.scheduler.rank t) := by
  obtain ⟨c, here, called⟩ := Option.bind_eq_some_iff.mp called
  let k₀ : Threads := { k with scheduler := k.scheduler.set c { k.scheduler.thread c with error := 0 } }
  have quiet := (good.scheduler.current c here).1
  have other : t ≠ c := by
    rintro rfl
    exact quiet ready
  have set : Queued k.scheduler k₀.scheduler t (k.scheduler.rank t) :=
    set_queued good.scheduler ready quiet fun _ => ⟨rfl, rfl⟩
  have ready₀ : (k₀.scheduler.thread t).stat = .ready := by
    show ((k.scheduler.set c _).thread t).stat = .ready
    rw [Scheduler.set_thread_of_ne other]
    exact ready
  obtain ⟨k₁, listed, called⟩ := Option.bind_eq_some_iff.mp called
  obtain ⟨k₂, suspended, rfl⟩ := Option.map_eq_some_iff.mp listed
  have parked : Queued k₀.scheduler k₂.scheduler t (k₀.scheduler.rank t) := suspend_queued ready₀ other suspended
  obtain ⟨-, -, same⟩ := link_spec k₂.scheduler o c flag
  have linked : (k₂.scheduler.thread t).stat = .ready →
      Queued k₂.scheduler (link k₂.scheduler o c flag) t (k₂.scheduler.rank t) := by
    rw [same]
    exact fun ready₂ =>
      .still rfl ready₂ rfl (Nat.le_of_eq (ahead_congr rfl rfl fun _ _ => rfl)) rfl fun _ _ => ⟨rfl, rfl⟩
  have result : Queued k.scheduler (link k₂.scheduler o c flag) t (k.scheduler.rank t) := by
    refine (set.trans (fun _ => parked) parked.started parked.grows).trans linked ?_ ?_
    · rw [same]
      exact id
    · exact prefix_of_eq (by rw [same])
  cases time with
  | none =>
    rw [← Option.some.inj called]
    exact result
  | some tick =>
    rw [startTimer_scheduler called]
    exact result

theorem change_queued {priority : Nat} (good : Good idle k) (valid : priority < 32)
    (ready : (k.scheduler.thread t).stat = .ready) (other : t ≠ u) (away : k.scheduler.current ≠ some u)
    (called : k.changePriority u priority = some k') : Queued k.scheduler k'.scheduler t (k.scheduler.rank t) := by
  let x : Thread :=
    { k.scheduler.thread u with currentPriority := priority, numberMask := priorityMask priority }
  unfold changePriority at called
  dsimp only at called
  split at called
  · cases called
  · split at called
    · rename_i waits
      obtain rfl := Option.some.inj called
      obtain ⟨-, requeued⟩ := Scheduler.requeue_spec (x := x) good.scheduler waits waits valid rfl
      exact requeued_queued good.scheduler ready other requeued away rfl
    · rename_i waits
      obtain rfl := Option.some.inj called
      exact set_queued (x := x) good.scheduler ready waits fun here => absurd here away

theorem exit_queued (good : Good idle k) (runs : k.Runs u) (ready : (k.scheduler.thread t).stat = .ready)
    (called : k.rtThreadExit = some k') : Queued k.scheduler k'.scheduler t (k.scheduler.rank t) := by
  obtain ⟨c, here, called⟩ := Option.bind_eq_some_iff.mp called
  obtain rfl : u = c := Option.some.inj (runs.1.symm.trans here)
  obtain ⟨timers, -, called⟩ := Option.bind_eq_some_iff.mp called
  obtain ⟨s, scheduled, rfl⟩ := Option.map_eq_some_iff.mp called
  let x : Thread := { k.scheduler.thread u with stat := .close, yielded := false }
  have started : k.scheduler.Started u := Scheduler.started_of_stat runs.2 ⟨Stat.noConfusion, Stat.noConfusion⟩
  have fits : k.scheduler.Fits u x :=
    ⟨Stat.noConfusion, fun _ close => absurd rfl close, fun run => Stat.noConfusion run, fun _ => Stat.noConfusion⟩
  have other : t ≠ u := by
    rintro rfl
    exact (good.scheduler.current t here).1 ready
  have good' := good.scheduler.remove fits started
  have removed : Queued k.scheduler ((k.scheduler.rtScheduleRemoveThread u).set u x) t (k.scheduler.rank t) :=
    removed_queued ready other rfl rfl
  have here' : ((k.scheduler.rtScheduleRemoveThread u).set u x).current = some u := here
  obtain ⟨started', grows⟩ := schedule_advances good' (by rw [here']; exact Option.some_ne_none u) scheduled
  exact removed.trans (fun ready' => (schedule_queued good' ready' here' scheduled).1) (fun _ => started') grows

/-- Every step leaves `t` in its place or brings it forward, and every tick of its level brings it forward. -/
theorem next_queued {act : ThreadAct} {b : Nat} (good : Good idle k) (started : k.scheduler.current ≠ none)
    (ready : (k.scheduler.thread t).stat = .ready) (fair : Fair idle t k act) (moved : k.next act = some k')
    (bound : b + (if isTick act = true ∧ k.scheduler.Level t then 1 else 0) = k.scheduler.rank t) :
    Queued k.scheduler k'.scheduler t b := by
  obtain ⟨c, here⟩ := Option.ne_none_iff_exists'.mp started
  have quiet := (good.scheduler.current c here).1
  have other : t ≠ c := by
    rintro rfl
    exact quiet ready
  obtain ⟨allowed, fair⟩ := fair
  cases act with
  | tick =>
    refine tick_queued good here ready fair moved ?_
    simpa [isTick] using bound
  | init u priority tick =>
    obtain rfl : b = k.scheduler.rank t := by simpa [isTick] using bound
    obtain ⟨valid, closed, away⟩ := allowed
    have called : k.rtThreadInit u priority tick = _ := if_pos ⟨closed, valid⟩
    obtain ⟨timers, -, rfl⟩ := Option.map_eq_some_iff.mp (called.symm.trans moved)
    refine set_queued good.scheduler ready ?_ fun here => absurd here away
    rw [closed]
    exact Stat.noConfusion
  | startup u =>
    obtain rfl : b = k.scheduler.rank t := by simpa [isTick] using bound
    exact startup_queued good ready moved
  | start => exact absurd allowed.1 started
  | schedule =>
    obtain rfl : b = k.scheduler.rank t := by simpa [isTick] using bound
    obtain ⟨s, called, rfl⟩ := Option.map_eq_some_iff.mp moved
    exact (schedule_queued good.scheduler ready here called).1
  | yield =>
    obtain rfl : b = k.scheduler.rank t := by simpa [isTick] using bound
    obtain ⟨d, there, called⟩ := Option.bind_eq_some_iff.mp moved
    obtain rfl : d = c := Option.some.inj (there.symm.trans here)
    obtain ⟨s, scheduled, rfl⟩ := Option.map_eq_some_iff.mp called
    exact (reload_queued good here ready fair scheduled).mono (Nat.le_add_right _ _)
  | sleep tick =>
    obtain rfl : b = k.scheduler.rank t := by simpa [isTick] using bound
    obtain ⟨d, there, called⟩ := Option.bind_eq_some_iff.mp moved
    obtain rfl : d = c := Option.some.inj (there.symm.trans here)
    obtain ⟨l, suspended, timed⟩ := Option.bind_eq_some_iff.mp called
    rw [startTimer_scheduler timed]
    exact suspend_queued ready other suspended
  | wait o flag time =>
    obtain rfl : b = k.scheduler.rank t := by simpa [isTick] using bound
    exact wait_queued good ready moved
  | wake o =>
    obtain rfl : b = k.scheduler.rank t := by simpa [isTick] using bound
    obtain ⟨u, first, called⟩ := Option.bind_eq_some_iff.mp moved
    exact resume_queued good ready (good.scheduler.waits.suspended o u (List.mem_of_mem_head? first)) called
  | suspend u =>
    obtain rfl : b = k.scheduler.rank t := by simpa [isTick] using bound
    exact park_queued ready (Ne.symm fair) moved
  | unlink u =>
    obtain rfl : b = k.scheduler.rank t := by simpa [isTick] using bound
    exact unlink_queued good ready allowed.1 moved
  | insert u =>
    obtain rfl : b = k.scheduler.rank t := by simpa [isTick] using bound
    obtain rfl := Option.some.inj moved
    have adrift := good.resuming u allowed
    exact woken_queued good.scheduler ready adrift.asleep (insert_spec good adrift).2 rfl rfl
  | changePriority u priority =>
    obtain rfl : b = k.scheduler.rank t := by simpa [isTick] using bound
    exact change_queued good allowed.1 ready (Ne.symm fair.1) fair.2 moved
  | exit =>
    obtain rfl : b = k.scheduler.rank t := by simpa [isTick] using bound
    obtain ⟨u, runs, -⟩ := allowed
    exact exit_queued good runs ready moved
  | enterCritical =>
    obtain rfl : b = k.scheduler.rank t := by simpa [isTick] using bound
    obtain rfl := Option.some.inj moved
    exact .still rfl ready rfl (Nat.le_of_eq (ahead_congr rfl rfl fun _ _ => rfl)) rfl fun _ _ => ⟨rfl, rfl⟩
  | exitCritical =>
    obtain rfl : b = k.scheduler.rank t := by simpa [isTick] using bound
    obtain rfl := Option.some.inj moved
    exact .still rfl ready rfl (Nat.le_of_eq (ahead_congr rfl rfl fun _ _ => rfl)) rfl fun _ _ => ⟨rfl, rfl⟩

/-! ### A whole run -/

/-- The ticks of a run that went to threads of the priority of `t`. -/
def ticksOfLevel (t : Nat) : List ThreadAct → Threads → Nat
  | [], _ => 0
  | act :: rest, k =>
    (if isTick act = true ∧ k.scheduler.Level t then 1 else 0) + ((k.next act).map (ticksOfLevel t rest)).getD 0

theorem level_le_rank (k : Threads) (t : Nat) : (if k.scheduler.Level t then 1 else 0) ≤ k.scheduler.rank t := by
  by_cases level : k.scheduler.Level t
  · rw [if_pos level, rank, if_pos level]
    obtain ⟨c, here, -⟩ := level
    rw [turn_eq (Option.mem_def.mp here), ticksLeft]
    omega
  · rw [if_neg level]
    exact Nat.zero_le _

/-- A ready thread is chosen before more ticks have gone to threads of its priority than its rank says. -/
theorem chosen_in_turn {acts : List ThreadAct} (reached : system.Guarded (Allowed idle) k)
    (started : k.scheduler.current ≠ none) (ready : (k.scheduler.thread t).stat = .ready)
    (meets : system.Meets (Fair idle t) acts k) (ran : system.run acts k = some k')
    (long : k.scheduler.rank t < ticksOfLevel t acts k) :
    ∃ done rest l, acts = done ++ rest ∧ system.run done k = some l ∧ Chosen k.scheduler l.scheduler t := by
  induction acts generalizing k with
  | nil => exact absurd long (Nat.not_lt_zero _)
  | cons act rest ih =>
    have good := Good.reached reached
    obtain ⟨l, moved, ran⟩ := Option.bind_eq_some_iff.mp ran
    have fair := meets.1
    have less : (if isTick act = true ∧ k.scheduler.Level t then 1 else 0) ≤ k.scheduler.rank t := by
      refine Nat.le_trans ?_ (level_le_rank k t)
      split
      · rename_i both
        rw [if_pos both.2]
      · exact Nat.zero_le _
    obtain ⟨b, bound⟩ := Nat.exists_eq_add_of_le' less
    have queued := next_queued good started ready fair moved bound.symm
    have first : system.run [act] k = some l := by
      rw [System.run, moved]
      rfl
    rcases queued.waits with chosen | ⟨ready', priority, rank⟩
    · exact ⟨[act], rest, l, rfl, first, chosen⟩
    · have later : l.scheduler.rank t < ticksOfLevel t rest l := by
        have moved' : k.next act = some l := moved
        rw [ticksOfLevel, moved'] at long
        simp only [Option.map_some, Option.getD_some] at long
        omega
      obtain ⟨done, more, m, split, ran', chosen⟩ :=
        ih (.step act reached fair.1 moved) (queued.started started) ready' (meets.2 l moved) ran later
      refine ⟨act :: done, more, m, by rw [split]; rfl, ?_, ?_⟩
      · rw [System.run, moved]
        exact ran'
      · obtain ⟨log, eq⟩ := queued.grows
        obtain ⟨more', log', chosen'⟩ := chosen
        refine ⟨log ++ more', ?_, ?_⟩
        · rw [log', ← eq, List.append_assoc]
        · rw [List.map_append]
          exact List.mem_append_right _ chosen'

instance decidableFair (k : Threads) (act : ThreadAct) : Decidable (Fair idle t k act) := by
  unfold Fair
  cases act <;> infer_instance

/-- Two threads of one priority, with slices of two ticks. -/
theorem chosen_in_turn_two : ∃ k l : Threads, k.scheduler.current = some 1 ∧ Chosen k.scheduler l.scheduler 2 := by
  let acts : List ThreadAct :=
    [.init 0 31 32, .startup 0, .unlink 0, .insert 0, .init 1 10 2, .startup 1, .unlink 1, .insert 1,
      .init 2 10 2, .startup 2, .unlink 2, .insert 2, .start]
  let ticks : List ThreadAct := [.tick, .tick, .tick]
  have meets : system.Meets (Allowed 0) acts system.start := by decide +kernel
  have booted : ((system.run acts system.start).bind fun k => k.scheduler.current) = some 1 := by decide +kernel
  obtain ⟨k, ran, here⟩ := Option.bind_eq_some_iff.mp booted
  have ready : ∀ k ∈ system.run acts system.start, (k.scheduler.thread 2).stat = .ready := by decide +kernel
  have fair : ∀ k ∈ system.run acts system.start, system.Meets (Fair 0 2) ticks k := by decide +kernel
  have long : ∀ k ∈ system.run acts system.start, k.scheduler.rank 2 < ticksOfLevel 2 ticks k := by decide +kernel
  have goes : ∀ k ∈ system.run acts system.start, (system.run ticks k).isSome = true := by decide +kernel
  obtain ⟨k', ran'⟩ := Option.isSome_iff_exists.mp (goes k ran)
  have started : k.scheduler.current ≠ none := by
    rw [here]
    exact Option.some_ne_none 1
  obtain ⟨-, -, l, -, -, chosen⟩ :=
    chosen_in_turn (System.guarded_of_run .start meets ran) started (ready k ran) (fair k ran) ran' (long k ran)
  exact ⟨k, l, here, chosen⟩

end Threads

end BleSpeaker.Kernel
