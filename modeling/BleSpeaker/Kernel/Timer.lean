import BleSpeaker.Lib.Transition
import Mathlib.Data.List.Sort
import Mathlib.Data.List.Perm.Basic

/-!
# Timers

The hard timers of `timer.c`: one list in the order of the timeouts (`RT_TIMER_SKIP_LIST_LEVEL` is 1),
`rt_timer_init`, `rt_timer_start`, `rt_timer_stop`, `rt_timer_detach` and the writing commands of
`rt_timer_control`, and `rt_timer_check`, which the clock interrupt calls on every tick. A timeout function may
call any of these; it is the list of its calls. `none` is an assert that fails.

A call is one step. The lists change with interrupts disabled only, and where `rt_timer_stop` reads the flag
before, it goes on to remove a timer that may have timed out meanwhile, which changes nothing. What
`rt_timer_init` does, and the `rt_object_detach` at the end of `rt_timer_detach`, is done to a timer that nobody
else uses.

Ticks are 32 bits and wrap around. `now` counts them without a bound, and the code only ever sees it modulo
`2 ^ 32`. With it come `due` and `serial`, which say for each start when it should time out and the how
many-th start it is, and the records of what became of the starts: the code reads none of them.
-/

namespace BleSpeaker.Kernel
open Lib

structure Timer where
  /-- The type of the object is `RT_Object_Class_Timer`: `rt_object_init` sets it, `rt_object_detach` resets it. -/
  object : Bool
  initTick : UInt32
  timeoutTick : UInt32
  periodic : Bool
  activated : Bool
  due : Nat
  serial : Nat

structure Firing where
  timer : Nat
  due : Nat
  serial : Nat
  time : Nat

structure Timers where
  now : Nat
  list : List Nat
  /-- What is in the temporary list of `rt_timer_check`. -/
  firing : Option Nat
  timer : Nat → Timer
  starts : Nat
  fired : List Firing
  cancelled : List Nat

inductive TimerCmd where
  | init (i : Nat) (tick : UInt32) (periodic : Bool)
  | start (i : Nat)
  | stop (i : Nat)
  | detach (i : Nat)
  | setTime (i : Nat) (tick : UInt32)
  | setOneshot (i : Nat)
  | setPeriodic (i : Nat)

/-- `RT_TICK_MAX / 2` -/
def halfTickMax : UInt32 := 2147483647

namespace Timers

def rtTickGet (s : Timers) : UInt32 := UInt32.ofNat s.now

def set (s : Timers) (i : Nat) (t : Timer) : Timers := { s with timer := Function.update s.timer i t }

/-- `_rt_timer_remove`: from whichever list the timer is in. -/
def remove (s : Timers) (i : Nat) : Timers :=
  { s with
    list := s.list.erase i
    firing := if s.firing = some i then none else s.firing
    cancelled := if i ∈ s.list then (s.timer i).serial :: s.cancelled else s.cancelled }

/-- A timer that times out at `tick` goes before one that times out at `other`. -/
def Before (tick other : UInt32) : Prop := other - tick ≠ 0 ∧ other - tick < halfTickMax

instance (tick other : UInt32) : Decidable (Before tick other) := inferInstanceAs (Decidable (_ ∧ _))

/-- The timer `i` with its new timeout. -/
def armed (s : Timers) (i : Nat) : Timer :=
  { s.timer i with
    timeoutTick := s.rtTickGet + (s.timer i).initTick
    activated := true
    due := s.now + (s.timer i).initTick.toNat
    serial := s.starts }

def insert (s : Timers) (i : Nat) : Timers :=
  { s with
    list := s.list.orderedInsert (fun i j => Before (s.timer i).timeoutTick (s.timer j).timeoutTick) i }

/-- `rt_object_init` asserts that the timer is no object yet. -/
def rtTimerInit (s : Timers) (i : Nat) (tick : UInt32) (periodic : Bool) : Option Timers :=
  if (s.timer i).object = true then none
  else
    some (s.set i
      { s.timer i with object := true, initTick := tick, timeoutTick := 0, periodic := periodic, activated := false })

def rtTimerStart (s : Timers) (i : Nat) : Option Timers :=
  let t := s.remove i
  if (s.timer i).object = true ∧ (t.timer i).initTick < halfTickMax then
    some { (t.set i (t.armed i)).insert i with starts := t.starts + 1 }
  else none

def deactivate (s : Timers) (i : Nat) : Timers := s.set i { s.timer i with activated := false }

def rtTimerStop (s : Timers) (i : Nat) : Option Timers :=
  if (s.timer i).object = false then none
  else if (s.timer i).activated = false then some s
  else some ((s.remove i).deactivate i)

/-- `rt_object_detach` -/
def forget (s : Timers) (i : Nat) : Timers := s.set i { s.timer i with object := false }

def rtTimerDetach (s : Timers) (i : Nat) : Option Timers :=
  if (s.timer i).object = false then none else some (((s.remove i).deactivate i).forget i)

def rtTimerControl (s : Timers) (i : Nat) (x : Timer) : Option Timers :=
  if (s.timer i).object = false then none else some (s.set i x)

def run (s : Timers) : TimerCmd → Option Timers
  | .init i tick periodic => s.rtTimerInit i tick periodic
  | .start i => s.rtTimerStart i
  | .stop i => s.rtTimerStop i
  | .detach i => s.rtTimerDetach i
  | .setTime i tick => s.rtTimerControl i { s.timer i with initTick := tick }
  | .setOneshot i => s.rtTimerControl i { s.timer i with periodic := false }
  | .setPeriodic i => s.rtTimerControl i { s.timer i with periodic := true }

def runAll (s : Timers) : List TimerCmd → Option Timers
  | [] => some s
  | c :: cs => (s.run c).bind fun s => s.runAll cs

/-- The timer whose timeout function is called next. -/
def take (s : Timers) (i : Nat) : Timers :=
  { s.set i { s.timer i with activated := (s.timer i).periodic && (s.timer i).activated } with
    list := s.list.erase i
    firing := some i
    fired := s.fired ++ [⟨i, (s.timer i).due, (s.timer i).serial, s.now⟩] }

/-- After the timeout function: nothing is left to do if it has detached its timer or started it again. -/
def restart (s : Timers) (i : Nat) : Option Timers :=
  if s.firing = none then some s
  else
    let s := s.remove i
    if (s.timer i).periodic = true ∧ (s.timer i).activated = true then (s.deactivate i).rtTimerStart i else some s

/-- `timeoutFunc i` is what the timeout function of the timer `i` does, to the timers and to all else that it
writes. -/
def rtTimerCheck {ω : Type} (timeoutFunc : Nat → Timers × ω → Option (Timers × ω)) :
    Nat → Timers × ω → Option (Timers × ω)
  | 0, s => some s
  | turns + 1, (s, w) =>
    match s.list with
    | [] => some (s, w)
    | i :: _ =>
      if s.rtTickGet - (s.timer i).timeoutTick < halfTickMax then
        ((timeoutFunc i (s.take i, w)).bind fun (s, w) => (s.restart i).map fun s => (s, w)).bind
          (rtTimerCheck timeoutFunc turns)
      else some (s, w)

/-- The clock interrupt, as far as it is about timers. Every turn of the check takes a timer that is due. -/
def check {ω : Type} (timeoutFunc : Nat → Timers × ω → Option (Timers × ω)) (s : Timers) (w : ω) :
    Option (Timers × ω) :=
  rtTimerCheck timeoutFunc (s.list.length + 1) ({ s with now := s.now + 1 }, w)

/-- The clock interrupt when all that the timeout functions do is to call timer functions. -/
def tick (s : Timers) (callback : Nat → List TimerCmd) : Option Timers :=
  (check (fun i (s, w) => (s.runAll (callback i)).map fun s => (s, w)) s ()).map Prod.fst

/-! ### What holds between two calls -/

/-- What a caller may set: `rt_timer_start` asserts the upper bound, and a period of no ticks would keep
`rt_timer_check` in its loop. -/
def InRange (tick : UInt32) : Prop := 0 < tick.toNat ∧ tick < halfTickMax

def Earlier (t u : Timer) : Prop := t.due < u.due ∨ (t.due = u.due ∧ t.serial < u.serial)

structure Good (s : Timers) : Prop where
  sorted : s.list.Pairwise fun i j => Earlier (s.timer i) (s.timer j)
  timeout_eq : ∀ i ∈ s.list, (s.timer i).timeoutTick = UInt32.ofNat (s.timer i).due
  near : ∀ i ∈ s.list, s.now ≤ (s.timer i).due ∧ (s.timer i).due < s.now + 2147483647
  active : ∀ i ∈ s.list, (s.timer i).activated = true
  range : ∀ i, i ∈ s.list ∨ s.firing = some i → (s.timer i).object = true ∧ InRange (s.timer i).initTick
  apart : ∀ i ∈ s.list, s.firing ≠ some i
  on_time : ∀ e ∈ s.fired, e.time = e.due ∧ e.time ≤ s.now
  in_order : s.fired.Pairwise fun e f => e.time < f.time ∨ (e.time = f.time ∧ e.serial < f.serial)
  fired_before : ∀ e ∈ s.fired, ∀ i ∈ s.list, e.time = (s.timer i).due → e.serial < (s.timer i).serial
  accounted : ((s.list.map fun i => (s.timer i).serial) ++ s.fired.map Firing.serial ++ s.cancelled).Perm
    (List.range s.starts)

variable {s t : Timers} {i j : Nat}

theorem not_earlier_self (t : Timer) : ¬ Earlier t t := by
  unfold Earlier
  omega

theorem Good.nodup (good : Good s) : s.list.Nodup := by
  refine good.sorted.imp ?_
  rintro i j earlier rfl
  exact not_earlier_self _ earlier

theorem Good.not_mem_erase (good : Good s) : i ∉ s.list.erase i := fun member =>
  ((good.nodup.mem_erase_iff).mp member).1 rfl

theorem Good.serial_lt (good : Good s) (member : i ∈ s.list) : (s.timer i).serial < s.starts := by
  rw [← List.mem_range, ← good.accounted.mem_iff]
  simp only [List.mem_append, List.mem_map]
  exact Or.inl (Or.inl ⟨i, member, rfl⟩)

theorem Good.fired_lt {e : Firing} (good : Good s) (member : e ∈ s.fired) : e.serial < s.starts := by
  rw [← List.mem_range, ← good.accounted.mem_iff]
  simp only [List.mem_append, List.mem_map]
  exact Or.inl (Or.inr ⟨e, member, rfl⟩)

theorem set_timer_self (s : Timers) (i : Nat) (x : Timer) : (s.set i x).timer i = x := by
  show Function.update s.timer i x i = x
  rw [Function.update_self]

theorem set_timer_of_ne {x : Timer} (differs : j ≠ i) : (s.set i x).timer j = s.timer j := by
  show Function.update s.timer i x j = s.timer j
  rw [Function.update_of_ne differs]

theorem set_listed {x : Timer} (missing : i ∉ s.list) (listed : j ∈ s.list) : (s.set i x).timer j = s.timer j := by
  apply set_timer_of_ne
  rintro rfl
  exact missing listed

/-! ### Calls that only take out -/

theorem remove_good (good : Good s) (i : Nat) : Good (s.remove i) := by
  have kept : ∀ j, j ∈ s.list.erase i → j ∈ s.list := fun j => List.mem_of_mem_erase
  have clear : ∀ j, (s.remove i).firing = some j → s.firing = some j := by
    intro j here
    change (if s.firing = some i then none else s.firing) = some j at here
    split at here
    · cases here
    · exact here
  refine
    { sorted := good.sorted.sublist List.erase_sublist
      timeout_eq := fun j member => good.timeout_eq j (kept j member)
      near := fun j member => good.near j (kept j member)
      active := fun j member => good.active j (kept j member)
      range := fun j here => good.range j (here.imp (kept j) (clear j))
      apart := fun j member here => good.apart j (kept j member) (clear j here)
      on_time := good.on_time
      in_order := good.in_order
      fired_before := fun e logged j member => good.fired_before e logged j (kept j member)
      accounted := ?_ }
  show (((s.list.erase i).map fun j => (s.timer j).serial) ++ s.fired.map Firing.serial ++
    if i ∈ s.list then (s.timer i).serial :: s.cancelled else s.cancelled).Perm _
  split
  · rename_i member
    refine List.perm_middle.trans (List.Perm.trans ?_ good.accounted)
    have split := (List.perm_cons_erase member).map fun j => (s.timer j).serial
    exact ((split.symm.append_right _).append_right _)
  · rename_i missing
    rw [List.erase_of_not_mem missing]
    exact good.accounted

theorem stop_mem (stopped : s.rtTimerStop i = some t) (differs : j ≠ i) : j ∈ t.list ↔ j ∈ s.list := by
  unfold rtTimerStop at stopped
  split at stopped
  · cases stopped
  · split at stopped
    · rw [← Option.some.inj stopped]
    · rw [← Option.some.inj stopped]
      exact List.mem_erase_of_ne differs

theorem set_good {x : Timer} (good : Good s) (timeout : x.timeoutTick = (s.timer i).timeoutTick)
    (due : x.due = (s.timer i).due) (serial : x.serial = (s.timer i).serial)
    (active : i ∈ s.list → x.activated = true)
    (range : i ∈ s.list ∨ s.firing = some i → x.object = true ∧ InRange x.initTick) : Good (s.set i x) := by
  have same : ∀ j, ((s.set i x).timer j).timeoutTick = (s.timer j).timeoutTick ∧
      ((s.set i x).timer j).due = (s.timer j).due ∧ ((s.set i x).timer j).serial = (s.timer j).serial := by
    intro j
    by_cases here : j = i
    · subst here
      rw [set_timer_self]
      exact ⟨timeout, due, serial⟩
    · rw [set_timer_of_ne here]
      exact ⟨rfl, rfl, rfl⟩
  have earlier : ∀ j k, Earlier ((s.set i x).timer j) ((s.set i x).timer k) ↔ Earlier (s.timer j) (s.timer k) := by
    intro j k
    unfold Earlier
    rw [(same j).2.1, (same j).2.2, (same k).2.1, (same k).2.2]
  have serials : (s.list.map fun j => ((s.set i x).timer j).serial) = s.list.map fun j => (s.timer j).serial :=
    List.map_congr_left fun j _ => (same j).2.2
  refine
    { sorted := good.sorted.imp fun {j k} before => (earlier j k).mpr before
      timeout_eq := ?_
      near := ?_
      active := ?_
      range := ?_
      apart := good.apart
      on_time := good.on_time
      in_order := good.in_order
      fired_before := ?_
      accounted := ?_ }
  · intro j member
    rw [(same j).1, (same j).2.1]
    exact good.timeout_eq j member
  · intro j member
    rw [(same j).2.1]
    exact good.near j member
  · intro j member
    by_cases here : j = i
    · subst here
      rw [set_timer_self]
      exact active member
    · rw [set_timer_of_ne here]
      exact good.active j member
  · intro j member
    by_cases here : j = i
    · subst here
      rw [set_timer_self]
      exact range member
    · rw [set_timer_of_ne here]
      exact good.range j member
  · intro e logged j member
    rw [(same j).2.1, (same j).2.2]
    exact good.fired_before e logged j member
  · have whole := good.accounted
    rw [← serials] at whole
    exact whole

/-- The entry of a timer that is in no list. -/
theorem reset_good (good : Good s) (missing : i ∉ s.list) (clear : s.firing ≠ some i) (x : Timer) :
    Good (s.set i x) := by
  have same : ∀ j ∈ s.list, (s.set i x).timer j = s.timer j := fun j member => set_listed missing member
  refine { good with
    sorted := ?_, timeout_eq := ?_, near := ?_, active := ?_, range := ?_, fired_before := ?_, accounted := ?_ }
  · refine good.sorted.imp_of_mem ?_
    intro a b first second before
    rw [same a first, same b second]
    exact before
  · intro j member
    rw [same j member]
    exact good.timeout_eq j member
  · intro j member
    rw [same j member]
    exact good.near j member
  · intro j member
    rw [same j member]
    exact good.active j member
  · intro j used
    have differs : j ≠ i := by
      rintro rfl
      exact used.elim missing clear
    rw [set_timer_of_ne differs]
    exact good.range j used
  · intro e logged j member
    rw [same j member]
    exact good.fired_before e logged j member
  · have serials : (s.list.map fun j => ((s.set i x).timer j).serial) = s.list.map fun j => (s.timer j).serial :=
      List.map_congr_left fun j member => by rw [same j member]
    have whole := good.accounted
    rw [← serials] at whole
    exact whole

/-! ### Starting a timer -/

/-- Before and after the place where an element is inserted. -/
theorem pairwise_orderedInsert {α : Type} {R r : α → α → Prop} [DecidableRel r] {l : List α} {x : α}
    (sorted : l.Pairwise R) (before : ∀ y ∈ l, r x y → R x y) (after : ∀ y ∈ l, ¬ r x y → R y x)
    (trans : ∀ y z, R x y → R y z → R x z) : (l.orderedInsert r x).Pairwise R := by
  induction l with
  | nil => exact List.pairwise_singleton R x
  | cons y l ih =>
    rw [List.pairwise_cons] at sorted
    rw [List.forall_mem_cons] at before after
    rw [List.orderedInsert]
    split
    · rename_i here
      rw [List.pairwise_cons, List.pairwise_cons, List.forall_mem_cons]
      refine ⟨⟨before.1 here, ?_⟩, sorted⟩
      intro z member
      exact trans y z (before.1 here) (sorted.1 z member)
    · rename_i later
      rw [List.pairwise_cons]
      refine ⟨?_, ih sorted.2 before.2 after.2⟩
      intro z member
      rw [List.mem_orderedInsert] at member
      rcases member with rfl | member
      · exact after.1 later
      · exact sorted.1 z member

/-- Less than half of all ticks apart, the wrapped times compare as the times do. -/
theorem before_iff {now d e : Nat} (first : now ≤ d ∧ d < now + 2147483647)
    (second : now ≤ e ∧ e < now + 2147483647) : Before (UInt32.ofNat d) (UInt32.ofNat e) ↔ d < e := by
  have gap : (UInt32.ofNat e - UInt32.ofNat d).toNat = (4294967296 - d % 4294967296 + e % 4294967296) % 4294967296 := by
    rw [UInt32.toNat_sub, UInt32.toNat_ofNat', UInt32.toNat_ofNat']
  have zero : UInt32.ofNat e - UInt32.ofNat d = 0 ↔ (UInt32.ofNat e - UInt32.ofNat d).toNat = 0 :=
    ⟨fun same => by rw [same]; rfl, fun same => UInt32.toNat.inj same⟩
  unfold Before
  rw [Ne, zero, UInt32.lt_iff_toNat_lt, gap]
  have half : halfTickMax.toNat = 2147483647 := rfl
  rw [half]
  omega

theorem ofNat_tick (now : Nat) (n : UInt32) : UInt32.ofNat now + n = UInt32.ofNat (now + n.toNat) := by
  rw [UInt32.ofNat_add, UInt32.ofNat_toNat]

/-- What holds of the timer `i` with its new timeout, and of those in the list, holds of all that are in it then. -/
theorem forall_armed {P : Timer → Prop} (missing : i ∉ s.list) (new : P (s.armed i))
    (old : ∀ j ∈ s.list, P (s.timer j)) :
    ∀ j ∈ ((s.set i (s.armed i)).insert i).list, P (((s.set i (s.armed i)).insert i).timer j) := by
  intro j member
  show P ((s.set i (s.armed i)).timer j)
  rcases (List.mem_orderedInsert _).mp member with rfl | listed
  · rw [set_timer_self]
    exact new
  · rw [set_listed missing listed]
    exact old j listed

theorem armed_near (range : InRange (s.timer i).initTick) :
    s.now ≤ (s.armed i).due ∧ (s.armed i).due < s.now + 2147483647 := by
  have tick : (s.timer i).initTick.toNat < 2147483647 := UInt32.lt_iff_toNat_lt.mp range.2
  show s.now ≤ s.now + (s.timer i).initTick.toNat ∧ s.now + (s.timer i).initTick.toNat < s.now + 2147483647
  omega

theorem armed_wrapped (s : Timers) (i : Nat) : (s.armed i).timeoutTick = UInt32.ofNat (s.armed i).due :=
  ofNat_tick s.now _

/-- The walk through the list finds the place behind all timers that time out no later. -/
theorem arm_sorted (good : Good s) (missing : i ∉ s.list) (range : InRange (s.timer i).initTick) :
    ((s.set i (s.armed i)).insert i).list.Pairwise fun j k =>
      Earlier ((s.set i (s.armed i)).timer j) ((s.set i (s.armed i)).timer k) := by
  have self := set_timer_self s i (s.armed i)
  have decided : ∀ j ∈ s.list,
      Before ((s.set i (s.armed i)).timer i).timeoutTick ((s.set i (s.armed i)).timer j).timeoutTick ↔
        (s.armed i).due < (s.timer j).due := by
    intro j member
    rw [self, set_listed missing member, armed_wrapped, good.timeout_eq j member]
    exact before_iff (armed_near range) (good.near j member)
  have sorted : s.list.Pairwise fun j k =>
      Earlier ((s.set i (s.armed i)).timer j) ((s.set i (s.armed i)).timer k) := by
    refine good.sorted.imp_of_mem ?_
    intro j k first second earlier
    rw [set_listed missing first, set_listed missing second]
    exact earlier
  apply pairwise_orderedInsert sorted
  · intro j member before
    rw [decided j member] at before
    rw [self, set_listed missing member]
    exact Or.inl before
  · intro j member after
    rw [decided j member] at after
    rw [self, set_listed missing member]
    have serial := good.serial_lt member
    have fresh : (s.armed i).serial = s.starts := rfl
    unfold Earlier
    omega
  · intro y z first second
    unfold Earlier at *
    omega

theorem arm_accounted (good : Good s) (missing : i ∉ s.list) :
    ((((s.set i (s.armed i)).insert i).list.map fun j => ((s.set i (s.armed i)).timer j).serial) ++
      s.fired.map Firing.serial ++ s.cancelled).Perm (List.range (s.starts + 1)) := by
  have inserted : (((s.set i (s.armed i)).insert i).list.map fun j =>
      ((s.set i (s.armed i)).timer j).serial).Perm (s.starts :: s.list.map fun j => (s.timer j).serial) := by
    refine ((List.perm_orderedInsert _ _ _).map _).trans ?_
    have rest : (s.list.map fun j => ((s.set i (s.armed i)).timer j).serial) =
        s.list.map fun j => (s.timer j).serial :=
      List.map_congr_left fun j member => congrArg Timer.serial (set_listed missing member)
    have self : ((s.set i (s.armed i)).timer i).serial = s.starts := congrArg Timer.serial (set_timer_self s i _)
    exact List.Perm.of_eq (congrArg₂ List.cons self rest)
  refine ((inserted.append_right _).append_right _).trans ?_
  rw [List.range_succ, List.cons_append, List.cons_append]
  exact (good.accounted.cons s.starts).trans (List.perm_append_singleton _ _).symm

/-- The timer `i`, which is in no list, with its new timeout. -/
theorem arm_good (good : Good s) (missing : i ∉ s.list) (clear : s.firing ≠ some i)
    (object : (s.timer i).object = true) (range : InRange (s.timer i).initTick) :
    Good { (s.set i (s.armed i)).insert i with starts := s.starts + 1 } := by
  have timeout := forall_armed (P := fun t => t.timeoutTick = UInt32.ofNat t.due) missing (armed_wrapped s i)
    good.timeout_eq
  have near := forall_armed (P := fun t => s.now ≤ t.due ∧ t.due < s.now + 2147483647) missing (armed_near range)
    good.near
  have active := forall_armed (P := fun t => t.activated = true) missing rfl good.active
  have fired := fun e logged => forall_armed (P := fun t => e.time = t.due → e.serial < t.serial) missing
    (fun _ => good.fired_lt logged) (good.fired_before e logged)
  refine
    { sorted := arm_sorted good missing range
      timeout_eq := timeout
      near := near
      active := active
      range := ?_
      apart := ?_
      on_time := good.on_time
      in_order := good.in_order
      fired_before := fired
      accounted := arm_accounted good missing }
  · intro j here
    show ((s.set i (s.armed i)).timer j).object = true ∧ InRange ((s.set i (s.armed i)).timer j).initTick
    by_cases same : j = i
    · subst same
      rw [set_timer_self]
      exact ⟨object, range⟩
    · rw [set_timer_of_ne same]
      refine good.range j (here.imp_left fun member => ?_)
      exact ((List.mem_orderedInsert _).mp member).resolve_left same
  · intro j member
    rcases (List.mem_orderedInsert _).mp member with rfl | listed
    · exact clear
    · exact good.apart j listed

theorem start_good (good : Good s) (object : (s.timer i).object = true) (range : InRange (s.timer i).initTick) :
    ∃ t, s.rtTimerStart i = some t ∧ Good t ∧ t.now = s.now ∧ t.fired = s.fired ∧ t.firing = (s.remove i).firing ∧
      t.list.Perm (i :: s.list.erase i) ∧ (t.timer i).due = s.now + (s.timer i).initTick.toNat ∧
      ((t.timer i).object = true ∧ (t.timer i).periodic = (s.timer i).periodic) ∧
      ∀ j, j ≠ i → t.timer j = s.timer j := by
  have clear : (s.remove i).firing ≠ some i := by
    show (if s.firing = some i then none else s.firing) ≠ some i
    split
    · exact fun impossible => by cases impossible
    · assumption
  have armed := arm_good (remove_good good i) good.not_mem_erase clear object range
  have self := set_timer_self (s.remove i) i ((s.remove i).armed i)
  refine ⟨_, if_pos ⟨object, range.2⟩, armed, rfl, rfl, rfl, List.perm_orderedInsert _ _ _, ?_, ?_, ?_⟩
  · show (((s.remove i).set i ((s.remove i).armed i)).timer i).due = _
    rw [self]
    rfl
  · show (((s.remove i).set i ((s.remove i).armed i)).timer i).object = true ∧
      (((s.remove i).set i ((s.remove i).armed i)).timer i).periodic = _
    rw [self]
    exact ⟨object, rfl⟩
  · intro j differs
    exact set_timer_of_ne differs

/-! ### What a timeout function can do -/

/-- How many timers are due on this tick and still in the list. -/
def dueNow (s : Timers) : Nat := s.list.countP fun i => (s.timer i).due == s.now

/-- What a caller keeps to: a timer is set up once, before it is used and again after it was detached, and its
time is in range when it is started. -/
def Sane (s : Timers) : TimerCmd → Prop
  | .init i _ _ => (s.timer i).object = false
  | .start i => (s.timer i).object = true ∧ InRange (s.timer i).initTick
  | .setTime i tick => (s.timer i).object = true ∧ InRange tick
  | .stop i | .detach i | .setOneshot i | .setPeriodic i => (s.timer i).object = true

/-- Each call is sane in the state that the ones before it have left. -/
def SaneAll (s : Timers) : List TimerCmd → Prop
  | [] => True
  | c :: cs => Sane s c ∧ ∀ t, s.run c = some t → SaneAll t cs

/-- What calls leave alone, and that none of them makes another timer due at once. -/
structure Kept (s t : Timers) : Prop where
  now_eq : t.now = s.now
  fired_eq : t.fired = s.fired
  firing_eq : t.firing = s.firing ∨ t.firing = none
  due_le : t.dueNow ≤ s.dueNow

theorem Kept.refl (s : Timers) : Kept s s := ⟨rfl, rfl, Or.inl rfl, Nat.le_refl _⟩

theorem Kept.trans {u : Timers} (first : Kept s t) (second : Kept t u) : Kept s u := by
  refine ⟨second.now_eq.trans first.now_eq, second.fired_eq.trans first.fired_eq, ?_,
    Nat.le_trans second.due_le first.due_le⟩
  rcases second.firing_eq with same | none
  · rw [same]
    exact first.firing_eq
  · exact Or.inr none

theorem dueNow_set {x : Timer} (due : x.due = (s.timer i).due) : (s.set i x).dueNow = s.dueNow := by
  apply List.countP_congr
  intro j _
  by_cases here : j = i
  · subst here
    rw [set_timer_self, due]
    rfl
  · rw [set_timer_of_ne here]
    rfl

theorem remove_kept (s : Timers) (i : Nat) : Kept s (s.remove i) := by
  refine ⟨rfl, rfl, ?_, List.erase_sublist.countP_le⟩
  show (if s.firing = some i then none else s.firing) = _ ∨ (if s.firing = some i then none else s.firing) = none
  split
  · exact Or.inr rfl
  · exact Or.inl rfl

theorem set_kept {x : Timer} (due : x.due = (s.timer i).due) : Kept s (s.set i x) :=
  ⟨rfl, rfl, Or.inl rfl, Nat.le_of_eq (dueNow_set due)⟩

theorem start_kept (good : Good s) (object : (s.timer i).object = true) (range : InRange (s.timer i).initTick) :
    ∃ t, s.rtTimerStart i = some t ∧ Good t ∧ Kept s t := by
  obtain ⟨u, started, armed, now, fired, firing, members, due, -, others⟩ := start_good good object range
  refine ⟨u, started, armed, now, fired, ?_, ?_⟩
  · rw [firing]
    exact (remove_kept s i).firing_eq
  · have late : ((u.timer i).due == u.now) = false := by
      have positive := range.1
      rw [beq_eq_false_iff_ne, due, now]
      omega
    have same : (s.list.erase i).countP (fun j => (u.timer j).due == u.now) =
        (s.list.erase i).countP fun j => (s.timer j).due == s.now := by
      apply List.countP_congr
      intro j member
      rw [others j fun here => good.not_mem_erase (here ▸ member), now]
    unfold dueNow
    rw [members.countP_eq, List.countP_cons_of_neg (by rw [late]; exact Bool.false_ne_true), same]
    exact List.erase_sublist.countP_le

theorem out_good (good : Good s) (i : Nat) : Good ((s.remove i).deactivate i) ∧ Kept s ((s.remove i).deactivate i) := by
  have removed := remove_good good i
  constructor
  · refine set_good removed rfl rfl rfl ?_ fun here => removed.range i here
    intro member
    exact absurd member good.not_mem_erase
  · exact (remove_kept s i).trans (set_kept rfl)

theorem stop_good (good : Good s) (object : (s.timer i).object = true) :
    ∃ t, s.rtTimerStop i = some t ∧ Good t ∧ Kept s t := by
  unfold rtTimerStop
  rw [if_neg (by rw [object]; exact Bool.noConfusion)]
  split
  · exact ⟨s, rfl, good, Kept.refl s⟩
  · exact ⟨_, rfl, out_good good i⟩

/-- A timer that was detached is in no list. -/
theorem detach_good (good : Good s) (object : (s.timer i).object = true) :
    ∃ t, s.rtTimerDetach i = some t ∧ Good t ∧ Kept s t := by
  obtain ⟨out, kept⟩ := out_good good i
  refine ⟨_, if_neg (by rw [object]; exact Bool.noConfusion), ?_, kept.trans (set_kept rfl)⟩
  refine set_good out rfl rfl rfl (fun member => absurd member good.not_mem_erase) ?_
  rintro (member | firing)
  · exact absurd member good.not_mem_erase
  · change (if s.firing = some i then none else s.firing) = some i at firing
    split at firing
    · cases firing
    · contradiction

theorem control_good {x : Timer} (good : Good s) (object : (s.timer i).object = true)
    (timeout : x.timeoutTick = (s.timer i).timeoutTick) (due : x.due = (s.timer i).due)
    (serial : x.serial = (s.timer i).serial) (active : x.activated = (s.timer i).activated)
    (range : i ∈ s.list ∨ s.firing = some i → x.object = true ∧ InRange x.initTick) :
    ∃ t, s.rtTimerControl i x = some t ∧ Good t ∧ Kept s t := by
  refine ⟨_, if_neg (by rw [object]; exact Bool.noConfusion), ?_, set_kept due⟩
  exact set_good good timeout due serial (fun member => active.trans (good.active i member)) range

theorem run_good {c : TimerCmd} (good : Good s) (sane : Sane s c) : ∃ t, s.run c = some t ∧ Good t ∧ Kept s t := by
  cases c with
  | init i tick periodic =>
    have unused : ¬ (i ∈ s.list ∨ s.firing = some i) := by
      intro used
      have object := (good.range i used).1
      rw [show (s.timer i).object = false from sane] at object
      exact Bool.noConfusion object
    rw [not_or] at unused
    refine ⟨_, if_neg (by rw [show (s.timer i).object = false from sane]; exact Bool.noConfusion), ?_, set_kept rfl⟩
    exact reset_good good unused.1 unused.2 _
  | start i => exact start_kept good sane.1 sane.2
  | stop i => exact stop_good good sane
  | detach i => exact detach_good good sane
  | setTime i tick => exact control_good good sane.1 rfl rfl rfl rfl fun _ => sane
  | setOneshot i => exact control_good good sane rfl rfl rfl rfl (good.range i)
  | setPeriodic i => exact control_good good sane rfl rfl rfl rfl (good.range i)

theorem runAll_good {cs : List TimerCmd} (good : Good s) (sane : SaneAll s cs) :
    ∃ t, s.runAll cs = some t ∧ Good t ∧ Kept s t := by
  induction cs generalizing s with
  | nil => exact ⟨s, rfl, good, Kept.refl s⟩
  | cons c cs ih =>
    obtain ⟨u, ran, good', kept⟩ := run_good good sane.1
    obtain ⟨t, ran', good'', kept'⟩ := ih good' (sane.2 u ran)
    refine ⟨t, ?_, good'', kept.trans kept'⟩
    rw [runAll, ran]
    exact ran'

/-! ### A check of all timers -/

theorem fires_iff {now d : Nat} (near : now ≤ d ∧ d < now + 2147483647) :
    UInt32.ofNat now - UInt32.ofNat d < halfTickMax ↔ d = now := by
  rw [UInt32.lt_iff_toNat_lt, UInt32.toNat_sub, UInt32.toNat_ofNat', UInt32.toNat_ofNat']
  have half : halfTickMax.toNat = 2147483647 := rfl
  rw [half]
  omega

/-- The first timer out of the list and into the record. -/
theorem pop_good {rest : List Nat} (good : Good s) (first : s.list = i :: rest) (due : (s.timer i).due = s.now) :
    Good { s with
      list := rest
      firing := some i
      fired := s.fired ++ [⟨i, (s.timer i).due, (s.timer i).serial, s.now⟩] } := by
  have sorted := good.sorted
  have nodup := good.nodup
  rw [first, List.pairwise_cons] at sorted
  rw [first, List.nodup_cons] at nodup
  have kept : ∀ j ∈ rest, j ∈ s.list := by
    intro j member
    rw [first]
    exact List.mem_cons_of_mem i member
  have here : i ∈ s.list := by
    rw [first]
    exact List.mem_cons_self
  refine
    { sorted := sorted.2
      timeout_eq := fun j member => good.timeout_eq j (kept j member)
      near := fun j member => good.near j (kept j member)
      active := fun j member => good.active j (kept j member)
      range := ?_
      apart := ?_
      on_time := ?_
      in_order := ?_
      fired_before := ?_
      accounted := ?_ }
  · rintro j (member | same)
    · exact good.range j (Or.inl (kept j member))
    · obtain rfl := Option.some.inj same
      exact good.range i (Or.inl here)
  · rintro j member same
    obtain rfl := Option.some.inj same
    exact nodup.1 member
  · intro e member
    rcases List.mem_append.mp member with old | new
    · exact good.on_time e old
    · obtain rfl := List.mem_singleton.mp new
      exact ⟨due.symm, Nat.le_refl _⟩
  · rw [List.pairwise_append]
    refine ⟨good.in_order, List.pairwise_singleton _ _, ?_⟩
    intro e old f new
    obtain rfl := List.mem_singleton.mp new
    have early := (good.on_time e old).2
    rcases Nat.lt_or_eq_of_le early with before | same
    · exact Or.inl before
    · exact Or.inr ⟨same, good.fired_before e old i here (same.trans due.symm)⟩
  · intro e member j later
    rcases List.mem_append.mp member with old | new
    · exact good.fired_before e old j (kept j later)
    · obtain rfl := List.mem_singleton.mp new
      intro same
      rcases sorted.1 j later with before | ⟨-, before⟩
      · dsimp only at same
        omega
      · exact before
  · have whole := good.accounted
    rw [first, List.map_cons] at whole
    refine List.Perm.trans ?_ whole
    rw [List.map_append, List.map_singleton, ← List.append_assoc, List.cons_append, List.cons_append]
    exact (List.perm_append_singleton _ _).append_right _

theorem take_good {rest : List Nat} (good : Good s) (first : s.list = i :: rest) (due : (s.timer i).due = s.now) :
    Good (s.take i) ∧ (s.take i).dueNow + 1 = s.dueNow ∧ (s.take i).firing = some i := by
  have nodup := good.nodup
  rw [first, List.nodup_cons] at nodup
  have popped := pop_good good first due
  have taken : s.take i = set { s with
      list := rest
      firing := some i
      fired := s.fired ++ [⟨i, (s.timer i).due, (s.timer i).serial, s.now⟩] } i
        { s.timer i with activated := (s.timer i).periodic && (s.timer i).activated } := by
    unfold take set
    rw [first, List.erase_cons_head]
  refine ⟨?_, ?_, rfl⟩
  · rw [taken]
    exact set_good popped rfl rfl rfl (fun member => absurd member nodup.1) fun here => popped.range i here
  · have counted : s.dueNow = rest.countP (fun j => (s.timer j).due == s.now) + 1 := by
      unfold dueNow
      rw [first, List.countP_cons_of_pos (by rw [due]; exact beq_self_eq_true _)]
    rw [taken, counted]
    exact congrArg (· + 1) (dueNow_set rfl)

theorem restart_good (good : Good s) (firing : s.firing = some i ∨ s.firing = none) :
    ∃ t, s.restart i = some t ∧ Good t ∧ Kept s t ∧ t.firing = none := by
  rcases firing with here | nothing
  · have removed := remove_good good i
    have range := good.range i (Or.inr here)
    have cleared : (s.remove i).firing = none := if_pos here
    have called : s.restart i = if ((s.remove i).timer i).periodic = true ∧ ((s.remove i).timer i).activated = true
        then ((s.remove i).deactivate i).rtTimerStart i else some (s.remove i) :=
      if_neg (by rw [here]; exact Option.some_ne_none i)
    rw [called]
    split
    · have idle : Good ((s.remove i).deactivate i) ∧ Kept (s.remove i) ((s.remove i).deactivate i) := by
        refine ⟨set_good removed rfl rfl rfl ?_ fun member => removed.range i member, set_kept rfl⟩
        intro member
        exact absurd member good.not_mem_erase
      have self : (((s.remove i).deactivate i).timer i).object = true ∧
          InRange (((s.remove i).deactivate i).timer i).initTick := by
        rw [deactivate, set_timer_self]
        exact range
      obtain ⟨t, started, good', kept⟩ := start_kept idle.1 self.1 self.2
      refine ⟨t, started, good', ((remove_kept s i).trans idle.2).trans kept, ?_⟩
      rcases kept.firing_eq with same | none
      · exact same.trans cleared
      · exact none
    · exact ⟨_, rfl, removed, remove_kept s i, cleared⟩
  · exact ⟨s, if_pos nothing, good, Kept.refl s, nothing⟩

/-- A check lets every timer time out that is due, and no other. What every timeout keeps holds after it. -/
theorem check_rule {ω : Type} {timeoutFunc : Nat → Timers × ω → Option (Timers × ω)} {Inv : Timers → ω → Prop}
    {w : ω} {turns : Nat} (good : Good s) (quiet : s.firing = none) (inv : Inv s w) (enough : s.dueNow < turns)
    (timeout : ∀ {s : Timers} {w : ω} {i : Nat} {rest : List Nat}, Good s → s.firing = none → Inv s w →
      s.list = i :: rest → (s.timer i).due = s.now → ∃ t v, timeoutFunc i (s.take i, w) = some (t, v) ∧ Good t ∧
        Kept (s.take i) t ∧ ∀ u, t.restart i = some u → Kept t u → Inv u v) :
    ∃ t v, rtTimerCheck timeoutFunc turns (s, w) = some (t, v) ∧ Good t ∧ t.firing = none ∧ t.now = s.now ∧
      t.dueNow = 0 ∧ Inv t v := by
  induction turns generalizing s w with
  | zero => exact absurd enough (Nat.not_lt_zero _)
  | succ turns ih =>
    rw [rtTimerCheck]
    cases first : s.list with
    | nil =>
      refine ⟨s, w, rfl, good, quiet, rfl, ?_, inv⟩
      rw [dueNow, first, List.countP_nil]
    | cons i rest =>
      have here : i ∈ s.list := by
        rw [first]
        exact List.mem_cons_self
      have fires := fires_iff (good.near i here)
      dsimp only
      rw [rtTickGet, good.timeout_eq i here]
      by_cases due : (s.timer i).due = s.now
      · rw [if_pos (fires.mpr due)]
        obtain ⟨taken, fewer, firing⟩ := take_good good first due
        obtain ⟨u, v, called, good', kept, inv'⟩ := timeout good quiet inv first due
        have firing' : u.firing = some i ∨ u.firing = none := by
          rw [← firing]
          exact kept.firing_eq
        obtain ⟨x, restarted, good'', kept', quiet'⟩ := restart_good good' firing'
        have both := kept.trans kept'
        have less := both.due_le
        obtain ⟨t, v', checked, result, quiet'', now, done, holds⟩ :=
          ih good'' quiet' (inv' x restarted kept') (by omega)
        refine ⟨t, v', ?_, result, quiet'', now.trans both.now_eq, done, holds⟩
        rw [called, Option.bind_some]
        dsimp only
        rw [restarted]
        exact checked
      · rw [if_neg (fires.not.mpr due)]
        refine ⟨s, w, rfl, good, quiet, rfl, ?_, inv⟩
        have sorted := good.sorted
        rw [first, List.pairwise_cons] at sorted
        have later := (good.near i here).1
        rw [dueNow, first, List.countP_eq_zero, List.forall_mem_cons]
        refine ⟨by simpa using due, ?_⟩
        intro j member
        have order := sorted.1 j member
        unfold Earlier at order
        rw [beq_iff_eq]
        omega

/-! ### In every run -/

/-- A call by a thread, or the clock interrupt with what the timeout functions do then. -/
inductive TimerAct where
  | call (c : TimerCmd)
  | tick (callback : Nat → List TimerCmd)

def next (s : Timers) : TimerAct → Option Timers
  | .call c => s.run c
  | .tick callback => s.tick callback

/-- The timer `i` is the first one and due. -/
def Fires (s : Timers) (i : Nat) : Prop :=
  s.list.head? = some i ∧ s.rtTickGet - (s.timer i).timeoutTick < halfTickMax

/-- The states in which a check that began in `s` looks at the list. -/
inductive Checking (callback : Nat → List TimerCmd) (s : Timers) : Timers → Prop where
  | start : Checking callback s s
  | turn {t u v : Timers} {i : Nat} : Checking callback s t → t.Fires i → (t.take i).runAll (callback i) = some u →
      u.restart i = some v → Checking callback s v

/-- The calls are sane, those of a thread and those of the timeout functions. -/
def Allowed (s : Timers) : TimerAct → Prop
  | .call c => Sane s c
  | .tick callback =>
    ∀ t i, Checking callback { s with now := s.now + 1 } t → t.Fires i → SaneAll (t.take i) (callback i)

/-- Timers of any kind, none of them started, at any tick. -/
def system (now : Nat) (timer : Nat → Timer) : System Timers TimerAct where
  start := ⟨now, [], none, timer, 0, [], []⟩
  next := next

/-- Between two interrupts: the timers that are left time out later. -/
structure Settled (s : Timers) : Prop where
  good : Good s
  quiet : s.firing = none
  ahead : ∀ i ∈ s.list, s.now < (s.timer i).due

theorem Settled.of_due (good : Good s) (quiet : s.firing = none) (none : s.dueNow = 0) : Settled s := by
  refine ⟨good, quiet, ?_⟩
  intro i member
  have differs := List.countP_eq_zero.mp none i member
  have near := (good.near i member).1
  rw [beq_iff_eq] at differs
  omega

theorem Settled.dueNow_eq (settled : Settled s) : s.dueNow = 0 := by
  rw [dueNow, List.countP_eq_zero]
  intro i member
  have ahead := settled.ahead i member
  rw [beq_iff_eq]
  omega

theorem Settled.later (settled : Settled s) : Good { s with now := s.now + 1 } := by
  have good := settled.good
  refine { good with near := ?_, on_time := ?_ }
  · intro i member
    have near := good.near i member
    have ahead := settled.ahead i member
    dsimp only
    omega
  · intro e logged
    have early := good.on_time e logged
    exact ⟨early.1, Nat.le_succ_of_le early.2⟩

/-- A tick settles the timers again, whatever the timeout functions write besides. -/
theorem Settled.check {ω : Type} {timeoutFunc : Nat → Timers × ω → Option (Timers × ω)} {Inv : Timers → ω → Prop}
    {w : ω} (settled : Settled s) (inv : Inv { s with now := s.now + 1 } w)
    (timeout : ∀ {s : Timers} {w : ω} {i : Nat} {rest : List Nat}, Good s → s.firing = none → Inv s w →
      s.list = i :: rest → (s.timer i).due = s.now → ∃ t v, timeoutFunc i (s.take i, w) = some (t, v) ∧ Good t ∧
        Kept (s.take i) t ∧ ∀ u, t.restart i = some u → Kept t u → Inv u v) :
    ∃ t v, s.check timeoutFunc w = some (t, v) ∧ Settled t ∧ t.now = s.now + 1 ∧ Inv t v := by
  have enough : dueNow { s with now := s.now + 1 } < s.list.length + 1 :=
    Nat.lt_succ_of_le List.countP_le_length
  obtain ⟨t, v, checked, good, quiet, now, done, holds⟩ :=
    check_rule settled.later settled.quiet inv enough timeout
  exact ⟨t, v, checked, Settled.of_due good quiet done, now, holds⟩

theorem Settled.next {act : TimerAct} (settled : Settled s) (allowed : Allowed s act) :
    ∃ t, s.next act = some t ∧ Settled t := by
  have good := settled.good
  cases act with
  | call c =>
    obtain ⟨t, ran, good', kept⟩ := run_good good allowed
    refine ⟨t, ran, Settled.of_due good' ?_ ?_⟩
    · rcases kept.firing_eq with same | none
      · exact same.trans settled.quiet
      · exact none
    · have less := kept.due_le
      rw [settled.dueNow_eq] at less
      omega
  | tick callback =>
    have result := @Settled.check s Unit (fun i (s, w) => (s.runAll (callback i)).map fun s => (s, w))
      (fun t _ => Checking callback { s with now := s.now + 1 } t) () settled .start ?_
    · obtain ⟨t, v, checked, settled', -⟩ := result
      refine ⟨t, ?_, settled'⟩
      show Option.map Prod.fst _ = some t
      rw [checked]
      rfl
    · intro t w i rest good quiet checking first due
      have here : i ∈ t.list := by
        rw [first]
        exact List.mem_cons_self
      have fires : t.Fires i := by
        refine ⟨by rw [first]; rfl, ?_⟩
        rw [rtTickGet, good.timeout_eq i here]
        exact (fires_iff (good.near i here)).mpr due
      obtain ⟨taken, -⟩ := take_good good first due
      obtain ⟨u, ran, good', kept⟩ := runAll_good taken (allowed t i checking fires)
      refine ⟨u, w, ?_, good', kept, fun v restarted _ => .turn checking fires ran restarted⟩
      dsimp only
      rw [ran]
      rfl

/-! ### What calls do to settled timers -/

theorem Settled.stop (settled : Settled s) (object : (s.timer i).object = true) :
    ∃ t, s.rtTimerStop i = some t ∧ Settled t ∧ t.now = s.now ∧ t.list = s.list.erase i ∧
      ((t.timer i).object = true ∧ (t.timer i).periodic = (s.timer i).periodic) ∧
      ∀ j, j ≠ i → t.timer j = s.timer j := by
  have sane : Allowed s (.call (.stop i)) := object
  obtain ⟨t, ran, settled'⟩ := settled.next sane
  have called : s.rtTimerStop i = some t := ran
  refine ⟨t, called, settled', ?_⟩
  unfold rtTimerStop at called
  rw [if_neg (by rw [object]; exact Bool.noConfusion)] at called
  split at called
  · rename_i stopped
    obtain rfl := Option.some.inj called
    refine ⟨rfl, ?_, ⟨object, rfl⟩, fun _ _ => rfl⟩
    refine (List.erase_of_not_mem fun member => ?_).symm
    have active := settled.good.active i member
    rw [stopped] at active
    exact Bool.false_ne_true active
  · obtain rfl := Option.some.inj called
    refine ⟨rfl, rfl, ?_, fun j differs => set_timer_of_ne differs⟩
    rw [deactivate, set_timer_self]
    exact ⟨object, rfl⟩

theorem Settled.detach (settled : Settled s) (object : (s.timer i).object = true) (fresh : i ∉ s.list) :
    ∃ t, s.rtTimerDetach i = some t ∧ Settled t ∧ t.now = s.now ∧ t.list = s.list ∧
      ((t.timer i).object = false ∧ (t.timer i).periodic = (s.timer i).periodic) ∧
      ∀ j, j ≠ i → t.timer j = s.timer j := by
  have sane : Allowed s (.call (.detach i)) := object
  obtain ⟨t, ran, settled'⟩ := settled.next sane
  have called : s.rtTimerDetach i = some (((s.remove i).deactivate i).forget i) :=
    if_neg (by rw [object]; exact Bool.noConfusion)
  obtain rfl := Option.some.inj (called.symm.trans ran)
  refine ⟨_, called, settled', rfl, List.erase_of_not_mem fresh, ?_, ?_⟩
  · rw [forget, set_timer_self, deactivate, set_timer_self]
    exact ⟨rfl, rfl⟩
  · intro j differs
    rw [forget, set_timer_of_ne differs, deactivate, set_timer_of_ne differs]
    rfl

theorem Settled.restart (settled : Settled s) {tick : UInt32} (object : (s.timer i).object = true)
    (range : InRange tick) (fresh : i ∉ s.list) :
    ∃ t, s.runAll [.setTime i tick, .start i] = some t ∧ Settled t ∧ t.now = s.now ∧ t.list.Perm (i :: s.list) ∧
      (t.timer i).due = s.now + tick.toNat ∧
      ((t.timer i).object = true ∧ (t.timer i).periodic = (s.timer i).periodic) ∧
      ∀ j, j ≠ i → t.timer j = s.timer j := by
  let u := s.set i { s.timer i with initTick := tick }
  have self : u.timer i = { s.timer i with initTick := tick } := set_timer_self _ _ _
  have others : ∀ j, j ≠ i → u.timer j = s.timer j := fun j differs => set_timer_of_ne differs
  have sane : Allowed s (.call (.setTime i tick)) := ⟨object, range⟩
  obtain ⟨u', set, settled'⟩ := settled.next sane
  have control : s.run (.setTime i tick) = some u := if_neg (by rw [object]; exact Bool.noConfusion)
  obtain rfl : u = u' := Option.some.inj (control.symm.trans set)
  have sane' : (u.timer i).object = true ∧ InRange (u.timer i).initTick := by
    rw [self]
    exact ⟨object, range⟩
  have allowed : Allowed u (.call (.start i)) := sane'
  obtain ⟨t, moved, settled''⟩ := settled'.next allowed
  obtain ⟨t', started, -, now, -, -, list, due, kept, same⟩ := start_good settled'.good sane'.1 sane'.2
  obtain rfl : t' = t := Option.some.inj (started.symm.trans moved)
  refine ⟨t', ?_, settled'', now, ?_, ?_, ?_, ?_⟩
  · rw [runAll, control]
    show (u.rtTimerStart i).bind (fun s => some s) = some t'
    rw [started]
    rfl
  · refine list.trans ?_
    show List.Perm (i :: s.list.erase i) _
    rw [List.erase_of_not_mem fresh]
  · rw [due, self]
    rfl
  · rw [self] at kept
    exact kept
  · intro j differs
    rw [same j differs, others j differs]

theorem Settled.init (settled : Settled s) (unused : (s.timer i).object = false) (tick : UInt32) (periodic : Bool) :
    ∃ t, s.rtTimerInit i tick periodic = some t ∧ Settled t ∧ t.now = s.now ∧ t.list = s.list ∧
      ((t.timer i).object = true ∧ (t.timer i).periodic = periodic) ∧ ∀ j, j ≠ i → t.timer j = s.timer j := by
  have sane : Allowed s (.call (.init i tick periodic)) := unused
  obtain ⟨t, ran, settled'⟩ := settled.next sane
  have called : s.rtTimerInit i tick periodic = some (s.set i
      { s.timer i with
        object := true, initTick := tick, timeoutTick := 0, periodic := periodic, activated := false }) :=
    if_neg (by rw [unused]; exact Bool.noConfusion)
  obtain rfl := Option.some.inj (called.symm.trans ran)
  refine ⟨_, called, settled', rfl, rfl, ?_, fun j differs => set_timer_of_ne differs⟩
  rw [set_timer_self]
  exact ⟨rfl, rfl⟩

/-! ### The timers of a run -/

end Timers

end BleSpeaker.Kernel
