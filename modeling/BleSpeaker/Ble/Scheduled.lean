import BleSpeaker.Ble.EndToEnd
import BleSpeaker.Kernel.Bystanders

/-!
# The board under the scheduler

The parser and its consumers as threads: a thread moves only while it has the processor, a consumer that finds
its box empty is suspended in the list of the box, and a send wakes it and goes on to `rt_schedule`. Other
threads, interrupts and ticks come in between as they like.

`main` has priority 10 and `u8g2_get_txt` 20, and `data_parsing` has 25. So the parser has the processor only when
the two have nothing left to do, and every run is one of those in which they handle each mail before the next
byte is stored.

The others keep to `Minds`. They do not set up, start, suspend, resume or reprioritise a thread of the relay and
leave its boxes alone, no thread of the relay exits, and the parser does not lock the scheduler (`Apart`). While
the parser moves, its two consumers wait at their boxes if they wait at all (`Free`). A function of `ipc.c` that
has woken a thread goes on to `rt_schedule` (`owing`); a thread that suspends, resumes or reprioritises another
one need not. As in `Board`, the array `head` of `main` is taken as large enough for every text.
-/

namespace BleSpeaker.Ble
open Kernel Lib

/-! ### The threads and their moves -/

def idleThread : Nat := 0

def bleThread : Nat := 2

/-- `main`, `oled_text` and `dst_show`. Every other number is a thread of its own. -/
def thread : Box → Nat
  | .mb6288 => 1
  | .mbOled => 3
  | .mbTime => 4

/-- The list of the threads that wait for a mail. -/
def suspendThread : Box → Nat
  | .mb6288 => 0
  | .mbOled => 1
  | .mbTime => 2

def blePriority : Nat := 25

def priority : Box → Nat
  | .mb6288 => 10
  | .mbOled => 20
  | .mbTime => 23

structure Scheduled where
  kernel : Threads
  board : Board
  /-- The thread has woken another one in a function of `ipc.c`, which goes on with `rt_schedule`. -/
  owing : Nat → Bool

inductive Move where
  | parser
  | consumer (b : Box)
  /-- What the running thread does besides. -/
  | call (act : ThreadAct)
  | tick
  | interrupt (o : Nat)

namespace Scheduled
variable (utf82gbk : List UInt8 → List UInt8)

def Goes (m : Scheduled) (t : Nat) : Prop := m.kernel.Runs t ∧ m.owing t = false

instance (m : Scheduled) (t : Nat) : Decidable (m.Goes t) := inferInstanceAs (Decidable (_ ∧ _))

def owe (m : Scheduled) (t : Nat) (owes : Bool) (k : Threads) : Scheduled :=
  { m with kernel := k, owing := Function.update m.owing t owes }

def parserMove (m : Scheduled) : Option Scheduled :=
  if m.Goes bleThread then
    m.board.parserStep.bind fun s =>
      match m.board.line.todo with
      | [] => some { m with board := s }
      | b :: _ =>
        -- `rt_mb_send` wakes the first thread that waits
        if (m.board.post b).mb.full = false ∧ m.kernel.scheduler.waiting (suspendThread b) ≠ [] then
          (m.kernel.rtIpcListResume (suspendThread b)).map ({ m with board := s }.owe bleThread true)
        else some { m with board := s }
  else none

def consumerMove (m : Scheduled) (b : Box) : Option Scheduled :=
  if m.Goes (thread b) then
    if b ≠ .mbTime ∧ (m.board.post b).reader = .waiting ∧ (m.board.post b).mb.entry = 0 then
      (m.kernel.wait (suspendThread b) .fifo none).map (m.owe (thread b) true)
    else (m.board.consumerStep utf82gbk b).map fun s => { m with board := s }
  else none

def wakes : ThreadAct → Bool
  | .wake _ => true
  | _ => false

def call (m : Scheduled) (act : ThreadAct) : Option Scheduled :=
  m.kernel.scheduler.current.bind fun t =>
    match act with
    | .schedule => (m.kernel.next .schedule).map (m.owe t false)
    | act => if m.Goes t then (m.kernel.next act).map (m.owe t (wakes act)) else none

def next (m : Scheduled) : Move → Option Scheduled
  | .parser => m.parserMove
  | .consumer b => m.consumerMove utf82gbk b
  | .call act => m.call act
  | .tick => (m.kernel.next .tick).map fun k => { m with kernel := k }
  | .interrupt o =>
    (m.kernel.next (.wake o)).bind fun k => (k.next .schedule).map fun k => { m with kernel := k }

def scheduled (p : Parser) (input : List UInt8) (k : Threads) : System Scheduled Move where
  start := ⟨k, .start p input, fun _ => false⟩
  next := next utf82gbk

/-! ### What the others keep to -/

/-- The threads of the relay that nobody may touch. -/
def Relay (t : Nat) : Prop := t = bleThread ∨ t = thread .mb6288 ∨ t = thread .mbOled

/-- `main` and `oled_text` wait nowhere but at their boxes, not for the heap's semaphore for instance. -/
def Free (m : Scheduled) : Prop :=
  ∀ b, b ≠ .mbTime → (m.kernel.scheduler.thread (thread b)).stat = .suspend →
    thread b ∈ m.kernel.scheduler.waiting (suspendThread b)

/-- A step that is not about the threads of the relay or their boxes. -/
def Apart (k : Threads) : ThreadAct → Prop
  | .init t _ _ | .startup t | .suspend t | .unlink t | .insert t | .changePriority t _ => ¬ Relay t
  | .wait o _ _ | .wake o => ∀ b, o ≠ suspendThread b
  | .exit => ∀ t ∈ k.scheduler.current, ¬ Relay t
  | .enterCritical => k.scheduler.current ≠ some bleThread
  | .start | .tick => False
  | .schedule | .yield | .sleep _ | .exitCritical => True

/-- The contract of the moves. -/
def Minds (m : Scheduled) : Move → Prop
  | .parser => m.Free
  | .consumer _ => True
  | .call act => Threads.Allowed idleThread m.kernel act ∧ Apart m.kernel act
  | .tick => True
  | .interrupt o => m.kernel.scheduler.waiting o ≠ [] ∧ ∀ b, o ≠ suspendThread b

/-- The kernel at the time when `main` has started the other threads. -/
structure Booted (k : Threads) : Prop where
  reached : Threads.system.Guarded (Threads.Allowed idleThread) k
  leads : ∃ c, k.scheduler.Leads c
  unlocked : k.scheduler.lockNest = 0
  started : ∀ t, Relay t → k.scheduler.Started t
  ble : (k.scheduler.thread bleThread).currentPriority = blePriority
  ranked : ∀ b, b ≠ .mbTime → (k.scheduler.thread (thread b)).currentPriority = priority b
  free : ∀ b, k.scheduler.waiting (suspendThread b) = []

/-! ### What holds between two moves -/

/-- The kernel's side. -/
structure Ranks (k : Threads) : Prop where
  good : Threads.Good idleThread k
  running : k.scheduler.current ≠ none
  started : ∀ t, Relay t → k.scheduler.Started t
  ble : (k.scheduler.thread bleThread).currentPriority = blePriority
  ranked : ∀ b, b ≠ .mbTime → (k.scheduler.thread (thread b)).currentPriority = priority b
  unlocked : k.scheduler.current = some bleThread → k.scheduler.lockNest = 0
  lists : ∀ b t, t ∈ k.scheduler.waiting (suspendThread b) → t = thread b

/-- A consumer that waits has nothing to do. -/
def Resting (k : Threads) (s : Board) : Prop :=
  ∀ b, thread b ∈ k.scheduler.waiting (suspendThread b) →
    (s.post b).reader = .waiting ∧ (s.post b).mb.queue = []

/-- While the parser has the processor no consumer is ready, unless it is about to call `rt_schedule`. -/
def Turns (k : Threads) (owing : Nat → Bool) : Prop :=
  k.scheduler.current = some bleThread → owing bleThread = true ∨
    ∀ b, b ≠ .mbTime → (k.scheduler.thread (thread b)).stat ≠ .ready

variable {utf82gbk} {m n : Scheduled} {k k' : Threads} {s s' : Board} {act : ThreadAct} {t o : Nat} {b c : Box}
  {p : Parser} {stream : List UInt8} {owing : Nat → Bool}

theorem relay_thread (watched : b ≠ .mbTime) : Relay (thread b) := by
  cases b with
  | mb6288 => exact Or.inr (Or.inl rfl)
  | mbOled => exact Or.inr (Or.inr rfl)
  | mbTime => exact absurd rfl watched

theorem relay_ne_idle (relay : Relay t) : t ≠ idleThread := by
  rcases relay with rfl | rfl | rfl <;> decide

theorem thread_ne_ble (b : Box) : thread b ≠ bleThread := by
  cases b <;> decide

theorem suspendThread_injective (same : suspendThread b = suspendThread c) : b = c := by
  cases b <;> cases c <;> first | rfl | cases same

/-- A step that is apart is not about a thread of the relay, and one that waits it leaves started. -/
theorem Apart.own (apart : Apart k act) (relay : Relay t) :
    k.Aloof t act ∨ (∃ tick, act = .sleep tick) ∨ ∃ o flag time, act = .wait o flag time := by
  cases act with
  | init u _ _ => exact Or.inl fun same => apart (same ▸ relay)
  | startup u => exact Or.inl fun same => apart (same ▸ relay)
  | suspend u => exact Or.inl fun same => apart (same ▸ relay)
  | unlink u => exact Or.inl fun same => apart (same ▸ relay)
  | insert u => exact Or.inl fun same => apart (same ▸ relay)
  | changePriority u _ => exact Or.inl fun same => apart (same ▸ relay)
  | exit => exact Or.inl fun here => apart t here relay
  | sleep tick => exact Or.inr (Or.inl ⟨tick, rfl⟩)
  | wait o flag time => exact Or.inr (Or.inr ⟨o, flag, time, rfl⟩)
  | start => exact apart.elim
  | tick => exact Or.inl trivial
  | schedule => exact Or.inl trivial
  | yield => exact Or.inl trivial
  | wake _ => exact Or.inl trivial
  | enterCritical => exact Or.inl trivial
  | exitCritical => exact Or.inl trivial

theorem Ranks.next (ranks : Ranks k) (allowed : Threads.Allowed idleThread k act) (running : act ≠ .start)
    (own : ∀ t, Relay t → k.Aloof t act ∨ (∃ tick, act = .sleep tick) ∨ ∃ o flag time, act = .wait o flag time)
    (lists : ∀ b t, k.scheduler.current = some t → (∃ flag time, act = .wait (suspendThread b) flag time) →
      t = thread b)
    (unlocked : act ≠ .enterCritical ∨ k.scheduler.current ≠ some bleThread) (moved : k.next act = some k') :
    Ranks k' := by
  obtain ⟨l, moved', good', -⟩ := ranks.good.next allowed
  obtain rfl : l = k' := Option.some.inj (moved'.symm.trans moved)
  have kept : ∀ t, Relay t → l.scheduler.Started t ∧
      (l.scheduler.thread t).currentPriority = (k.scheduler.thread t).currentPriority :=
    fun t relay => ranks.good.ranked allowed (own t relay) moved (ranks.started t relay)
  have locks : l.scheduler.current = some bleThread → l.scheduler.lockNest = 0 := by
    by_cases plain : Threads.Plain act
    · obtain ⟨lock, same | ⟨free, -⟩⟩ := ranks.good.hands allowed plain moved
      · rw [same, lock]
        exact ranks.unlocked
      · exact fun _ => lock.trans free
    · rcases (Threads.not_plain plain).resolve_left running with rfl | rfl
      · rw [← Option.some.inj moved]
        exact fun here => absurd here (unlocked.resolve_left (not_not.mpr rfl))
      · rw [← Option.some.inj moved]
        intro here
        show max 0 ((k.scheduler.lockNest - 1).bmod 65536) = 0
        rw [ranks.unlocked here]
        decide
  have still := ranks.good.runs_on allowed running moved ranks.running
  refine ⟨good', still, fun t relay => (kept t relay).1, ?_, ?_, locks, ?_⟩
  · rw [(kept _ (Or.inl rfl)).2]
    exact ranks.ble
  · intro b watched
    rw [(kept _ (relay_thread watched)).2]
    exact ranks.ranked b watched
  · intro b t member
    rcases ranks.good.joins allowed running moved member with before | ⟨here, flag, time, rfl⟩
    · exact ranks.lists b t before
    · exact lists b t here ⟨flag, time, rfl⟩

theorem Resting.next (resting : Resting k s) (ranks : Ranks k) (allowed : Threads.Allowed idleThread k act)
    (running : act ≠ .start) (moved : k.next act = some k')
    (waits : ∀ b flag time, act = .wait (suspendThread b) flag time →
      (s.post b).reader = .waiting ∧ (s.post b).mb.queue = []) : Resting k' s := by
  intro b member
  rcases ranks.good.joins allowed running moved member with before | ⟨-, flag, time, same⟩
  · exact resting b before
  · exact waits b flag time same

/-- A step that waits for none of the boxes. -/
theorem Ranks.apart (ranks : Ranks k) (resting : Resting k s) (allowed : Threads.Allowed idleThread k act)
    (running : act ≠ .start)
    (own : ∀ t, Relay t → k.Aloof t act ∨ (∃ tick, act = .sleep tick) ∨ ∃ o flag time, act = .wait o flag time)
    (away : ∀ b flag time, act ≠ .wait (suspendThread b) flag time)
    (unlocked : act ≠ .enterCritical ∨ k.scheduler.current ≠ some bleThread) (moved : k.next act = some k') :
    Ranks k' ∧ Resting k' s := by
  refine ⟨ranks.next allowed running own ?_ unlocked moved, resting.next ranks allowed running moved ?_⟩
  · rintro b t - ⟨flag, time, same⟩
    exact absurd same (away b flag time)
  · intro b flag time same
    exact absurd same (away b flag time)

/-- A thread that runs waits nowhere. -/
theorem Ranks.free_of_runs (ranks : Ranks k) (runs : k.Runs t) (o : Nat) : t ∉ k.scheduler.waiting o := by
  apply ranks.good.scheduler.waits.free
  rw [runs.2]
  exact Stat.noConfusion

theorem Resting.set (resting : Resting k s) (others : ∀ c, c ≠ b → s'.post c = s.post c)
    (away : thread b ∉ k.scheduler.waiting (suspendThread b)) : Resting k s' := by
  intro c member
  by_cases same : c = b
  · subst same
    exact absurd member away
  · rw [others c same]
    exact resting c member

/-- A consumer that is neither ready nor running has nothing left to do. -/
theorem idle_of_parked (ranks : Ranks k) (resting : Resting k s) (watched : b ≠ .mbTime)
    (ready : (k.scheduler.thread (thread b)).stat ≠ .ready) (running : (k.scheduler.thread (thread b)).stat ≠ .running)
    (free : (k.scheduler.thread (thread b)).stat = .suspend → thread b ∈ k.scheduler.waiting (suspendThread b)) :
    (s.post b).mb.queue = [] ∧ (s.post b).reader = .waiting := by
  have started := ranks.started (thread b) (relay_thread watched)
  have asleep : (k.scheduler.thread (thread b)).stat = .suspend := by
    cases stat : (k.scheduler.thread (thread b)).stat with
    | init => exact absurd stat started.1
    | ready => exact absurd stat ready
    | suspend => rfl
    | running => exact absurd stat running
    | close => exact absurd stat started.2
  exact (resting b (free asleep)).symm

/-- A consumer that is more urgent than the thread that leads is neither ready nor running. -/
theorem parked_of_leads (ranks : Ranks k) (leads : k.scheduler.Leads t)
    (low : priority b < (k.scheduler.thread t).currentPriority) (watched : b ≠ .mbTime) :
    (k.scheduler.thread (thread b)).stat ≠ .ready ∧ (k.scheduler.thread (thread b)).stat ≠ .running := by
  have rank := ranks.ranked b watched
  constructor
  · intro ready
    have first := leads.first (thread b) ready
    rw [rank] at first
    exact absurd low (Nat.not_lt_of_le first)
  · intro running
    obtain rfl : t = thread b :=
      Option.some.inj (leads.current.symm.trans (ranks.good.scheduler.running (thread b) running))
    exact absurd (rank ▸ low) (Nat.lt_irrefl _)

theorem priority_lt (watched : b ≠ .mbTime) : priority b < blePriority := by
  cases b with
  | mb6288 => decide
  | mbOled => decide
  | mbTime => exact absurd rfl watched

/-- After `rt_schedule` the parser has the processor only if the consumers are not ready. -/
theorem Turns.of_leads {c : Nat} (ranks : Ranks k) (leads : k.scheduler.Leads c) : Turns k owing := by
  intro here
  obtain rfl : bleThread = c := Option.some.inj (here.symm.trans leads.current)
  right
  intro b watched
  exact (parked_of_leads ranks leads (ranks.ble ▸ priority_lt watched) watched).1

theorem prompt_of_goes (ranks : Ranks m.kernel) (resting : Resting m.kernel m.board)
    (turns : Turns m.kernel m.owing) (goes : m.Goes bleThread) (free : m.Free) : Board.Prompt m.board .parser := by
  intro _ _ b watched
  have ready : (m.kernel.scheduler.thread (thread b)).stat ≠ .ready := by
    rcases turns goes.1.1 with owes | quiet
    · exact absurd (owes.symm.trans goes.2) Bool.true_eq_false.mp
    · exact quiet b watched
  have running : (m.kernel.scheduler.thread (thread b)).stat ≠ .running := by
    intro run
    have here := ranks.good.scheduler.running (thread b) run
    exact thread_ne_ble b (Option.some.inj (here.symm.trans goes.1.1))
  obtain ⟨empty, waits⟩ := idle_of_parked ranks resting watched ready running (free b watched)
  rw [waits]
  exact ⟨empty, trivial⟩

/-! ### The moves -/

structure Agrees (m : Scheduled) : Prop where
  ranks : Ranks m.kernel
  resting : Resting m.kernel m.board
  turns : Turns m.kernel m.owing

theorem parserStep_post (moved : s.parserStep = some s') :
    (s.line.todo = [] → s'.post = s.post) ∧ ∀ b rest, s.line.todo = b :: rest →
      s'.post b = (s.post b).send s.line.mail ∧ ∀ c, c ≠ b → s'.post c = s.post c := by
  unfold Board.parserStep at moved
  split at moved
  · rename_i b rest todo
    rw [← Option.some.inj moved]
    refine ⟨fun none => absurd (todo.symm.trans none) (List.cons_ne_nil b rest), ?_⟩
    intro c more same
    obtain ⟨rfl, rfl⟩ := List.cons.inj (todo.symm.trans same)
    exact ⟨Board.setPost_same s b _, fun c differs => Board.setPost_other s _ differs⟩
  · rename_i idle
    refine ⟨fun _ => ?_, fun b rest some => absurd (idle.symm.trans some) (List.cons_ne_nil b rest).symm⟩
    split at moved
    · cases moved
    · split at moved
      · rw [← Option.some.inj moved]
      · rw [← Option.some.inj moved]

theorem consumerStep_post (moved : s.consumerStep utf82gbk b = some s') : ∀ c, c ≠ b → s'.post c = s.post c := by
  intro c differs
  cases @Board.step_of_next utf82gbk s s' (.consumer b) .zeroed [] moved with
  | boot => exact Board.setPost_other s _ differs
  | poll => rfl
  | receive => exact Board.setPost_other s _ differs
  | copy => exact Board.setPost_other s _ differs
  | handle =>
    rw [Board.handle_post]
    exact Board.setPost_other s _ differs

theorem Turns.owe (k : Threads) (owing : Nat → Bool) : Turns k (Function.update owing bleThread true) :=
  fun _ => Or.inl (Function.update_self _ _ _)

/-- A step that is not about the consumers: it makes none of them ready, or it goes on to `rt_schedule`. -/
theorem Turns.next (turns : Turns k owing) (ranks : Ranks k) (ranks' : Ranks k')
    (allowed : Threads.Allowed idleThread k act) (running : act ≠ .start) (wake : wakes act = false)
    (away : k.scheduler.current = some bleThread → ∀ b, b ≠ .mbTime → k.Aloof (thread b) act)
    (moved : k.next act = some k') : Turns k' owing := by
  intro here
  by_cases before : k.scheduler.current = some bleThread
  · rcases turns before with owes | quiet
    · exact Or.inl owes
    · by_cases leads : ∃ c, k'.scheduler.Leads c
      · obtain ⟨c, leads⟩ := leads
        exact Turns.of_leads ranks' leads here
      · right
        intro b watched ready
        have parked : ¬ k.scheduler.Active (thread b) := by
          rintro (before' | run)
          · exact quiet b watched before'
          · have there := ranks.good.scheduler.running (thread b) run
            exact thread_ne_ble b (Option.some.inj (there.symm.trans before))
        have still : Threads.Quiet k k' (thread b) → False := by
          intro same
          have stat := (same.parked parked).symm.trans ready
          exact parked (Or.inl stat)
        rcases ranks.good.others allowed (away before b watched) moved with same | ⟨woken, -⟩ | ⟨rfl, -⟩
        · exact still same
        · cases act with
          | wake o => exact Bool.noConfusion wake
          | unlink u =>
            obtain rfl := Option.some.inj woken
            exact away before b watched rfl
          | _ => cases woken
        · rcases Threads.tick_rouses ranks.good allowed moved with same | leads'
          · exact still (same (thread b))
          · exact leads (leads' (ranks.unlocked before))
  · have plain : Threads.Plain act ∨ k'.scheduler.current = k.scheduler.current := by
      by_cases plain : Threads.Plain act
      · exact Or.inl plain
      · rcases (Threads.not_plain plain).resolve_left running with rfl | rfl
        · exact Or.inr (by rw [← Option.some.inj moved]; rfl)
        · exact Or.inr (by rw [← Option.some.inj moved]; rfl)
    rcases plain with plain | same
    · rcases (ranks.good.hands allowed plain moved).current with same | ⟨-, c, leads⟩
      · exact absurd (same.symm.trans here) before
      · exact Turns.of_leads ranks' leads here
    · exact absurd (same.symm.trans here) before

/-- The thread that waits for a mail of `b` is woken. -/
theorem woken_away (ranks : Ranks k) (ranks' : Ranks k')
    (woke : k.rtIpcListResume (suspendThread b) = some k') :
    thread b ∉ k'.scheduler.waiting (suspendThread b) := by
  obtain ⟨t, first, called⟩ := Option.bind_eq_some_iff.mp woke
  have member := List.mem_of_mem_head? first
  obtain rfl := ranks.lists b t member
  have roused := Threads.resume_roused ranks.good (ranks.good.scheduler.waits.suspended _ _ member) called
  apply ranks'.good.scheduler.waits.free
  rcases roused.active with ready | run
  · rw [ready]
    exact Stat.noConfusion
  · rw [run]
    exact Stat.noConfusion

theorem parser_agrees (agrees : Agrees m) (moved : m.parserMove = some n) : Agrees n := by
  unfold parserMove at moved
  split at moved
  · rename_i goes
    obtain ⟨s, stepped, moved⟩ := Option.bind_eq_some_iff.mp moved
    obtain ⟨idle, sends⟩ := parserStep_post stepped
    split at moved
    · rename_i todo
      rw [← Option.some.inj moved]
      refine ⟨agrees.ranks, ?_, agrees.turns⟩
      intro b member
      dsimp only
      rw [idle todo]
      exact agrees.resting b member
    · rename_i b rest todo
      obtain ⟨-, others⟩ := sends b rest todo
      split at moved
      · rename_i wakes
        obtain ⟨k, woke, rfl⟩ := Option.map_eq_some_iff.mp moved
        have allowed : Threads.Allowed idleThread m.kernel (.wake (suspendThread b)) := wakes.2
        have running : ThreadAct.wake (suspendThread b) ≠ .start := ThreadAct.noConfusion
        obtain ⟨ranks, resting⟩ := agrees.ranks.apart agrees.resting allowed running (fun _ _ => Or.inl trivial)
          (fun _ _ _ => ThreadAct.noConfusion) (Or.inl ThreadAct.noConfusion) woke
        exact ⟨ranks, resting.set others (woken_away agrees.ranks ranks woke), Turns.owe k m.owing⟩
      · rename_i quiet
        rw [← Option.some.inj moved]
        refine ⟨agrees.ranks, agrees.resting.set others ?_, agrees.turns⟩
        intro member
        apply quiet
        obtain ⟨-, empty⟩ := agrees.resting b member
        have entry : (m.board.post b).mb.entry = 0 := by
          rw [← Mailbox.queue_length, empty]
          rfl
        have size := (m.board.post b).mb.out_lt
        refine ⟨?_, List.ne_nil_of_mem member⟩
        rw [Mailbox.full, beq_eq_false_iff_ne]
        omega
  · cases moved

theorem consumer_agrees (agrees : Agrees m) (moved : m.consumerMove utf82gbk b = some n) : Agrees n := by
  unfold consumerMove at moved
  split at moved
  · rename_i goes
    split at moved
    · rename_i waits
      obtain ⟨watched, waiting, entry⟩ := waits
      obtain ⟨k, parked, rfl⟩ := Option.map_eq_some_iff.mp moved
      have empty : (m.board.post b).mb.queue = [] := by
        rw [← List.length_eq_zero_iff, Mailbox.queue_length]
        exact entry
      have called : m.kernel.next (.wait (suspendThread b) .fifo none) = some k := parked
      have allowed : Threads.Allowed idleThread m.kernel (.wait (suspendThread b) .fifo none) :=
        ⟨⟨thread b, goes.1, relay_ne_idle (relay_thread watched)⟩, fun _ given => absurd given (Option.not_mem_none _)⟩
      have running : ThreadAct.wait (suspendThread b) .fifo none ≠ .start := ThreadAct.noConfusion
      have ranks : Ranks k := by
        refine agrees.ranks.next allowed running (fun _ _ => Or.inr (Or.inr ⟨_, _, _, rfl⟩)) ?_
          (Or.inl ThreadAct.noConfusion) called
        rintro c t here ⟨flag, time, same⟩
        obtain ⟨same, -⟩ := ThreadAct.wait.inj same
        rw [← suspendThread_injective same]
        exact Option.some.inj (here.symm.trans goes.1.1)
      refine ⟨ranks, ?_, ?_⟩
      · refine agrees.resting.next agrees.ranks allowed running called fun c flag time same => ?_
        obtain ⟨same, -⟩ := ThreadAct.wait.inj same
        rw [← suspendThread_injective same]
        exact ⟨waiting, empty⟩
      · have away : m.kernel.scheduler.current ≠ some bleThread := fun here =>
          thread_ne_ble b (Option.some.inj (goes.1.1.symm.trans here))
        exact Turns.next (fun here => absurd here away) agrees.ranks ranks allowed running rfl
          (fun here => absurd here away) called
    · obtain ⟨s, stepped, rfl⟩ := Option.map_eq_some_iff.mp moved
      have resting := agrees.resting.set (consumerStep_post stepped) (agrees.ranks.free_of_runs goes.1 _)
      exact ⟨agrees.ranks, resting, agrees.turns⟩
  · cases moved

theorem call_cases (moved : m.call act = some n) : ∃ t k, m.kernel.scheduler.current = some t ∧
    m.kernel.next act = some k ∧
      (act = .schedule ∧ n = m.owe t false k ∨ act ≠ .schedule ∧ m.Goes t ∧ n = m.owe t (wakes act) k) := by
  obtain ⟨t, here, moved⟩ := Option.bind_eq_some_iff.mp moved
  split at moved
  · obtain ⟨k, called, rfl⟩ := Option.map_eq_some_iff.mp moved
    exact ⟨t, k, here, called, Or.inl ⟨rfl, rfl⟩⟩
  · rename_i other
    split at moved
    · rename_i goes
      obtain ⟨k, called, rfl⟩ := Option.map_eq_some_iff.mp moved
      exact ⟨t, k, here, called, Or.inr ⟨other, goes, rfl⟩⟩
    · cases moved

/-- `rt_schedule` has just been called. -/
theorem Turns.scheduled (ranks : Ranks k) (ranks' : Ranks k') (called : k.next .schedule = some k') :
    Turns k' owing := by
  intro here
  obtain ⟨s, scheduled, rfl⟩ := Option.map_eq_some_iff.mp called
  have lock := (Threads.schedule_hands ranks.good ranks.running scheduled).lock
  obtain ⟨c, leads⟩ := ranks.good.leads ranks.running (lock.symm.trans (ranks'.unlocked here)) scheduled
  exact Turns.of_leads ranks' leads here

theorem call_agrees (agrees : Agrees m) (minds : m.Minds (.call act)) (moved : m.call act = some n) : Agrees n := by
  obtain ⟨allowed, apart⟩ := minds
  obtain ⟨t, k, here, called, result⟩ := call_cases moved
  have running : act ≠ .start := by
    rintro rfl
    exact apart
  have away : ∀ b flag time, act ≠ .wait (suspendThread b) flag time := by
    rintro b flag time rfl
    exact apart b rfl
  have unlocked : act ≠ .enterCritical ∨ m.kernel.scheduler.current ≠ some bleThread := by
    by_cases locks : act = .enterCritical
    · subst locks
      exact Or.inr apart
    · exact Or.inl locks
  obtain ⟨ranks, resting⟩ := agrees.ranks.apart agrees.resting allowed running (fun _ relay => apart.own relay) away
    unlocked called
  rcases result with ⟨rfl, rfl⟩ | ⟨other, goes, rfl⟩
  · exact ⟨ranks, resting, Turns.scheduled agrees.ranks ranks called⟩
  · refine ⟨ranks, resting, ?_⟩
    show Turns k (Function.update m.owing t (wakes act))
    cases woke : wakes act with
    | true =>
      by_cases same : t = bleThread
      · rw [same]
        exact Turns.owe k m.owing
      · intro now
        have plain : Threads.Plain act := by
          cases act <;> trivial
        rcases (agrees.ranks.good.hands allowed plain called).current with stays | ⟨-, c, leads⟩
        · exact absurd (Option.some.inj (here.symm.trans (stays.symm.trans now))) same
        · exact Turns.of_leads ranks leads now
    | false =>
      have owing : Function.update m.owing t false = m.owing := by
        rw [← goes.2, Function.update_eq_self]
      rw [owing]
      refine agrees.turns.next agrees.ranks ranks allowed running woke ?_ called
      intro now b watched
      obtain rfl : t = bleThread := Option.some.inj (here.symm.trans now)
      have elsewhere : m.kernel.scheduler.current ≠ some (thread b) := fun there =>
        thread_ne_ble b (Option.some.inj (there.symm.trans now))
      rcases apart.own (relay_thread watched) with aloof | ⟨tick, rfl⟩ | ⟨o, flag, time, rfl⟩
      · exact aloof
      · exact elsewhere
      · exact elsewhere

theorem tick_agrees (agrees : Agrees m) (called : m.kernel.next .tick = some k) : Agrees { m with kernel := k } := by
  have allowed : Threads.Allowed idleThread m.kernel .tick := agrees.ranks.running
  obtain ⟨ranks, resting⟩ := agrees.ranks.apart agrees.resting allowed ThreadAct.noConfusion
    (fun _ _ => Or.inl trivial) (fun _ _ _ => ThreadAct.noConfusion) (Or.inl ThreadAct.noConfusion) called
  exact ⟨ranks, resting, agrees.turns.next agrees.ranks ranks allowed ThreadAct.noConfusion rfl
    (fun _ _ _ => trivial) called⟩

theorem interrupt_agrees (agrees : Agrees m) (minds : m.Minds (.interrupt o))
    (moved : m.next utf82gbk (.interrupt o) = some n) : Agrees n := by
  obtain ⟨k, woke, moved⟩ := Option.bind_eq_some_iff.mp moved
  obtain ⟨l, called, rfl⟩ := Option.map_eq_some_iff.mp moved
  have allowed : Threads.Allowed idleThread m.kernel (.wake o) := minds.1
  obtain ⟨ranks, resting⟩ := agrees.ranks.apart agrees.resting allowed ThreadAct.noConfusion
    (fun _ _ => Or.inl trivial) (fun _ _ _ => ThreadAct.noConfusion) (Or.inl ThreadAct.noConfusion) woke
  have allowed' : Threads.Allowed idleThread k .schedule := ranks.running
  obtain ⟨ranks', resting'⟩ := ranks.apart resting allowed' ThreadAct.noConfusion (fun _ _ => Or.inl trivial)
    (fun _ _ _ => ThreadAct.noConfusion) (Or.inl ThreadAct.noConfusion) called
  exact ⟨ranks', resting', Turns.scheduled ranks ranks' called⟩

theorem Agrees.next {move : Move} (agrees : Agrees m) (minds : m.Minds move)
    (moved : m.next utf82gbk move = some n) : Agrees n := by
  cases move with
  | parser => exact parser_agrees agrees moved
  | consumer b => exact consumer_agrees agrees moved
  | call act => exact call_agrees agrees minds moved
  | tick =>
    obtain ⟨k, called, rfl⟩ := Option.map_eq_some_iff.mp moved
    exact tick_agrees agrees called
  | interrupt o => exact interrupt_agrees agrees minds moved

/-! ### Every run -/

theorem Booted.agrees (booted : Booted k) (p : Parser) (stream : List UInt8) :
    Agrees ⟨k, .start p stream, fun _ => false⟩ := by
  obtain ⟨c, leads⟩ := booted.leads
  have ranks : Ranks k := by
    refine ⟨Threads.Good.reached booted.reached, ?_, booted.started, booted.ble, booted.ranked,
      fun _ => booted.unlocked, ?_⟩
    · rw [leads.current]
      exact Option.some_ne_none c
    · intro b t member
      rw [booted.free b] at member
      exact absurd member List.not_mem_nil
  refine ⟨ranks, ?_, Turns.of_leads ranks leads⟩
  · intro b member
    dsimp only at member
    rw [booted.free b] at member
    exact absurd member List.not_mem_nil

/-- The board's part of a move is a step of the board, or nothing. -/
theorem board_step {move : Move} (agrees : Agrees m) (minds : m.Minds move) (moved : m.next utf82gbk move = some n) :
    n.board = m.board ∨ ∃ a, m.board.Prompt a ∧ (Board.board utf82gbk p stream).next m.board a = some n.board := by
  cases move with
  | parser =>
    have moved : m.parserMove = some n := moved
    unfold parserMove at moved
    split at moved
    · rename_i goes
      have prompt := prompt_of_goes agrees.ranks agrees.resting agrees.turns goes minds
      obtain ⟨s, stepped, moved⟩ := Option.bind_eq_some_iff.mp moved
      have same : n.board = s := by
        split at moved
        · rw [← Option.some.inj moved]
        · split at moved
          · obtain ⟨k, -, rfl⟩ := Option.map_eq_some_iff.mp moved
            rfl
          · rw [← Option.some.inj moved]
      refine Or.inr ⟨.parser, prompt, ?_⟩
      rw [same]
      exact stepped
    · cases moved
  | consumer b =>
    have moved : m.consumerMove utf82gbk b = some n := moved
    unfold consumerMove at moved
    split at moved
    · split at moved
      · obtain ⟨k, -, rfl⟩ := Option.map_eq_some_iff.mp moved
        exact Or.inl rfl
      · obtain ⟨s, stepped, rfl⟩ := Option.map_eq_some_iff.mp moved
        exact Or.inr ⟨.consumer b, fun parser => Act.noConfusion parser, stepped⟩
    · cases moved
  | call act =>
    obtain ⟨t, k, -, -, ⟨-, rfl⟩ | ⟨-, -, rfl⟩⟩ := call_cases moved
    · exact Or.inl rfl
    · exact Or.inl rfl
  | tick =>
    obtain ⟨k, -, rfl⟩ := Option.map_eq_some_iff.mp moved
    exact Or.inl rfl
  | interrupt o =>
    obtain ⟨k, -, moved⟩ := Option.bind_eq_some_iff.mp moved
    obtain ⟨l, -, rfl⟩ := Option.map_eq_some_iff.mp moved
    exact Or.inl rfl

theorem scheduled_agrees (booted : Booted k) (reached : (scheduled utf82gbk p stream k).Guarded Minds m) :
    Agrees m ∧ (Board.board utf82gbk p stream).Guarded Board.Prompt m.board := by
  apply reached.invariant (P := fun m => Agrees m ∧ (Board.board utf82gbk p stream).Guarded Board.Prompt m.board)
  · exact ⟨booted.agrees p stream, .start⟩
  · rintro m move n ⟨agrees, board⟩ minds moved
    refine ⟨agrees.next minds moved, ?_⟩
    rcases @board_step utf82gbk m n p stream move agrees minds moved with same | ⟨a, prompt, stepped⟩
    · rw [same]
      exact board
    · exact .step a board prompt stepped

end Scheduled

/-! ### Between two messages -/

namespace Board
variable {utf82gbk : List UInt8 → List UInt8} {s t : Board} {p : Parser} {stream x rest : List UInt8} {b : Box}

/-- The board with `x` still to come. -/
def cut (x : List UInt8) (s : Board) : Board := { s with line := { s.line with input := x } }

theorem cut_consumerStep (x : List UInt8) (s : Board) (b : Box) :
    (s.cut x).consumerStep utf82gbk b = (s.consumerStep utf82gbk b).map (cut x) := by
  unfold consumerStep cut
  dsimp only
  cases (s.post b).reader with
  | booting => rfl
  | waiting =>
    dsimp only
    cases (s.post b).receive (startIndex b) with
    | none =>
      dsimp only
      split
      · rfl
      · rfl
    | some q => rfl
  | copying mail k copied => rfl
  | handling mail copied => cases b <;> rfl
  | overrun mail => rfl

theorem cut_parserStep (step : Step utf82gbk s .parser t) (input : t.line.input = x ++ rest) :
    ∃ y, s.line.input = y ++ rest ∧ (s.cut y).parserStep = some (t.cut x) ∧
      s.line.consumed ++ y = t.line.consumed ++ x := by
  cases step with
  | @payload ch more idle next differs =>
    have same : more = x ++ rest := input
    refine ⟨ch :: x, by rw [next, same, List.cons_append], ?_, ?_⟩
    · unfold parserStep cut
      rw [idle]
      exact if_neg differs
    · exact (List.append_assoc _ [ch] x).symm
  | @terminator more idle next =>
    have same : more = x ++ rest := input
    refine ⟨dataCmdEnd :: x, by rw [next, same, List.cons_append], ?_, ?_⟩
    · unfold parserStep cut
      rw [idle]
      exact if_pos rfl
    · exact (List.append_assoc _ [dataCmdEnd] x).symm
  | send next =>
    refine ⟨x, input, ?_, rfl⟩
    unfold parserStep cut
    rw [next]
    rfl

/-- What has not come in yet plays no part. -/
theorem guarded_cut (reached : (board utf82gbk p stream).Guarded Prompt s) (input : s.line.input = x ++ rest) :
    (board utf82gbk p (s.line.consumed ++ x)).Guarded Prompt (s.cut x) := by
  induction reached generalizing x with
  | start => exact .start
  | @step s t a reached prompt moved ih =>
    have step := step_of_next moved
    cases a with
    | parser =>
      obtain ⟨y, input', moved', same⟩ := cut_parserStep step input
      rw [← same]
      exact .step .parser (ih input') prompt moved'
    | consumer b =>
      obtain ⟨line, -⟩ := consumer_frame step
      rw [line] at input ⊢
      refine .step (.consumer b) (ih input) (fun parser => Act.noConfusion parser) ?_
      show (s.cut x).consumerStep utf82gbk b = _
      rw [cut_consumerStep]
      exact congrArg (Option.map (cut x)) moved

end Board

namespace Scheduled
variable {utf82gbk : List UInt8 → List UInt8} {m : Scheduled} {k : Threads} {p : Parser} {stream : List UInt8}
  {t : Nat} {b : Box}

/-- When a thread that is no more urgent than the parser has the processor, the consumers are done. -/
theorem served_of_leads (agrees : Agrees m) (leads : m.kernel.scheduler.Leads t)
    (low : blePriority ≤ (m.kernel.scheduler.thread t).currentPriority) (free : m.Free) (watched : b ≠ .mbTime) :
    (m.board.post b).mb.queue = [] ∧ (m.board.post b).reader = .waiting := by
  have below := Nat.lt_of_lt_of_le (priority_lt watched) low
  obtain ⟨ready, running⟩ := parked_of_leads agrees.ranks leads below watched
  exact idle_of_parked agrees.ranks agrees.resting watched ready running (free b watched)

theorem cut_exhausted {s : Board} (todo : s.line.todo = [])
    (served : ∀ b, b ≠ .mbTime → (s.post b).mb.queue = [] ∧ (s.post b).reader = .waiting) :
    (Board.board utf82gbk p stream).Exhausted Board.Prompt Board.counted (s.cut []) := by
  intro a counts _
  cases a with
  | parser =>
    show (s.cut []).parserStep = none
    unfold Board.parserStep Board.cut
    dsimp only
    rw [todo]
  | consumer b =>
    have watched : b ≠ .mbTime := by
      rintro rfl
      exact absurd counts (by decide)
    obtain ⟨empty, waiting⟩ := served b watched
    show (s.cut []).consumerStep utf82gbk b = none
    rw [Board.cut_consumerStep]
    unfold Board.consumerStep
    rw [waiting]
    dsimp only
    rw [Post.receive, Mailbox.rtMbRecv_none.mpr empty]
    dsimp only [Option.map_none]
    rw [if_neg watched]
    rfl

/-- The priorities see to it that `main` and `u8g2_get_txt` handle each mail before the next byte is stored. No
mail to them is refused and none is overwritten, and whenever a thread that is no more urgent than the parser has
the processor between two messages, all that came in so far has been echoed, spoken, shown and sent on. -/
theorem priorities_suffice (nulFree : ∀ m, 0 ∉ m → 0 ∉ utf82gbk m)
    (short : ∀ seg ∈ completed dataCmdEnd stream, seg.length ≤ 30) (booted : Booted k)
    (reached : (scheduled utf82gbk p stream k).Guarded Minds m) :
    (Board.board utf82gbk p stream).Guarded Board.Prompt m.board ∧
      (∀ b, b ≠ .mbTime → (∀ x ∈ m.board.attempts b, x.level ≠ 8) ∧
        ∀ x ∈ (m.board.post b).copies, x.2 = cstr x.1.segment) ∧
      ∀ t, m.kernel.scheduler.Leads t → blePriority ≤ (m.kernel.scheduler.thread t).currentPriority → m.Free →
        m.board.line.todo = [] → Board.Outcome utf82gbk m.board.line.consumed m.board := by
  obtain ⟨agrees, board⟩ := scheduled_agrees booted reached
  have relayed := Board.guarded_relayed short board
  refine ⟨board, ?_, ?_⟩
  · intro b watched
    refine ⟨(relayed.punctual b watched).kept, ?_⟩
    intro x member
    have delivers := Board.guarded_delivers short (board.mono fun _ _ => Board.Prompt.harmless) b watched
    rw [delivers.copied x member]
    cases b with
    | mb6288 => rfl
    | mbOled => rfl
    | mbTime => exact absurd rfl watched
  · intro t leads low free todo
    have served : ∀ b, b ≠ .mbTime → (m.board.post b).mb.queue = [] ∧ (m.board.post b).reader = .waiting :=
      fun b watched => served_of_leads agrees leads low free watched
    have cut := Board.guarded_cut board (List.nil_append m.board.line.input).symm
    rw [List.append_nil] at cut
    have short' : ∀ seg ∈ completed dataCmdEnd m.board.line.consumed, seg.length ≤ 30 :=
      fun seg member => short seg (relayed.sound.completed_subset seg member)
    obtain ⟨echoed, spoken, shown, times⟩ :=
      Board.outcome_of_exhausted nulFree short' cut (cut_exhausted todo served)
    exact ⟨echoed, spoken, shown, times⟩

instance (t : Nat) : Decidable (Relay t) := inferInstanceAs (Decidable (_ ∨ _ ∨ _))

instance (m : Scheduled) : Decidable m.Free := inferInstanceAs (Decidable (∀ b : Box, b ≠ .mbTime → _ → _))

instance decidableApart (k : Threads) : ∀ act, Decidable (Apart k act)
  | .init _ _ _ | .startup _ | .suspend _ | .unlink _ | .insert _ | .changePriority _ _ =>
    inferInstanceAs (Decidable (¬ Relay _))
  | .wait _ _ _ | .wake _ => inferInstanceAs (Decidable (∀ _ : Box, _))
  | .exit => inferInstanceAs (Decidable (∀ t ∈ k.scheduler.current, ¬ Relay t))
  | .enterCritical => inferInstanceAs (Decidable (_ ≠ _))
  | .start | .tick => .isFalse id
  | .schedule | .yield | .sleep _ | .exitCritical => .isTrue trivial

instance decidableMinds (m : Scheduled) : ∀ move, Decidable (m.Minds move)
  | .parser => inferInstanceAs (Decidable m.Free)
  | .consumer _ | .tick => .isTrue trivial
  | .call _ => inferInstanceAs (Decidable (_ ∧ _))
  | .interrupt _ => inferInstanceAs (Decidable (_ ∧ ∀ _ : Box, _))

/-- The idle thread, `main`, `data_parsing` and `oled_text`. -/
def bootActs : List ThreadAct :=
  Threads.boot ++ [.init bleThread 25 10, .startup bleThread, .unlink bleThread, .insert bleThread, .schedule,
    .init 3 20 20, .startup 3, .unlink 3, .insert 3]

theorem booted_of_run (ran : (Threads.system.run bootActs Threads.system.start).bind (·.next .schedule) = some k) :
    Booted k := by
  obtain ⟨l, first, last⟩ := Option.bind_eq_some_iff.mp ran
  have meets : Threads.system.Meets (Threads.Allowed idleThread) bootActs Threads.system.start := by decide +kernel
  have reached := System.guarded_of_run .start meets first
  have before : ∀ l ∈ Threads.system.run bootActs Threads.system.start,
      l.scheduler.current ≠ none ∧ l.scheduler.lockNest = 0 := by decide +kernel
  have facts : ∀ k ∈ (Threads.system.run bootActs Threads.system.start).bind (·.next .schedule),
      k.scheduler.lockNest = 0 ∧ (k.scheduler.thread bleThread).currentPriority = blePriority ∧
      (∀ b : Box, b ≠ .mbTime → (k.scheduler.thread (thread b)).currentPriority = priority b) ∧
      (∀ b : Box, k.scheduler.waiting (suspendThread b) = []) ∧
      (k.scheduler.thread bleThread).stat = .ready ∧ (k.scheduler.thread 1).stat = .running ∧
      (k.scheduler.thread 3).stat = .ready := by decide +kernel
  obtain ⟨running, unlocked⟩ := before l first
  obtain ⟨unlocked', ble, ranked, free, started⟩ := facts k ran
  obtain ⟨s, called, rfl⟩ := Option.map_eq_some_iff.mp last
  have good := Threads.Good.reached reached
  refine ⟨.step .schedule reached running last, good.leads running unlocked called, unlocked', ?_, ble, ranked, free⟩
  rintro t (rfl | rfl | rfl)
  · exact Scheduler.started_of_stat started.1 ⟨Stat.noConfusion, Stat.noConfusion⟩
  · exact Scheduler.started_of_stat started.2.1 ⟨Stat.noConfusion, Stat.noConfusion⟩
  · exact Scheduler.started_of_stat started.2.2 ⟨Stat.noConfusion, Stat.noConfusion⟩

/-- The message `b` up to the idle thread, with a tick between the two sends. -/
theorem priorities_suffice_one : ∃ m : Scheduled, m.kernel.scheduler.current = some idleThread ∧
    m.board.frames = [synInitCMD, [98]] ∧ m.board.shown = [[98]] := by
  let stream : List UInt8 := [98, 97]
  let moves : List Move := List.flatten [
    [.consumer .mb6288, .consumer .mb6288, .call .schedule, .consumer .mbOled, .call .schedule],
    List.replicate 3 .parser, [.call .schedule], List.replicate 5 (.consumer .mb6288),
    [.call .schedule, .parser, .tick, .call .schedule], List.replicate 5 (.consumer .mbOled),
    [.call .schedule, .call (.wait 5 .fifo none), .call .schedule]]
  let kernel := (Threads.system.run bootActs Threads.system.start).bind (·.next .schedule)
  let system (k : Threads) := scheduled id .zeroed stream k
  have boots : kernel.isSome = true := by decide +kernel
  obtain ⟨k, ran⟩ := Option.isSome_iff_exists.mp boots
  have meets : ∀ k ∈ kernel, (system k).Meets Minds moves (system k).start := by decide +kernel
  have ends : ∀ k ∈ kernel, ((system k).run moves (system k).start).map (fun m =>
      decide (m.kernel.Runs idleThread ∧ m.kernel.scheduler.group = 0 ∧
        blePriority ≤ (m.kernel.scheduler.thread idleThread).currentPriority ∧ m.Free ∧
        m.board.line.todo = [] ∧ m.board.line.consumed = stream)) = some true := by decide +kernel
  obtain ⟨m, moved, last⟩ := Option.map_eq_some_iff.mp (ends k ran)
  obtain ⟨runs, clear, low, free, todo, consumed⟩ := of_decide_eq_true last
  have booted := booted_of_run ran
  have reached : (system k).Guarded Minds m := System.guarded_of_run .start (meets k ran) moved
  have queues := (scheduled_agrees booted reached).1.ranks.good.scheduler.queues
  have leads : m.kernel.scheduler.Leads idleThread := by
    refine ⟨runs.1, runs.2, ?_⟩
    intro u ready
    have member := (queues.queued _ u).mpr ⟨ready, rfl⟩
    rw [queues.empty clear] at member
    exact absurd member List.not_mem_nil
  obtain ⟨-, -, outcome⟩ := priorities_suffice (fun _ nul => nul) (by decide +kernel) booted reached
  obtain ⟨-, spoken, shown, -⟩ := outcome idleThread leads low free todo
  rw [consumed] at spoken shown
  exact ⟨m, runs.1, spoken, shown⟩

end Scheduled
end BleSpeaker.Ble
