import BleSpeaker.Ble.Relay

/-!
# From the stream to the speaker and the display

What comes out of a whole prompt run. A rank bounds the steps of the parser, `main` and
`u8g2_get_txt`, so a run that goes on as long as it can comes to the end of the stream, and there
the invariants of the three legs join: every message of the stream is echoed, spoken, shown or sent
on to the clock, as its first byte and its contents say.
-/

namespace BleSpeaker.Ble
open Kernel Lib

/-! ### The steps that are left -/

def Reader.rank : Reader → Nat
  | .booting | .handling _ _ => 1
  | .waiting | .overrun _ => 0
  | .copying _ k _ => 34 - min k 31

def Post.rank (p : Post) : Nat := 40 * p.mb.entry + p.reader.rank

namespace Post
variable {p : Post} {mail : Mail} {mb : Mailbox Mail} {k start : Nat} {data copied : List UInt8}

theorem rank_send (p : Post) (mail : Mail) : (p.send mail).rank ≤ p.rank + 40 := by
  by_cases full : p.mb.entry = p.mb.size
  · simp [Post.send, rank, Mailbox.rtMbSend_full full]
  · have grown : (p.mb.rtMbSend mail).2.entry = p.mb.entry + 1 := by
      rw [← Mailbox.queue_length, (Mailbox.rtMbSend_queue full).2, List.length_append,
        Mailbox.queue_length]
      rfl
    simp only [Post.send, rank, grown]
    omega

theorem rank_receive (waiting : p.reader = .waiting) (received : p.mb.rtMbRecv = some (mail, mb)) :
    Post.rank { p with mb, reader := .copying mail start [] } < p.rank := by
  have queue := congrArg List.length (Mailbox.rtMbRecv_queue received).1
  rw [List.length_cons, Mailbox.queue_length, Mailbox.queue_length] at queue
  simp only [rank, waiting, Reader.rank]
  omega

theorem rank_copy (copying : p.reader = .copying mail k copied) (size : data.length = 31) :
    (p.copy data mail k copied).rank < p.rank := by
  unfold Post.copy
  -- The buffer has 31 bytes, and the consumer goes one further with each of them.
  split
  · simp only [rank, copying, Reader.rank]
    omega
  · rename_i c here
    have inside := (List.getElem?_eq_some_iff.mp here).1
    split
    · simp only [rank, copying, Reader.rank]
      omega
    · simp only [rank, copying, Reader.rank]
      omega

end Post

namespace Board
variable {utf82gbk : List UInt8 → List UInt8} {s t : Board} {a : Act} {p : Parser}
  {stream : List UInt8} {b c : Box}

def rank (s : Board) : Nat :=
  100 * s.line.input.length + 45 * s.line.todo.length + (s.post .mb6288).rank + (s.post .mbOled).rank

/-- The steps of the three threads; the polls of `changeTime` never end. -/
def counted (a : Act) : Bool := a ≠ .consumer .mbTime

theorem rank_setPost {q : Post} (lower : q.rank < (s.post b).rank) :
    (s.setPost b q).rank + (if counted (.consumer b) then 1 else 0) ≤ s.rank := by
  cases b with
  | mb6288 =>
    unfold rank
    rw [setPost_same, setPost_other s q (by decide)]
    simp only [setPost_line, counted]
    simp
    omega
  | mbOled =>
    unfold rank
    rw [setPost_same, setPost_other s q (by decide)]
    simp only [setPost_line, counted]
    simp
    omega
  | mbTime =>
    unfold rank
    rw [setPost_other s q (by decide), setPost_other s q (by decide)]
    simp [counted]

theorem rank_handle (s : Board) (b : Box) (copied : List UInt8) :
    (s.handle utf82gbk b copied).rank = s.rank := by
  unfold rank
  rw [handle_line, handle_post]

theorem rank_send (next : s.line.todo = b :: rest) :
    rank { s.setPost b ((s.post b).send s.line.mail) with line := s.line.sent rest } < s.rank := by
  have own := (s.post b).rank_send s.line.mail
  unfold rank
  show 100 * s.line.input.length + 45 * rest.length +
    ((s.setPost b ((s.post b).send s.line.mail)).post .mb6288).rank +
    ((s.setPost b ((s.post b).send s.line.mail)).post .mbOled).rank < _
  rw [next, List.length_cons]
  cases b with
  | mb6288 =>
    rw [setPost_same, setPost_other s _ (by decide)]
    omega
  | mbOled =>
    rw [setPost_same, setPost_other s _ (by decide)]
    omega
  | mbTime =>
    rw [setPost_other s _ (by decide), setPost_other s _ (by decide)]
    omega

theorem rank_falls (utf82gbk : List UInt8 → List UInt8) (p : Parser) (stream : List UInt8) :
    (board utf82gbk p stream).Falls counted rank := by
  intro s a t moved
  cases step_of_next moved with
  | payload idle next differs =>
    rw [if_pos (show counted .parser = true from rfl)]
    simp only [rank, Line.takePayload, next, List.length_cons]
    omega
  | terminator idle next =>
    have few : (route s.line.parser.storeEnd.data).length ≤ 2 := by
      unfold route
      split
      · decide
      · split <;> decide
    rw [if_pos (show counted .parser = true from rfl)]
    simp only [rank, Line.takeEnd, next, idle, List.length_cons, List.length_nil]
    omega
  | send next =>
    rw [if_pos (show counted .parser = true from rfl)]
    exact rank_send next
  | @boot b booting =>
    show (s.setPost b (s.post b).wait).rank + _ ≤ s.rank
    exact rank_setPost (by simp [Post.rank, Post.wait, booting, Reader.rank])
  | poll => simp [counted]
  | receive waiting received => exact rank_setPost (Post.rank_receive waiting received)
  | copy copying => exact rank_setPost (Post.rank_copy copying s.line.parser.data_length)
  | handle handling =>
    rw [rank_handle]
    exact rank_setPost (by simp [Post.rank, Post.wait, handling, Reader.rank])

theorem rank_start (p : Parser) (stream : List UInt8) :
    (start p stream).rank = 100 * stream.length + 1 := by
  simp only [rank, start]
  rfl

/-! ### A whole run -/

structure Relayed (utf82gbk : List UInt8 → List UInt8) (stream : List UInt8) (s : Board) : Prop where
  sound : Sound stream s
  routed : Routed s.line s.attempts
  punctual : ∀ b, b ≠ .mbTime → s.Punctual b
  logged : Logged utf82gbk s

theorem start_relayed (p : Parser) (stream : List UInt8) :
    Relayed utf82gbk stream (start p stream) := by
  refine ⟨start_sound p stream, ?_, ?_, ?_, ?_, ?_⟩
  · intro b
    simp [start, attempts, messages]
  · intro b _
    exact ⟨fun later => absurd later List.not_mem_nil, by simp [start, attempts]⟩
  · intro b booting
    cases b with
    | mb6288 => exact ⟨rfl, rfl, rfl⟩
    | mbOled => simp [start] at booting
    | mbTime => simp [start] at booting
  · intro booted
    simp [start] at booted
  · simp [start, Post.Logs, Reader.finishing]

theorem guarded_relayed (short : ∀ seg ∈ completed dataCmdEnd stream, seg.length ≤ 30)
    (reached : (board utf82gbk p stream).Guarded Prompt s) : Relayed utf82gbk stream s := by
  refine reached.invariant (start_relayed p stream) ?_
  intro s a t relayed prompt moved
  have step := step_of_next moved
  exact ⟨step_sound relayed.sound step, step_routed relayed.sound relayed.routed step short,
    fun b watched => step_punctual relayed.sound (relayed.punctual b watched) watched prompt step,
    step_logged relayed.logged step⟩

theorem exhausted_idle (exhausted : (board utf82gbk p stream).Exhausted Prompt counted s)
    (inside : ∀ b, b ≠ .mbTime → ∀ mail, (s.post b).reader ≠ .overrun mail) :
    s.line.input = [] ∧ s.line.todo = [] ∧
      ∀ b, b ≠ .mbTime → (s.post b).reader = .waiting ∧ (s.post b).mb.queue = [] := by
  have served : ∀ b, b ≠ .mbTime → (s.post b).reader = .waiting ∧ (s.post b).mb.queue = [] := by
    intro b watched
    have stuck : s.consumerStep utf82gbk b = none :=
      exhausted (.consumer b) (by simp [counted, watched]) fun parser => absurd parser (by simp)
    unfold consumerStep at stuck
    split at stuck
    · simp at stuck
    · rename_i waiting
      refine ⟨waiting, ?_⟩
      split at stuck
      · simp at stuck
      · rename_i none
        exact Mailbox.rtMbRecv_none.mp (Option.map_eq_none_iff.mp none)
    · simp at stuck
    · simp at stuck
    · rename_i mail ended
      exact absurd ended (inside b watched mail)
  have prompt : Prompt s .parser := by
    intro _ _ b watched
    obtain ⟨waiting, empty⟩ := served b watched
    rw [waiting]
    exact ⟨empty, trivial⟩
  have stuck : s.parserStep = none := exhausted .parser rfl prompt
  unfold parserStep at stuck
  split at stuck
  · simp at stuck
  · rename_i idle
    split at stuck
    · rename_i ended
      exact ⟨ended, idle, served⟩
    · split at stuck <;> simp at stuck

theorem Relayed.copied (relayed : Relayed utf82gbk stream s) (watched : b ≠ .mbTime)
    (delivers : (s.post b).Delivers (startIndex b) s.line.parser.data) (idle : s.line.todo = [])
    (waiting : (s.post b).reader = .waiting) (empty : (s.post b).mb.queue = []) :
    (s.post b).copies.map Prod.snd = (messages s.line.consumed).filter (b ∈ routeText ·) := by
  have sound := relayed.sound.post b
  have kept : (s.attempts b).filter (·.level ≠ 8) = s.attempts b := by
    rw [List.filter_eq_self]
    intro x member
    exact decide_eq_true ((relayed.punctual b watched).kept x member)
  have mails : (s.post b).copies.map Prod.fst = (s.attempts b).map Attempt.mail := by
    have conserved := sound.conserved
    rw [waiting, empty] at conserved
    simp only [Reader.inFlight, List.append_nil] at conserved
    rw [← conserved, sound.counted]
    exact congrArg (List.map Attempt.mail) kept
  have start : startIndex b = 0 := by
    cases b with
    | mb6288 => rfl
    | mbOled => rfl
    | mbTime => exact absurd rfl watched
  have routed := relayed.routed b
  rw [idle, if_neg List.not_mem_nil, List.append_nil] at routed
  calc (s.post b).copies.map Prod.snd
      = (s.post b).copies.map (fun x => cstr x.1.segment) := by
        apply List.map_congr_left
        intro x member
        rw [delivers.copied x member, start, List.drop_zero]
    _ = ((s.post b).copies.map Prod.fst).map (fun mail => cstr mail.segment) := by
        rw [List.map_map]
        rfl
    _ = (s.attempts b).map Attempt.text := by
        rw [mails, List.map_map]
        rfl
    _ = (messages s.line.consumed).filter (b ∈ routeText ·) := routed

theorem frameText_eq (nulFree : ∀ m, 0 ∉ m → 0 ∉ utf82gbk m) {m : List UInt8} (free : 0 ∉ m) :
    frameText utf82gbk m = utf82gbk m := by
  rw [frameText, cstr_append_zero, cstr_of_nul_free (nulFree m free)]

structure Outcome (utf82gbk : List UInt8 → List UInt8) (stream : List UInt8) (s : Board) : Prop where
  echoed : s.line.echoed = stream
  spoken : s.frames = utf82gbk synInitCMD ::
    ((messages stream).filter (·.head? ≠ some 84)).map utf82gbk
  shown : s.shown = (messages stream).filter fun m => m.head? ≠ some 84 ∧ 91 ∉ m
  times : (s.attempts .mbTime).map Attempt.text = (messages stream).filter (·.head? = some 84)

theorem outcome_of_exhausted (nulFree : ∀ m, 0 ∉ m → 0 ∉ utf82gbk m)
    (short : ∀ seg ∈ completed dataCmdEnd stream, seg.length ≤ 30)
    (reached : (board utf82gbk p stream).Guarded Prompt s)
    (exhausted : (board utf82gbk p stream).Exhausted Prompt counted s) :
    Outcome utf82gbk stream s := by
  have relayed := guarded_relayed short reached
  have delivers := guarded_delivers short (reached.mono fun _ _ => Prompt.harmless)
  obtain ⟨ended, idle, served⟩ := exhausted_idle exhausted fun b watched => (delivers b watched).inside
  have whole : s.line.consumed = stream := by
    have split := relayed.sound.line.stream_eq
    rwa [ended, List.append_nil] at split
  have message : ∀ m ∈ messages stream, 0 ∉ m ∧ m.length < maxStr := by
    intro m member
    obtain ⟨seg, completes, rfl⟩ := List.mem_map.mp member
    have fits := short seg completes
    have cut : (cstr seg).length ≤ seg.length := (List.takeWhile_sublist _).length_le
    have room : maxStr = 61 := rfl
    exact ⟨cstr_nul_free seg, by omega⟩
  have copied : ∀ b, b ≠ .mbTime →
      (s.post b).copies.map Prod.snd = (messages stream).filter (b ∈ routeText ·) := by
    intro b watched
    obtain ⟨waiting, empty⟩ := served b watched
    rw [relayed.copied watched (delivers b watched) idle waiting empty, whole]
  -- What a log has: `f` of every message of its box.
  have logged : ∀ b, b ≠ .mbTime → ∀ f log, (s.post b).Logs f log →
      log = ((messages stream).filter (b ∈ routeText ·)).map f := by
    intro b watched f log logs
    unfold Post.Logs at logs
    rw [(served b watched).1] at logs
    simp only [Reader.finishing, List.map_nil, List.append_nil] at logs
    rw [logs, ← copied b watched, List.map_map]
    rfl
  refine ⟨by rw [relayed.sound.line.echo, whole], ?_, ?_, ?_⟩
  · obtain ⟨log, frames, logs⟩ := relayed.logged.spoken (by simp [(served .mb6288 (by decide)).1])
    rw [frames, logged .mb6288 (by decide) _ _ logs, frameText_eq nulFree (by decide)]
    simp only [mem_routeText.1]
    congr 1
    apply List.map_congr_left
    intro m member
    exact frameText_eq nulFree (message m (List.mem_of_mem_filter member)).1
  · rw [logged .mbOled (by decide) _ _ relayed.logged.shown]
    simp only [mem_routeText.2.1]
    refine (List.map_congr_left fun m member => ?_).trans (List.map_id _)
    obtain ⟨free, fits⟩ := message m (List.mem_of_mem_filter member)
    exact cstr_rtStrncpy [] free fits
  · have routed := relayed.routed .mbTime
    rw [idle, if_neg List.not_mem_nil, List.append_nil, whole] at routed
    rw [routed]
    simp only [mem_routeText.2.2]

/-- A stream of segments of at most 30 bytes, and a schedule in which `main` and `u8g2_get_txt` handle
each mail before the next byte is stored. The steps of the three threads are bounded, the schedule
can go on until there is none left, and then the whole stream has been echoed, spoken, shown and sent
on as its messages say. -/
theorem end_to_end (nulFree : ∀ m, 0 ∉ m → 0 ∉ utf82gbk m)
    (short : ∀ seg ∈ completed dataCmdEnd stream, seg.length ≤ 30) {acts : List Act}
    (prompt : (board utf82gbk p stream).Meets Prompt acts (start p stream))
    (ran : (board utf82gbk p stream).run acts (start p stream) = some s) :
    acts.countP counted ≤ 100 * stream.length + 1 ∧
      (∃ more t, (board utf82gbk p stream).Meets Prompt more s ∧
        (board utf82gbk p stream).run more s = some t ∧
        (board utf82gbk p stream).Exhausted Prompt counted t) ∧
      ((board utf82gbk p stream).Exhausted Prompt counted s → Outcome utf82gbk stream s) := by
  have falls := rank_falls utf82gbk p stream
  have reached : (board utf82gbk p stream).Guarded Prompt s :=
    System.guarded_of_run .start prompt ran
  have bound := falls.count_le ran
  rw [rank_start] at bound
  exact ⟨by omega, falls.exists_exhausted Prompt s, outcome_of_exhausted nulFree short reached⟩

instance decidablePrompt (s : Board) (a : Act) : Decidable (s.Prompt a) :=
  inferInstanceAs (Decidable (a = .parser → s.line.todo = [] → ∀ b, b ≠ .mbTime →
    (s.post b).mb.queue = [] ∧ (s.post b).reader.Idle))

/-- The stream `ba[caT1ad`: a text, a control message, a time and an unfinished rest. -/
theorem end_to_end_mixed : ∃ s : Board, s.line.echoed = [98, 97, 91, 99, 97, 84, 49, 97, 100] ∧
    s.frames = [synInitCMD, [98], [91, 99]] ∧ s.shown = [[98]] ∧
    (s.attempts .mbTime).map Attempt.text = [[84, 49]] := by
  let stream : List UInt8 := [98, 97, 91, 99, 97, 84, 49, 97, 100]
  let acts : List Act := List.flatten [[.consumer .mb6288], List.replicate 4 .parser,
    List.replicate 4 (.consumer .mb6288), List.replicate 4 (.consumer .mbOled),
    List.replicate 4 .parser, List.replicate 5 (.consumer .mb6288), List.replicate 5 .parser]
  have ends : ((board id .zeroed stream).run acts (start .zeroed stream)).map (fun s =>
      (s.parserStep.isNone, (s.consumerStep id .mb6288).isNone, (s.consumerStep id .mbOled).isNone)) =
      some (true, true, true) := by decide +kernel
  obtain ⟨s, ran, stuck⟩ := Option.map_eq_some_iff.mp ends
  simp only [Prod.mk.injEq, Option.isNone_iff_eq_none] at stuck
  have exhausted : (board id .zeroed stream).Exhausted Prompt counted s := by
    intro a counts _
    cases a with
    | parser => exact stuck.1
    | consumer b =>
      cases b with
      | mb6288 => exact stuck.2.1
      | mbOled => exact stuck.2.2
      | mbTime => simp [counted] at counts
  have outcome := (end_to_end (fun _ free => free) (by decide +kernel) (by decide +kernel) ran).2.2 exhausted
  exact ⟨s, outcome.echoed, outcome.spoken, outcome.shown, outcome.times⟩

end Board
end BleSpeaker.Ble
