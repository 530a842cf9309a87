import BleSpeaker.Ble.Board

/-!
# Where the mails are

Facts that hold in every run, whatever the schedule. `Line.Sound` says what the parser has in its
buffer and which segment its pending sends are for. `Post.Sound` says that a box loses nothing: an
accepted mail is copied out, in the reader's hands or in the queue, in this order, and a mail is
accepted exactly when its send found fewer than 8 mails. `Tracked` says which segments the sends
were for: each send belongs to a completed segment, no box is sent a segment twice, and a text is
never forgotten by the two boxes it goes to.
-/

namespace BleSpeaker.Ble
open Kernel Lib

theorem route_nodup (data : List UInt8) : (route data).Nodup := by
  unfold route
  split
  · decide
  · split <;> decide

theorem route_ne_nil (data : List UInt8) : route data ≠ [] := by
  unfold route
  split
  · simp
  · split <;> simp

/-! ### The parser's side -/

/-- The sends that are left belong to the last completed segment. -/
structure Line.Sending (l : Line) : Prop where
  unfinished_nil : unfinished dataCmdEnd l.consumed = []
  parsed : ∃ q : Parser, q.Holds l.mail.segment ∧ l.parser = q.storeEnd
  suffix : l.todo <:+ route l.parser.data
  newest : ∃ front, completed dataCmdEnd l.consumed = front ++ [l.mail.segment] ∧
    l.mail.ordinal = front.length

structure Line.Sound (stream : List UInt8) (l : Line) : Prop where
  stream_eq : l.consumed ++ l.input = stream
  echo : l.echoed = l.consumed
  reading : l.todo = [] → l.parser.Holds (unfinished dataCmdEnd l.consumed)
  sending : l.todo ≠ [] → l.Sending

namespace Line
variable {l : Line} {stream rest : List UInt8} {ch : UInt8} {b : Box} {boxes : List Box}

theorem Sound.takePayload (sound : l.Sound stream) (idle : l.todo = [])
    (next : l.input = ch :: rest) (differs : ch ≠ dataCmdEnd) :
    (l.takePayload ch rest).Sound stream where
  stream_eq := by
    rw [← sound.stream_eq, next]
    simp [Line.takePayload]
  echo := by
    simp only [Line.takePayload, deviceWrite_eq, sound.echo]
  reading _ := by
    show (l.parser.storePayload ch).Holds (unfinished dataCmdEnd (l.consumed ++ [ch]))
    rw [unfinished_snoc_ne differs]
    exact (sound.reading idle).storePayload
  sending some := absurd idle some

theorem takeEnd_sending (sound : l.Sound stream) (idle : l.todo = []) :
    (l.takeEnd dataCmdEnd rest).Sending where
  unfinished_nil := unfinished_snoc_sep
  parsed := ⟨l.parser, sound.reading idle, rfl⟩
  suffix := List.suffix_refl _
  newest := ⟨completed dataCmdEnd l.consumed, completed_snoc_sep, rfl⟩

theorem Sound.takeEnd (sound : l.Sound stream) (idle : l.todo = [])
    (next : l.input = dataCmdEnd :: rest) : (l.takeEnd dataCmdEnd rest).Sound stream where
  stream_eq := by
    rw [← sound.stream_eq, next]
    simp [Line.takeEnd]
  echo := by
    simp only [Line.takeEnd, deviceWrite_eq, sound.echo]
  reading none := absurd none (route_ne_nil _)
  sending _ := takeEnd_sending sound idle

theorem Sound.sent (sound : l.Sound stream) (next : l.todo = b :: boxes) :
    (l.sent boxes).Sound stream where
  stream_eq := sound.stream_eq
  echo := sound.echo
  reading none := by
    change boxes = [] at none
    subst none
    have before := sound.sending (by rw [next]; simp)
    show (if ([] : List Box) = [] then l.parser.restart else l.parser).Holds _
    rw [if_pos rfl]
    show l.parser.restart.Holds (unfinished dataCmdEnd l.consumed)
    rw [before.unfinished_nil]
    exact Parser.holds_restart _
  sending some := by
    have before := sound.sending (by rw [next]; simp)
    have same : (l.sent boxes).parser = l.parser := if_neg some
    refine ⟨before.unfinished_nil, by rw [same]; exact before.parsed, ?_, before.newest⟩
    rw [same]
    exact (List.suffix_cons b boxes).trans (next ▸ before.suffix)

theorem Sound.not_mem_rest (sound : l.Sound stream) (next : l.todo = b :: boxes) : b ∉ boxes := by
  have suffix := (sound.sending (by rw [next]; simp)).suffix
  rw [next] at suffix
  exact (List.nodup_cons.mp ((route_nodup _).sublist suffix.sublist)).1

end Line

/-! ### A box and its consumer -/

def Reader.inFlight : Reader → List Mail
  | .copying mail _ _ | .overrun mail => [mail]
  | .booting | .waiting | .handling _ _ => []

structure Post.Sound (p : Post) : Prop where
  size_eq : p.mb.size = 8
  conserved : p.accepted = p.copies.map Prod.fst ++ p.reader.inFlight ++ p.mb.queue
  counted : p.accepted = (p.attempts.filter (·.level ≠ 8)).map Attempt.mail

namespace Post
variable {p : Post} {mail : Mail} {mb : Mailbox Mail} {k start : Nat} {data copied : List UInt8}

theorem Sound.send (sound : p.Sound) (mail : Mail) : (p.send mail).Sound := by
  have size := sound.size_eq
  by_cases full : p.mb.entry = p.mb.size
  · have result := Mailbox.rtMbSend_full (v := mail) full
    refine ⟨?_, ?_, ?_⟩
    · simpa [Post.send, result] using size
    · simpa [Post.send, result] using sound.conserved
    · simpa [Post.send, result, List.filter_append, full, size] using sound.counted
  · obtain ⟨ok, queue⟩ := Mailbox.rtMbSend_queue (v := mail) full
    rw [size] at full
    refine ⟨?_, ?_, ?_⟩
    · simpa [Post.send] using size
    · simp only [Post.send, ok, if_true, queue, sound.conserved, List.append_assoc]
    · simp [Post.send, ok, List.filter_append, full, sound.counted]

theorem Sound.receive (sound : p.Sound) (waiting : p.reader.inFlight = [])
    (received : p.mb.rtMbRecv = some (mail, mb)) :
    Post.Sound { p with mb, reader := .copying mail start [] } := by
  obtain ⟨queue, size⟩ := Mailbox.rtMbRecv_queue received
  refine ⟨size.trans sound.size_eq, ?_, sound.counted⟩
  rw [sound.conserved, waiting, queue]
  simp [Reader.inFlight]

theorem Sound.copy (sound : p.Sound) (copying : p.reader = .copying mail k copied) :
    (p.copy data mail k copied).Sound := by
  have conserved := sound.conserved
  rw [copying] at conserved
  unfold Post.copy
  split
  · exact ⟨sound.size_eq, conserved, sound.counted⟩
  · split
    · refine ⟨sound.size_eq, ?_, sound.counted⟩
      rw [conserved]
      simp [Reader.inFlight]
    · exact ⟨sound.size_eq, conserved, sound.counted⟩

theorem Sound.wait (sound : p.Sound) (idle : p.reader.inFlight = []) : p.wait.Sound := by
  refine ⟨sound.size_eq, ?_, sound.counted⟩
  have conserved := sound.conserved
  rw [idle] at conserved
  exact conserved

end Post

/-! ### Every run -/

namespace Board
variable {utf82gbk : List UInt8 → List UInt8} {s t : Board} {a : Act} {p : Parser}
  {stream : List UInt8} {b : Box}

structure Sound (stream : List UInt8) (s : Board) : Prop where
  line : s.line.Sound stream
  post : ∀ b, (s.post b).Sound

theorem start_sound (p : Parser) (stream : List UInt8) : Sound stream (start p stream) := by
  refine ⟨⟨rfl, rfl, fun _ => Parser.holds_restart p, fun some => absurd rfl some⟩, fun b => ?_⟩
  refine ⟨rfl, ?_, rfl⟩
  cases b <;> rfl

theorem post_sound_set {q : Post} (before : ∀ c, (s.post c).Sound) (new : q.Sound) :
    ∀ c, ((s.setPost b q).post c).Sound := by
  apply forall_setPost (P := fun _ q => q.Sound) new
  exact fun c _ => before c

theorem step_sound (sound : Sound stream s) (step : Step utf82gbk s a t) : Sound stream t := by
  obtain ⟨line, post⟩ := sound
  cases step with
  | payload idle next differs => exact ⟨line.takePayload idle next differs, post⟩
  | terminator idle next => exact ⟨line.takeEnd idle next, post⟩
  | send next => exact ⟨line.sent next, post_sound_set post ((post _).send _)⟩
  | boot booting => exact ⟨line, post_sound_set post ((post _).wait (by rw [booting]; rfl))⟩
  | poll => exact ⟨line, post⟩
  | receive waiting received =>
    exact ⟨line, post_sound_set post ((post _).receive (by rw [waiting]; rfl) received)⟩
  | copy copying => exact ⟨line, post_sound_set post ((post _).copy copying)⟩
  | handle handling =>
    refine ⟨by rw [handle_line]; exact line, ?_⟩
    rw [handle_post]
    exact post_sound_set post ((post _).wait (by rw [handling]; rfl))

theorem Sound.completed_subset (sound : Sound stream s) :
    ∀ seg ∈ completed dataCmdEnd s.line.consumed, seg ∈ completed dataCmdEnd stream := by
  rw [← sound.line.stream_eq]
  exact fun _ member => (completed_append_initial _ _ _).subset member

/-! ### The segments behind the sends -/

/-- A segment that is neither a time nor a control message. -/
def IsText (seg : List UInt8) : Prop := seg.head? ≠ some 84 ∧ 91 ∉ seg

structure Tracked (l : Line) (attempts : Box → List Attempt) : Prop where
  known : ∀ b, ∀ x ∈ attempts b,
    (completed dataCmdEnd l.consumed)[x.mail.ordinal]? = some x.mail.segment
  once : ∀ b, ((attempts b).map (·.mail.ordinal)).Nodup
  pending : ∀ b ∈ l.todo, ∀ x ∈ attempts b, x.mail.ordinal ≠ l.mail.ordinal
  text : ∀ n seg, (completed dataCmdEnd l.consumed)[n]? = some seg → IsText seg →
    ∀ b ∈ [Box.mb6288, Box.mbOled],
      (b ∈ l.todo ∧ n = l.mail.ordinal) ∨ ∃ x ∈ attempts b, x.mail.ordinal = n

namespace Tracked
variable {l : Line} {attempts : Box → List Attempt} {rest : List UInt8} {ch : UInt8}
  {boxes : List Box}

theorem takePayload (tracked : Tracked l attempts) (differs : ch ≠ dataCmdEnd) :
    Tracked (l.takePayload ch rest) attempts := by
  have same : completed dataCmdEnd (l.takePayload ch rest).consumed = completed dataCmdEnd l.consumed :=
    completed_snoc_ne differs
  exact ⟨same ▸ tracked.known, tracked.once, tracked.pending, same ▸ tracked.text⟩

theorem takeEnd (tracked : Tracked l attempts) (sound : l.Sound stream) (idle : l.todo = []) :
    Tracked (l.takeEnd dataCmdEnd rest) attempts := by
  have grown : completed dataCmdEnd (l.takeEnd dataCmdEnd rest).consumed =
      completed dataCmdEnd l.consumed ++ [unfinished dataCmdEnd l.consumed] := completed_snoc_sep
  have older : ∀ b, ∀ x ∈ attempts b,
      x.mail.ordinal < (completed dataCmdEnd l.consumed).length := by
    intro b x member
    exact (List.getElem?_eq_some_iff.mp (tracked.known b x member)).1
  refine ⟨?_, tracked.once, ?_, ?_⟩
  · intro b x member
    rw [grown, List.getElem?_append_left (older b x member)]
    exact tracked.known b x member
  · intro b _ x member
    exact Nat.ne_of_lt (older b x member)
  · intro n seg here isText b both
    rw [grown] at here
    rcases Nat.lt_or_ge n (completed dataCmdEnd l.consumed).length with old | new
    · rw [List.getElem?_append_left old] at here
      rcases tracked.text n seg here isText b both with ⟨waiting, -⟩ | sent
      · rw [idle] at waiting
        simp at waiting
      · exact Or.inr sent
    · -- The new segment: its sends are all to be made.
      have last : n = (completed dataCmdEnd l.consumed).length := by
        have bound := (List.getElem?_eq_some_iff.mp here).1
        simp only [List.length_append, List.length_singleton] at bound
        omega
      rw [last, List.getElem?_concat_length] at here
      obtain rfl := Option.some.inj here
      refine Or.inl ⟨?_, last⟩
      show b ∈ route l.parser.storeEnd.data
      rw [(sound.reading idle).route_text isText.1 isText.2]
      exact both

theorem sent (tracked : Tracked l attempts) (sound : l.Sound stream) (next : l.todo = b :: boxes)
    (level : Nat) :
    Tracked (l.sent boxes) (Function.update attempts b (attempts b ++ [⟨l.mail, level⟩])) := by
  obtain ⟨front, done, ordinal⟩ := (sound.sending (by rw [next]; simp)).newest
  have fresh := tracked.pending b (by rw [next]; simp)
  have notAgain := sound.not_mem_rest next
  refine ⟨?_, ?_, ?_, ?_⟩
  · intro c x member
    by_cases same : c = b
    · subst same
      rw [Function.update_self] at member
      rcases List.mem_append.mp member with old | new
      · exact tracked.known c x old
      · obtain rfl := List.mem_singleton.mp new
        show (completed dataCmdEnd l.consumed)[l.mail.ordinal]? = some l.mail.segment
        rw [done, ordinal, List.getElem?_concat_length]
    · rw [Function.update_of_ne same] at member
      exact tracked.known c x member
  · intro c
    by_cases same : c = b
    · subst same
      rw [Function.update_self, List.map_append, List.nodup_append]
      refine ⟨tracked.once c, by simp, ?_⟩
      intro n old m new same
      obtain ⟨x, member, rfl⟩ := List.mem_map.mp old
      obtain rfl : m = l.mail.ordinal := by simpa using new
      exact fresh x member same
    · rw [Function.update_of_ne same]
      exact tracked.once c
  · intro c later x member
    have differs : c ≠ b := fun same => notAgain (same ▸ later)
    rw [Function.update_of_ne differs] at member
    exact tracked.pending c (by rw [next]; exact List.mem_cons_of_mem _ later) x member
  · intro n seg here isText c both
    by_cases same : c = b
    · subst same
      rw [Function.update_self]
      right
      rcases tracked.text n seg here isText c both with ⟨-, newest⟩ | ⟨x, member, old⟩
      · exact ⟨⟨l.mail, level⟩, by simp, newest.symm⟩
      · exact ⟨x, List.mem_append_left _ member, old⟩
    · rw [Function.update_of_ne same]
      rcases tracked.text n seg here isText c both with ⟨waiting, newest⟩ | old
      · rw [next] at waiting
        rcases List.mem_cons.mp waiting with this | later
        · exact absurd this same
        · exact Or.inl ⟨later, newest⟩
      · exact Or.inr old

end Tracked

def attempts (s : Board) (b : Box) : List Attempt := (s.post b).attempts

theorem setPost_attempts {q : Post} (more : List Attempt)
    (grown : q.attempts = (s.post b).attempts ++ more) :
    (s.setPost b q).attempts = Function.update s.attempts b (s.attempts b ++ more) := by
  funext c
  by_cases same : c = b
  · subst same
    rw [attempts, setPost_same, Function.update_self]
    exact grown
  · rw [attempts, setPost_other s q same, Function.update_of_ne same]
    rfl

theorem setPost_attempts_same {q : Post} (same : q.attempts = (s.post b).attempts) :
    (s.setPost b q).attempts = s.attempts := by
  rw [setPost_attempts [] (by rw [same, List.append_nil]), List.append_nil,
    Function.update_eq_self]

theorem consumer_frame (step : Step utf82gbk s (.consumer b) t) :
    t.line = s.line ∧ t.attempts = s.attempts := by
  cases step with
  | boot => exact ⟨rfl, setPost_attempts_same rfl⟩
  | poll => exact ⟨rfl, rfl⟩
  | receive => exact ⟨rfl, setPost_attempts_same rfl⟩
  | copy =>
    refine ⟨rfl, setPost_attempts_same ?_⟩
    unfold Post.copy
    split
    · rfl
    · split <;> rfl
  | handle =>
    refine ⟨handle_line _ _ _, ?_⟩
    unfold attempts
    rw [handle_post]
    exact setPost_attempts_same rfl

theorem step_tracked (sound : Sound stream s) (tracked : Tracked s.line s.attempts)
    (step : Step utf82gbk s a t) : Tracked t.line t.attempts := by
  cases a with
  | parser =>
    cases step with
    | payload idle next differs => exact tracked.takePayload differs
    | terminator idle next => exact tracked.takeEnd sound.line idle
    | @send b rest next =>
      have result := tracked.sent sound.line next (s.post b).mb.entry
      rwa [← setPost_attempts (q := (s.post b).send s.line.mail) _ rfl] at result
  | consumer b =>
    obtain ⟨line, same⟩ := consumer_frame step
    rwa [line, same]

theorem reachable_tracked (reached : (board utf82gbk p stream).Reachable s) :
    Sound stream s ∧ Tracked s.line s.attempts := by
  refine System.Reachable.invariant (P := fun s => Sound stream s ∧ Tracked s.line s.attempts)
    reached ?_ ?_
  · refine ⟨start_sound p stream, ?_, ?_, ?_, ?_⟩
    · simp [board, start, attempts]
    · simp [board, start, attempts]
    · simp [board, start]
    · simp [board, start]
  · intro s a t both moved
    obtain ⟨sound, tracked⟩ := both
    have step := step_of_next moved
    exact ⟨step_sound sound step, step_tracked sound tracked step⟩

end Board
end BleSpeaker.Ble
