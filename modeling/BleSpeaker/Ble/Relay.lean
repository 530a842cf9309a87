import BleSpeaker.Ble.Delivery

/-!
# Routing, prompt consumers and their logs

Three invariants, one for each leg of a message. `Routed` says which messages have been sent where,
in every run. A run is prompt if `main` and `u8g2_get_txt` handle each mail before `data_parsing`
stores its next byte; such a run finds room for each of its sends (`Punctual`) and spoils no mail.
`Logged` says that what is copied is spoken or shown.
-/

namespace BleSpeaker.Ble
open Kernel Lib

/-- The completed segments of the stream, each cut at its first NUL. -/
def messages (stream : List UInt8) : List (List UInt8) := (completed dataCmdEnd stream).map cstr

def Attempt.text (x : Attempt) : List UInt8 := cstr x.mail.segment

/-! ### Which messages go where -/

/-- The sends to a box, with the one that is still to be made, are for the messages that the routing
gives to this box. -/
def Routed (l : Line) (attempts : Box → List Attempt) : Prop :=
  ∀ b, (attempts b).map Attempt.text ++ (if b ∈ l.todo then [cstr l.mail.segment] else []) =
    (messages l.consumed).filter (b ∈ routeText ·)

namespace Routed
variable {l : Line} {attempts : Box → List Attempt} {stream rest : List UInt8} {ch : UInt8} {b : Box}
  {boxes : List Box}

theorem takePayload (routed : Routed l attempts) (differs : ch ≠ dataCmdEnd) :
    Routed (l.takePayload ch rest) attempts := by
  intro b
  have same : messages (l.consumed ++ [ch]) = messages l.consumed := by
    rw [messages, completed_snoc_ne differs, messages]
  show _ = (messages (l.consumed ++ [ch])).filter _
  rw [same]
  exact routed b

theorem takeEnd (routed : Routed l attempts) (sound : l.Sound stream) (idle : l.todo = [])
    (fits : (unfinished dataCmdEnd l.consumed).length ≤ 30) :
    Routed (l.takeEnd dataCmdEnd rest) attempts := by
  intro b
  have before := routed b
  rw [idle, if_neg List.not_mem_nil, List.append_nil] at before
  have boxes : (l.takeEnd dataCmdEnd rest).todo = routeText (cstr (unfinished dataCmdEnd l.consumed)) :=
    (sound.reading idle).route_short fits
  have grown : messages (l.takeEnd dataCmdEnd rest).consumed =
      messages l.consumed ++ [cstr (unfinished dataCmdEnd l.consumed)] := by
    show messages (l.consumed ++ [dataCmdEnd]) = _
    rw [messages, completed_snoc_sep, List.map_append]
    rfl
  rw [boxes, grown, List.filter_append, before]
  congr 1
  simp only [List.filter_cons, List.filter_nil, decide_eq_true_eq]
  rfl

theorem sent (routed : Routed l attempts) (sound : l.Sound stream) (next : l.todo = b :: boxes)
    (level : Nat) :
    Routed (l.sent boxes) (Function.update attempts b (attempts b ++ [⟨l.mail, level⟩])) := by
  have notAgain := sound.not_mem_rest next
  intro c
  have before := routed c
  rw [next] at before
  show _ = (messages l.consumed).filter _
  rw [← before]
  show List.map _ _ ++ (if c ∈ boxes then [cstr l.mail.segment] else []) = _
  by_cases same : c = b
  · subst same
    rw [Function.update_self, if_neg notAgain, if_pos List.mem_cons_self, List.map_append,
      List.append_nil]
    rfl
  · rw [Function.update_of_ne same]
    simp [same]

end Routed

namespace Board
variable {utf82gbk : List UInt8 → List UInt8} {s t : Board} {a : Act} {p : Parser}
  {stream : List UInt8} {b : Box}

theorem step_routed (sound : Sound stream s) (routed : Routed s.line s.attempts)
    (step : Step utf82gbk s a t) (short : ∀ seg ∈ completed dataCmdEnd stream, seg.length ≤ 30) :
    Routed t.line t.attempts := by
  have after := step_sound sound step
  cases a with
  | parser =>
    cases step with
    | payload idle next differs => exact routed.takePayload differs
    | terminator idle next =>
      refine routed.takeEnd sound.line idle (short _ (after.completed_subset _ ?_))
      show _ ∈ completed dataCmdEnd (s.line.consumed ++ [dataCmdEnd])
      rw [completed_snoc_sep]
      simp
    | @send b rest next =>
      have result := routed.sent sound.line next (s.post b).mb.entry
      rwa [← setPost_attempts (q := (s.post b).send s.line.mail) _ rfl] at result
  | consumer b =>
    obtain ⟨line, same⟩ := consumer_frame step
    rwa [line, same]

/-! ### Prompt runs -/

end Board

def Reader.Idle : Reader → Prop
  | .booting | .waiting => True
  | .copying _ _ _ | .handling _ _ | .overrun _ => False

instance : DecidablePred Reader.Idle
  | .booting | .waiting => .isTrue trivial
  | .copying _ _ _ | .handling _ _ | .overrun _ => .isFalse id

namespace Board
variable {utf82gbk : List UInt8 → List UInt8} {s t : Board} {a : Act} {p : Parser}
  {stream : List UInt8} {b c : Box}

/-- `data_parsing` stores its next byte only when `main` and `u8g2_get_txt` have handled every mail. -/
def Prompt (s : Board) (a : Act) : Prop :=
  a = .parser → s.line.todo = [] → ∀ b, b ≠ .mbTime →
    (s.post b).mb.queue = [] ∧ (s.post b).reader.Idle

theorem Prompt.harmless (prompt : Prompt s a) : Harmless (· ≠ .mbTime) s a := by
  intro parser store stores b watched x unread
  have idle : s.line.todo = [] := by
    unfold Line.nextStore at stores
    split at stores
    · assumption
    · simp at stores
  obtain ⟨empty, free⟩ := prompt parser idle b watched
  unfold Post.unread at unread
  rw [empty] at unread
  cases reader : (s.post b).reader <;> simp [reader, Reader.Idle] at unread free

structure Punctual (s : Board) (b : Box) : Prop where
  room : b ∈ s.line.todo → (s.post b).mb.queue = []
  kept : ∀ x ∈ s.attempts b, x.level ≠ 8

theorem consumer_queue (step : Step utf82gbk s (.consumer c) t) (empty : (s.post b).mb.queue = []) :
    (t.post b).mb.queue = [] := by
  have unchanged : ∀ q : Post, ((s.post c).mb.queue = [] → q.mb.queue = []) →
      ((s.setPost c q).post b).mb.queue = [] := by
    intro q keeps
    exact forall_setPost (P := fun d q => (s.post d).mb.queue = [] → q.mb.queue = []) keeps
      (fun _ _ none => none) b empty
  cases step with
  | boot => exact unchanged _ id
  | poll => exact empty
  | receive waiting received =>
    refine unchanged _ fun none => ?_
    rw [(Mailbox.rtMbRecv_queue received).1] at none
    simp at none
  | copy =>
    refine unchanged _ fun none => ?_
    unfold Post.copy
    split
    · exact none
    · split <;> exact none
  | handle =>
    rw [handle_post]
    exact unchanged _ id

theorem step_punctual (sound : Sound stream s) (punctual : s.Punctual b) (watched : b ≠ .mbTime)
    (prompt : Prompt s a) (step : Step utf82gbk s a t) : t.Punctual b := by
  cases a with
  | parser =>
    cases step with
    | payload idle next differs => exact ⟨punctual.room, punctual.kept⟩
    | terminator idle next => exact ⟨fun _ => (prompt rfl idle b watched).1, punctual.kept⟩
    | @send c rest next =>
      by_cases same : b = c
      · subst same
        have empty := punctual.room (by rw [next]; simp)
        have none : (s.post b).mb.entry = 0 := by
          rw [← Mailbox.queue_length, empty]
          rfl
        refine ⟨fun later => absurd later (sound.line.not_mem_rest next), ?_⟩
        show ∀ x ∈ ((s.setPost b ((s.post b).send s.line.mail)).post b).attempts, x.level ≠ 8
        rw [setPost_same]
        show ∀ x ∈ (s.post b).attempts ++ [⟨s.line.mail, (s.post b).mb.entry⟩], x.level ≠ 8
        rw [List.forall_mem_append, List.forall_mem_singleton, none]
        exact ⟨punctual.kept, Nat.zero_ne_add_one 7⟩
      · have other := setPost_other s ((s.post c).send s.line.mail) same
        refine ⟨fun later => ?_, ?_⟩
        · show ((s.setPost c _).post b).mb.queue = []
          rw [other]
          exact punctual.room (by rw [next]; exact List.mem_cons_of_mem _ later)
        · show ∀ x ∈ ((s.setPost c _).post b).attempts, x.level ≠ 8
          rw [other]
          exact punctual.kept
  | consumer c =>
    obtain ⟨line, same⟩ := consumer_frame step
    refine ⟨fun later => ?_, by rw [same]; exact punctual.kept⟩
    rw [line] at later
    exact consumer_queue step (punctual.room later)

/-! ### What is spoken and shown -/

end Board

def Reader.finishing : Reader → List (List UInt8)
  | .handling _ copied => [copied]
  | .booting | .waiting | .copying _ _ _ | .overrun _ => []

/-- `log` has what `f` makes of each copied text, less the one the consumer has in hand. -/
def Post.Logs (f : List UInt8 → List UInt8) (log : List (List UInt8)) (p : Post) : Prop :=
  log ++ p.reader.finishing.map f = p.copies.map (f ·.2)

namespace Post.Logs
variable {f : List UInt8 → List UInt8} {log : List (List UInt8)} {p : Post} {mail : Mail}
  {mb : Mailbox Mail} {k start : Nat} {data copied : List UInt8}

theorem receive (logs : p.Logs f log) (waiting : p.reader = .waiting) :
    Logs f log { p with mb, reader := .copying mail start [] } := by
  unfold Logs at logs
  rw [waiting] at logs
  exact logs

theorem copy (logs : p.Logs f log) (copying : p.reader = .copying mail k copied) :
    (p.copy data mail k copied).Logs f log := by
  unfold Logs at logs
  rw [copying] at logs
  simp only [Reader.finishing, List.map_nil, List.append_nil] at logs
  unfold Post.copy
  split
  · simpa [Logs, Reader.finishing] using logs
  · split
    · simp [Logs, Reader.finishing, logs]
    · simpa [Logs, Reader.finishing] using logs

theorem handled (logs : p.Logs f log) (handling : p.reader = .handling mail copied) :
    p.wait.Logs f (log ++ [f copied]) := by
  unfold Logs at logs ⊢
  rw [handling] at logs
  simpa [Post.wait, Reader.finishing] using logs

end Post.Logs

namespace Board
variable {utf82gbk : List UInt8 → List UInt8} {s t : Board} {a : Act} {p : Parser}
  {stream : List UInt8} {b c : Box}

def displayed (m : List UInt8) : List UInt8 := cstr (rtStrncpy maxStr (m ++ [0]))

structure Logged (utf82gbk : List UInt8 → List UInt8) (s : Board) : Prop where
  boots : ∀ b, (s.post b).reader = .booting →
    b = .mb6288 ∧ s.frames = [] ∧ (s.post b).copies = []
  spoken : (s.post .mb6288).reader ≠ .booting → ∃ log,
    s.frames = frameText utf82gbk synInitCMD :: log ∧
      (s.post .mb6288).Logs (frameText utf82gbk) log
  shown : (s.post .mbOled).Logs displayed s.shown

theorem Logged.congr (logged : Logged utf82gbk s) (frames : t.frames = s.frames)
    (shown : t.shown = s.shown) (reader : ∀ b, (t.post b).reader = (s.post b).reader)
    (copies : ∀ b, (t.post b).copies = (s.post b).copies) : Logged utf82gbk t := by
  have logs : ∀ b f log, (s.post b).Logs f log → (t.post b).Logs f log := by
    intro b f log before
    unfold Post.Logs
    rw [reader, copies]
    exact before
  refine ⟨?_, ?_, ?_⟩
  · intro b booting
    rw [frames, copies]
    exact logged.boots b (by rw [← reader]; exact booting)
  · intro booted
    obtain ⟨log, same, before⟩ := logged.spoken (by rw [← reader]; exact booted)
    exact ⟨log, frames.trans same, logs _ _ _ before⟩
  · rw [shown]
    exact logs _ _ _ logged.shown

theorem send_reader_copies (mail : Mail) (c : Box) :
    ((s.setPost b ((s.post b).send mail)).post c).reader = (s.post c).reader ∧
      ((s.setPost b ((s.post b).send mail)).post c).copies = (s.post c).copies :=
  forall_setPost (P := fun c q => q.reader = (s.post c).reader ∧ q.copies = (s.post c).copies)
    (q := (s.post b).send mail) ⟨rfl, rfl⟩ (fun _ _ => ⟨rfl, rfl⟩) c

theorem booting_of_set {q : Post} (running : q.reader ≠ .booting) (c : Box)
    (booting : ((s.setPost b q).post c).reader = .booting) :
    c ≠ b ∧ (s.post c).reader = .booting := by
  by_cases same : c = b
  · subst same
    rw [setPost_same] at booting
    exact absurd booting running
  · rw [setPost_other s q same] at booting
    exact ⟨same, booting⟩

theorem Logged.set {q : Post} (logged : Logged utf82gbk s) (was : (s.post b).reader ≠ .booting)
    (running : q.reader ≠ .booting)
    (keeps : b ≠ .mbTime → ∀ f log, (s.post b).Logs f log → q.Logs f log) :
    Logged utf82gbk (s.setPost b q) := by
  refine ⟨?_, ?_, ?_⟩
  · intro c booting
    obtain ⟨other, before⟩ := booting_of_set running c booting
    rw [setPost_other s q other]
    exact logged.boots c before
  · intro booted
    by_cases same : b = .mb6288
    · subst same
      obtain ⟨log, frames, before⟩ := logged.spoken was
      rw [setPost_same]
      exact ⟨log, frames, keeps (by decide) _ _ before⟩
    · rw [setPost_other s q (Ne.symm same)] at booted ⊢
      exact logged.spoken booted
  · by_cases same : b = .mbOled
    · subst same
      rw [setPost_same]
      exact keeps (by decide) _ _ logged.shown
    · rw [setPost_other s q (Ne.symm same)]
      exact logged.shown

theorem Logged.boot (logged : Logged utf82gbk s) (booting : (s.post b).reader = .booting) :
    Logged utf82gbk
      { s.setPost b (s.post b).wait with frames := s.frames ++ [frameText utf82gbk synInitCMD] } := by
  obtain ⟨rfl, frames, copies⟩ := logged.boots b booting
  refine ⟨?_, ?_, ?_⟩
  · intro c again
    obtain ⟨other, before⟩ := booting_of_set (by simp [Post.wait]) c again
    exact absurd (logged.boots c before).1 other
  · intro _
    refine ⟨[], by simp [frames], ?_⟩
    show ((s.setPost .mb6288 _).post .mb6288).Logs _ []
    rw [setPost_same]
    simp [Post.Logs, Post.wait, Reader.finishing, copies]
  · show ((s.setPost .mb6288 (s.post .mb6288).wait).post .mbOled).Logs displayed s.shown
    rw [setPost_other s _ (by decide)]
    exact logged.shown

theorem Logged.handle {mail : Mail} {copied : List UInt8} (logged : Logged utf82gbk s)
    (handling : (s.post b).reader = .handling mail copied) :
    Logged utf82gbk ((s.setPost b (s.post b).wait).handle utf82gbk b copied) := by
  have running : (s.post b).wait.reader ≠ .booting := by simp [Post.wait]
  cases b with
  | mb6288 =>
    obtain ⟨log, frames, logs⟩ := logged.spoken (by simp [handling])
    refine ⟨?_, ?_, ?_⟩
    · intro c booting
      obtain ⟨other, before⟩ := booting_of_set running c booting
      exact absurd (logged.boots c before).1 other
    · intro _
      refine ⟨log ++ [frameText utf82gbk copied], ?_, ?_⟩
      · show s.frames ++ [frameText utf82gbk copied] = _
        rw [frames, List.cons_append]
      · rw [handle_post, setPost_same]
        exact logs.handled handling
    · rw [handle_post, setPost_other s _ (by decide)]
      exact logged.shown
  | mbOled =>
    refine ⟨?_, ?_, ?_⟩
    · intro c booting
      obtain ⟨other, before⟩ := booting_of_set running c booting
      rw [handle_post, setPost_other s _ other]
      exact logged.boots c before
    · rw [handle_post, setPost_other s _ (by decide)]
      exact logged.spoken
    · rw [handle_post, setPost_same]
      exact logged.shown.handled handling
  | mbTime => exact logged.set (by simp [handling]) running fun watched => absurd rfl watched

theorem step_logged (logged : Logged utf82gbk s) (step : Step utf82gbk s a t) :
    Logged utf82gbk t := by
  cases step with
  | payload => exact logged.congr rfl rfl (fun _ => rfl) fun _ => rfl
  | terminator => exact logged.congr rfl rfl (fun _ => rfl) fun _ => rfl
  | send next =>
    exact logged.congr rfl rfl (fun c => (send_reader_copies _ c).1) fun c => (send_reader_copies _ c).2
  | boot booting => exact logged.boot booting
  | poll => exact logged
  | receive waiting received =>
    exact logged.set (by simp [waiting]) (by simp) fun _ _ _ logs => logs.receive waiting
  | copy copying =>
    refine logged.set (by simp [copying]) ?_ fun _ _ _ logs => logs.copy copying
    unfold Post.copy
    split
    · simp
    · split <;> simp
  | handle handling => exact logged.handle handling

end Board
end BleSpeaker.Ble
