import BleSpeaker.Ble.Conservation

/-!
# What a consumer copies

A mail is an address, so its text is whatever stands in `_data_` when the consumer gets there. A
mail is intact while the bytes that its consumer has still to read are those of its segment, and
an intact mail is copied as the C string of its segment. The parser keeps the mails intact as long
as no store changes a byte that one of them has still to deliver: `Harmless`. Nothing in the code
sees to that, and `stale_copy` is a run in which a consumer copies text of the next segment.
-/

namespace BleSpeaker.Ble
open Kernel Lib

def Intact (data seg : List UInt8) (k : Nat) : Prop :=
  k ≤ seg.length ∧ ∀ j, k ≤ j → j ≤ seg.length → data[j]? = (seg ++ [0])[j]?

namespace Intact
variable {data seg : List UInt8} {k i : Nat} {c : UInt8}

theorem set (intact : Intact data seg k)
    (harmless : i < k ∨ seg.length < i ∨ data[i]? = some c) : Intact (data.set i c) seg k := by
  refine ⟨intact.1, fun j low high => ?_⟩
  by_cases same : i = j
  · subst same
    have here := intact.2 i low high
    rcases harmless with below | above | already
    · omega
    · omega
    · have inside : i < data.length := (List.getElem?_eq_some_iff.mp already).1
      rw [List.getElem?_set_self inside, ← already, here]
  · rw [List.getElem?_set_ne same]
    exact intact.2 j low high

theorem of_initial (seg rest : List UInt8) (start : k ≤ seg.length) :
    Intact (seg ++ 0 :: rest) seg k := by
  refine ⟨start, fun j _ high => ?_⟩
  rw [show seg ++ 0 :: rest = (seg ++ [0]) ++ rest by simp,
    List.getElem?_append_left (by simp; omega)]

theorem at_end (intact : Intact data seg k) (last : k = seg.length) : data[k]? = some 0 := by
  rw [intact.2 k (Nat.le_refl _) intact.1, last]
  simp

theorem inside (intact : Intact data seg k) (inner : k < seg.length) :
    data[k]? = some seg[k] := by
  rw [intact.2 k (Nat.le_refl _) intact.1, List.getElem?_append_left inner, List.getElem?_eq_getElem inner]

end Intact

namespace Post

def unread (p : Post) (start : Nat) : List (Mail × Nat) :=
  p.mb.queue.map (·, start) ++
    match p.reader with
    | .copying mail k _ => [(mail, k)]
    | _ => []

/-- The mails of this box are intact, the consumer stays inside `_data_`, and the texts copied so
far are those of their segments. -/
structure Delivers (start : Nat) (data : List UInt8) (p : Post) : Prop where
  inside : ∀ mail, p.reader ≠ .overrun mail
  unread : ∀ x ∈ p.unread start, Intact data x.1.segment x.2
  partly : ∀ mail k copied, p.reader = .copying mail k copied →
    copied ++ cstr (mail.segment.drop k) = cstr (mail.segment.drop start)
  copied : ∀ x ∈ p.copies, x.2 = cstr (x.1.segment.drop start)

namespace Delivers
variable {p : Post} {start k i : Nat} {data copied : List UInt8} {mail : Mail} {c : UInt8}
  {mb : Mailbox Mail}

theorem store (delivers : p.Delivers start data)
    (harmless : ∀ x ∈ p.unread start, i < x.2 ∨ x.1.segment.length < i ∨ data[i]? = some c) :
    p.Delivers start (data.set i c) :=
  ⟨delivers.inside, fun x member => (delivers.unread x member).set (harmless x member),
    delivers.partly, delivers.copied⟩

theorem send (delivers : p.Delivers start data) (intact : Intact data mail.segment start) :
    (p.send mail).Delivers start data := by
  refine ⟨delivers.inside, ?_, delivers.partly, delivers.copied⟩
  intro x member
  have old := delivers.unread x
  simp only [Post.unread, Post.send, List.mem_append, List.mem_map] at member old
  rcases member with ⟨queued, member, rfl⟩ | member
  · by_cases full : p.mb.entry = p.mb.size
    · rw [Mailbox.rtMbSend_full full] at member
      exact old (Or.inl ⟨queued, member, rfl⟩)
    · rw [(Mailbox.rtMbSend_queue full).2] at member
      rcases List.mem_append.mp member with before | fresh
      · exact old (Or.inl ⟨queued, before, rfl⟩)
      · obtain rfl := List.mem_singleton.mp fresh
        exact intact
  · exact old (Or.inr member)

theorem queued (delivers : p.Delivers start data) :
    ∀ other ∈ p.mb.queue, Intact data other.segment start := by
  intro other member
  exact delivers.unread (other, start) (List.mem_append_left _ (List.mem_map_of_mem member))

theorem receive (delivers : p.Delivers start data) (received : p.mb.rtMbRecv = some (mail, mb)) :
    Delivers start data { p with mb, reader := .copying mail start [] } := by
  have queued := delivers.queued
  rw [(Mailbox.rtMbRecv_queue received).1] at queued
  refine ⟨by simp, ?_, ?_, delivers.copied⟩
  · intro x member
    simp only [Post.unread, List.mem_append, List.mem_map, List.mem_singleton] at member
    rcases member with ⟨other, member, rfl⟩ | rfl
    · exact queued other (List.mem_cons_of_mem _ member)
    · exact queued mail List.mem_cons_self
  · intro other k copied same
    obtain ⟨rfl, rfl, rfl⟩ := Reader.copying.inj same
    rfl

theorem copy (delivers : p.Delivers start data) (copying : p.reader = .copying mail k copied) :
    (p.copy data mail k copied).Delivers start data := by
  have queued := delivers.queued
  have intact : Intact data mail.segment k :=
    delivers.unread (mail, k) (by simp [Post.unread, copying])
  have partly := delivers.partly mail k copied copying
  -- The byte at `k` is the one of the segment, or the NUL behind it.
  have finishes : cstr (mail.segment.drop k) = [] →
      Delivers start data
        { p with reader := .handling mail copied, copies := p.copies ++ [(mail, copied)] } := by
    intro nothing
    rw [nothing, List.append_nil] at partly
    refine ⟨by simp, ?_, by simp, ?_⟩
    · simpa [Post.unread] using queued
    · intro x member
      rcases List.mem_append.mp member with old | new
      · exact delivers.copied x old
      · obtain rfl := List.mem_singleton.mp new
        exact partly
  rcases Nat.lt_or_ge k mail.segment.length with inner | last
  · have byte := intact.inside inner
    rw [List.drop_eq_getElem_cons inner] at partly finishes
    unfold Post.copy
    rw [byte]
    dsimp only
    by_cases nul : mail.segment[k] = 0
    · rw [if_pos nul]
      exact finishes (by rw [nul, cstr_zero])
    · rw [if_neg nul]
      refine ⟨by simp, ?_, ?_, delivers.copied⟩
      · intro x member
        simp only [Post.unread, List.mem_append, List.mem_map, List.mem_singleton] at member
        rcases member with ⟨other, member, rfl⟩ | rfl
        · exact queued other member
        · exact ⟨inner, fun j low high => intact.2 j (by omega) high⟩
      · intro other j text same
        obtain ⟨rfl, rfl, rfl⟩ := Reader.copying.inj same
        rw [← partly, cstr_cons nul]
        simp
  · have byte := intact.at_end (by have := intact.1; omega)
    unfold Post.copy
    rw [byte]
    exact finishes (by rw [List.drop_of_length_le last, cstr_nil])

theorem wait (delivers : p.Delivers start data) : p.wait.Delivers start data := by
  refine ⟨by simp [Post.wait], ?_, by simp [Post.wait], delivers.copied⟩
  intro x member
  simp only [Post.unread, Post.wait, List.append_nil] at member
  exact delivers.unread x (List.mem_append_left _ member)

end Delivers
end Post

namespace Board
variable {utf82gbk : List UInt8 → List UInt8} {s t : Board} {a : Act} {p : Parser}
  {stream : List UInt8} {b : Box} {watched : Box → Prop}

/-- The parser's next store changes no byte that a mail of a watched box has still to deliver. -/
def Harmless (watched : Box → Prop) (s : Board) (a : Act) : Prop :=
  a = .parser → ∀ store ∈ s.line.nextStore, ∀ b, watched b →
    ∀ x ∈ (s.post b).unread (startIndex b),
      store.1 < x.2 ∨ x.1.segment.length < store.1 ∨ s.line.parser.data[store.1]? = some store.2

theorem Sound.pending_intact (sound : Sound stream s) (pending : b ∈ s.line.todo)
    (short : ∀ seg ∈ completed dataCmdEnd stream, seg.length ≤ 30) :
    Intact s.line.parser.data s.line.mail.segment (startIndex b) := by
  have sending := sound.line.sending (List.ne_nil_of_mem pending)
  obtain ⟨q, holds, parser⟩ := sending.parsed
  obtain ⟨front, done, -⟩ := sending.newest
  have fits := short _ (sound.completed_subset s.line.mail.segment (by rw [done]; simp))
  have data := holds.storeEnd_short fits
  have routed := sending.suffix.subset pending
  rw [parser, data] at routed ⊢
  apply Intact.of_initial
  -- Only a time message is copied from its second byte on, and it has a first one.
  cases b with
  | mb6288 => exact Nat.zero_le _
  | mbOled => exact Nat.zero_le _
  | mbTime =>
    show 1 ≤ s.line.mail.segment.length
    cases segment : s.line.mail.segment with
    | nil => simp [segment, route, strchr] at routed
    | cons c rest => simp

theorem delivers_set {q : Post} {data : List UInt8}
    (before : ∀ c, watched c → (s.post c).Delivers (startIndex c) data)
    (new : watched b → q.Delivers (startIndex b) data) :
    ∀ c, watched c → ((s.setPost b q).post c).Delivers (startIndex c) data := by
  apply forall_setPost (P := fun c q => watched c → q.Delivers (startIndex c) data) new
  exact fun c _ => before c

theorem step_delivers (sound : Sound stream s) (step : Step utf82gbk s a t)
    (short : ∀ seg ∈ completed dataCmdEnd stream, seg.length ≤ 30) (harmless : Harmless watched s a)
    (delivers : ∀ b, watched b → (s.post b).Delivers (startIndex b) s.line.parser.data) :
    ∀ b, watched b → (t.post b).Delivers (startIndex b) t.line.parser.data := by
  cases step with
  | @payload ch rest idle next differs =>
    have store := harmless rfl (s.line.parser.payloadIndex, ch)
      (by simp [Line.nextStore, idle, next, differs])
    exact fun b seen => (delivers b seen).store (store b seen)
  | terminator idle next =>
    have store := harmless rfl (s.line.parser.i, 0) (by simp [Line.nextStore, idle, next])
    exact fun b seen => (delivers b seen).store (store b seen)
  | @send b rest next =>
    have intact := sound.pending_intact (b := b) (by rw [next]; simp) short
    have data : (s.line.sent rest).parser.data = s.line.parser.data := by
      unfold Line.sent
      dsimp only
      split <;> rfl
    show ∀ c, watched c → ((s.setPost b _).post c).Delivers _ (s.line.sent rest).parser.data
    rw [data]
    exact delivers_set delivers fun seen => (delivers b seen).send intact
  | boot => exact delivers_set delivers fun seen => (delivers _ seen).wait
  | poll => exact delivers
  | receive waiting received => exact delivers_set delivers fun seen => (delivers _ seen).receive received
  | copy copying => exact delivers_set delivers fun seen => (delivers _ seen).copy copying
  | handle =>
    rw [handle_line, handle_post]
    exact delivers_set delivers fun seen => (delivers _ seen).wait

theorem start_delivers (p : Parser) (stream : List UInt8) (b : Box) :
    ((start p stream).post b).Delivers (startIndex b) (start p stream).line.parser.data := by
  refine ⟨?_, ?_, ?_, by simp [start]⟩
  · cases b <;> simp [start]
  · cases b <;> simp [start, Post.unread, mailboxInit, Mailbox.rtMbInit_queue]
  · cases b <;> simp [start]

theorem guarded_delivers (short : ∀ seg ∈ completed dataCmdEnd stream, seg.length ≤ 30)
    (reached : (board utf82gbk p stream).Guarded (Harmless watched) s) :
    ∀ b, watched b → (s.post b).Delivers (startIndex b) s.line.parser.data := by
  have both : Sound stream s ∧
      ∀ b, watched b → (s.post b).Delivers (startIndex b) s.line.parser.data := by
    refine System.Guarded.invariant (P := fun s => Sound stream s ∧
      ∀ b, watched b → (s.post b).Delivers (startIndex b) s.line.parser.data) reached ?_ ?_
    · exact ⟨start_sound p stream, fun b _ => start_delivers p stream b⟩
    · intro s a t both harmless moved
      obtain ⟨sound, delivers⟩ := both
      have step := step_of_next moved
      exact ⟨step_sound sound step, step_delivers sound step short harmless delivers⟩
  exact both.2

theorem Sound.copied_attempt (sound : Sound stream s) {x : Mail × List UInt8}
    (copied : x ∈ (s.post b).copies) : ∃ y ∈ (s.post b).attempts, y.mail = x.1 := by
  have accepted : x.1 ∈ (s.post b).accepted := by
    rw [(sound.post b).conserved, List.append_assoc]
    exact List.mem_append_left _ (List.mem_map_of_mem copied)
  rw [(sound.post b).counted] at accepted
  obtain ⟨y, member, same⟩ := List.mem_map.mp accepted
  exact ⟨y, (List.mem_filter.mp member).1, same⟩

/-- In every run whose stores are harmless, a mail belongs to a completed segment, and its consumer
copies exactly this segment out, unless the segment has a NUL in it. -/
theorem copies_exact (short : ∀ seg ∈ completed dataCmdEnd stream, seg.length ≤ 30)
    (reached : (board utf82gbk p stream).Guarded (Harmless fun _ => True) s) :
    ∀ b, ∀ x ∈ (s.post b).copies,
      (completed dataCmdEnd s.line.consumed)[x.1.ordinal]? = some x.1.segment ∧
        (x.2 = x.1.segment.drop (startIndex b) ↔ 0 ∉ x.1.segment.drop (startIndex b)) := by
  intro b x copied
  obtain ⟨sound, tracked⟩ := reachable_tracked reached.reachable
  obtain ⟨y, attempted, same⟩ := sound.copied_attempt copied
  refine ⟨same ▸ tracked.known b y attempted, ?_⟩
  rw [(guarded_delivers short reached b trivial).copied x copied]
  constructor
  · intro whole
    rw [← whole]
    exact cstr_nul_free _
  · exact cstr_of_nul_free

end Board

/-! ### Two runs -/

instance decidableForallBox {P : Box → Prop} [∀ b, Decidable (P b)] : Decidable (∀ b, P b) :=
  decidable_of_iff (P .mb6288 ∧ P .mbOled ∧ P .mbTime)
    ⟨fun all b => by cases b <;> simp [all], fun all => ⟨all _, all _, all _⟩⟩

instance decidableHarmless (s : Board) (a : Act) : Decidable (s.Harmless (fun _ => True) a) :=
  inferInstanceAs (Decidable (a = .parser → ∀ store ∈ s.line.nextStore, ∀ b, True →
    ∀ x ∈ (s.post b).unread (startIndex b),
      store.1 < x.2 ∨ x.1.segment.length < store.1 ∨ s.line.parser.data[store.1]? = some store.2))

theorem copies_exact_plain : ∃ s : Board,
    (Board.board id .zeroed [98, 97]).Guarded (Board.Harmless fun _ => True) s ∧
      (s.post .mb6288).copies = [(⟨0, [98]⟩, [98])] ∧
      ∀ x ∈ (s.post .mb6288).copies,
        (completed dataCmdEnd s.line.consumed)[x.1.ordinal]? = some x.1.segment ∧
          (x.2 = x.1.segment.drop 0 ↔ 0 ∉ x.1.segment.drop 0) := by
  let acts : List Act := List.flatten [[.consumer .mb6288], List.replicate 4 .parser,
    List.replicate 3 (.consumer .mb6288)]
  have copied : ((Board.board id .zeroed [98, 97]).run acts (Board.start .zeroed [98, 97])).map
      (fun s => (s.post .mb6288).copies) = some [(⟨0, [98]⟩, [98])] := by decide
  obtain ⟨s, ran, copies⟩ := Option.map_eq_some_iff.mp copied
  have reached : (Board.board id .zeroed [98, 97]).Guarded (Board.Harmless fun _ => True) s :=
    System.guarded_of_run .start (by decide) ran
  exact ⟨s, reached, copies, Board.copies_exact (by decide) reached .mb6288⟩

/-- `T1a` sets a time mail. Before `changeTime` polls, `b` and `c` of the next message arrive, and
what it copies is `c`. -/
theorem stale_copy :
    ¬ ∀ (utf82gbk : List UInt8 → List UInt8) (p : Parser) (stream : List UInt8) (s : Board),
      (∀ seg ∈ completed dataCmdEnd stream, seg.length ≤ 30) → 0 ∉ stream →
      (Board.board utf82gbk p stream).Reachable s →
      ∀ b, ∀ x ∈ (s.post b).copies, x.2 = x.1.segment.drop (startIndex b) := by
  intro always
  let acts : List Act := List.flatten [List.replicate 6 .parser, List.replicate 3 (.consumer .mbTime)]
  have copied : ((Board.board id .zeroed [84, 49, 97, 98, 99]).run acts
      (Board.start .zeroed [84, 49, 97, 98, 99])).map
      (fun s => (s.post .mbTime).copies) = some [(⟨0, [84, 49]⟩, [99])] := by decide
  obtain ⟨s, ran, copies⟩ := Option.map_eq_some_iff.mp copied
  have exactly := always id .zeroed _ s (by decide) (by decide) (System.reachable_of_run ran) .mbTime
  rw [copies] at exactly
  exact absurd (exactly _ List.mem_cons_self) (by decide)

end BleSpeaker.Ble
