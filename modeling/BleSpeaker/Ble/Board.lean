import BleSpeaker.Ble.Parsing
import BleSpeaker.Kernel.Ipc
import BleSpeaker.Kernel.Serial
import BleSpeaker.Lib.Transition

/-!
# The parser and its three mail consumers

The four threads that share `_data_`: `data_parsing`, which stores bytes and sends the address of
the buffer, and the consumers of the three boxes, which receive an address and copy the string
through it byte by byte. `main` takes from `ble_mb_6288` and speaks, `u8g2_get_txt` takes from
`ble_mb_oled` and sets `text`, and `changeTime` polls `ble_mb_time`.

Every mail is the address of `_data_`. `Mail` is what the model remembers of it: the segment whose
terminator caused it. `attempts`, `accepted`, `copies`, `consumed` and `shown` are history too; no
step reads them.
-/

namespace BleSpeaker.Ble
open Kernel Lib

structure Mail where
  ordinal : Nat
  segment : List UInt8
  deriving DecidableEq

structure Attempt where
  mail : Mail
  level : Nat
  deriving DecidableEq

inductive Reader where
  | booting
  | waiting
  | copying (mail : Mail) (k : Nat) (copied : List UInt8)
  | handling (mail : Mail) (copied : List UInt8)
  | overrun (mail : Mail)
  deriving DecidableEq

structure Line where
  input : List UInt8
  consumed : List UInt8
  echoed : List UInt8
  parser : Parser
  todo : List Box
  mail : Mail

structure Post where
  mb : Mailbox Mail
  reader : Reader
  attempts : List Attempt
  accepted : List Mail
  copies : List (Mail × List UInt8)

structure Board where
  line : Line
  post : Box → Post
  frames : List (List UInt8)
  text : List UInt8
  shown : List (List UInt8)

/-! ### The parser -/

namespace Line

def takePayload (l : Line) (ch : UInt8) (rest : List UInt8) : Line :=
  { l with
    input := rest
    consumed := l.consumed ++ [ch]
    echoed := l.echoed ++ deviceWrite [ch]
    parser := l.parser.storePayload ch }

def takeEnd (l : Line) (ch : UInt8) (rest : List UInt8) : Line :=
  { input := rest
    consumed := l.consumed ++ [ch]
    echoed := l.echoed ++ deviceWrite [ch]
    parser := l.parser.storeEnd
    todo := route l.parser.storeEnd.data
    mail := ⟨(completed dataCmdEnd l.consumed).length, unfinished dataCmdEnd l.consumed⟩ }

def sent (l : Line) (rest : List Box) : Line :=
  -- `i = 0` stands behind the last send.
  { l with todo := rest, parser := if rest = [] then l.parser.restart else l.parser }

def nextStore (l : Line) : Option (Nat × UInt8) :=
  match l.todo, l.input with
  | [], ch :: _ => some (if ch = dataCmdEnd then (l.parser.i, 0) else (l.parser.payloadIndex, ch))
  | _, _ => none

end Line

namespace Post

def send (p : Post) (mail : Mail) : Post :=
  -- `data_parsing` does not look at the result.
  let result := p.mb.rtMbSend mail
  { p with
    mb := result.2
    attempts := p.attempts ++ [⟨mail, p.mb.entry⟩]
    accepted := if result.1 = .eok then p.accepted ++ [mail] else p.accepted }

def receive (p : Post) (start : Nat) : Option Post :=
  p.mb.rtMbRecv.map fun (mail, mb) => { p with mb, reader := .copying mail start [] }

/-- `strcat` and `rt_strncpy` read on until they meet a NUL. No limit stops the reader inside
`_data_`: `rt_strncpy` has 61 bytes of room. -/
def copy (p : Post) (data : List UInt8) (mail : Mail) (k : Nat) (copied : List UInt8) : Post :=
  match data[k]? with
  | none => { p with reader := .overrun mail }
  | some c =>
    if c = 0 then
      { p with reader := .handling mail copied, copies := p.copies ++ [(mail, copied)] }
    else { p with reader := .copying mail (k + 1) (copied ++ [c]) }

def wait (p : Post) : Post := { p with reader := .waiting }

end Post

/-! ### The consumers -/

/-- `changeTime` copies from `time_input+1`. -/
def startIndex : Box → Nat
  | .mb6288 | .mbOled => 0
  | .mbTime => 1

def maxStr : Nat := 3 * 20 + 1

/-- `rt_strncpy` of `kservice.c`, as the `n` bytes it stores. -/
def rtStrncpy : Nat → List UInt8 → List UInt8
  | 0, _ => []
  | n + 1, [] => List.replicate (n + 1) 0
  | n + 1, c :: src => if c = 0 then List.replicate (n + 1) 0 else c :: rtStrncpy n src

theorem cstr_rtStrncpy {n : Nat} {m : List UInt8} (rest : List UInt8) (free : 0 ∉ m)
    (fits : m.length < n) : cstr (rtStrncpy n (m ++ 0 :: rest)) = m := by
  induction m generalizing n with
  | nil =>
    obtain ⟨n, rfl⟩ := Nat.exists_eq_succ_of_ne_zero (Nat.ne_of_gt fits)
    simp [rtStrncpy, List.replicate_succ]
  | cons b m ih =>
    obtain ⟨n, rfl⟩ := Nat.exists_eq_succ_of_ne_zero (Nat.ne_of_gt (Nat.zero_lt_of_lt fits))
    simp only [List.mem_cons, not_or] at free
    have present : b ≠ 0 := fun nul => free.1 nul.symm
    simp only [List.cons_append, rtStrncpy, if_neg present, cstr_cons present]
    rw [ih free.2 (by simpa using fits)]

/-- `[v16][t3][y1][x1]msga[x0]` -/
def synInitCMD : List UInt8 :=
  [91, 118, 49, 54, 93, 91, 116, 51, 93, 91, 121, 49, 93, 91, 120, 49, 93, 109, 115, 103, 97,
    91, 120, 48, 93]

inductive Act where
  | parser
  | consumer (b : Box)
  deriving DecidableEq

namespace Board
variable (utf82gbk : List UInt8 → List UInt8)

def setPost (s : Board) (b : Box) (p : Post) : Board :=
  { s with post := Function.update s.post b p }

/-- The text `SYN_FrameInfo` gets: the NUL-terminated result of the conversion. -/
def frameText (m : List UInt8) : List UInt8 := cstr (utf82gbk m ++ [0])

def handle (s : Board) (b : Box) (copied : List UInt8) : Board :=
  match b with
  | .mb6288 => { s with frames := s.frames ++ [frameText utf82gbk copied] }
  | .mbOled =>
    let text := rtStrncpy maxStr (copied ++ [0])
    { s with text, shown := s.shown ++ [cstr text] }
  | .mbTime => s

def parserStep (s : Board) : Option Board :=
  match s.line.todo with
  | b :: rest => some { s.setPost b ((s.post b).send s.line.mail) with line := s.line.sent rest }
  | [] =>
    match s.line.input with
    | [] => none
    | ch :: rest =>
      if ch = dataCmdEnd then some { s with line := s.line.takeEnd ch rest }
      else some { s with line := s.line.takePayload ch rest }

def consumerStep (s : Board) (b : Box) : Option Board :=
  match (s.post b).reader with
  | .booting =>
    some { s.setPost b (s.post b).wait with frames := s.frames ++ [frameText utf82gbk synInitCMD] }
  | .waiting =>
    match (s.post b).receive (startIndex b) with
    | some p => some (s.setPost b p)
    -- The poll of `changeTime` fails; the other two threads are suspended.
    | none => if b = .mbTime then some s else none
  | .copying mail k copied =>
    some (s.setPost b ((s.post b).copy s.line.parser.data mail k copied))
  | .handling _ copied => some ((s.setPost b (s.post b).wait).handle utf82gbk b copied)
  | .overrun _ => none

def mailboxInit : Mailbox Mail := .rtMbInit (List.replicate 8 ⟨0, []⟩) (by decide) (by decide)

def start (p : Parser) (input : List UInt8) : Board where
  line :=
    { input, consumed := [], echoed := [], parser := p.restart, todo := [], mail := ⟨0, []⟩ }
  post b :=
    { mb := mailboxInit
      reader := if b = .mb6288 then .booting else .waiting
      attempts := []
      accepted := []
      copies := [] }
  frames := []
  text := List.replicate maxStr 0
  shown := []

def board (p : Parser) (input : List UInt8) : System Board Act where
  start := start p input
  next s
    | .parser => s.parserStep
    | .consumer b => s.consumerStep utf82gbk b

/-! ### What a step can do -/

inductive Step (s : Board) : Act → Board → Prop where
  | payload {ch : UInt8} {rest : List UInt8} (idle : s.line.todo = [])
      (next : s.line.input = ch :: rest) (differs : ch ≠ dataCmdEnd) :
      Step s .parser { s with line := s.line.takePayload ch rest }
  | terminator {rest : List UInt8} (idle : s.line.todo = [])
      (next : s.line.input = dataCmdEnd :: rest) :
      Step s .parser { s with line := s.line.takeEnd dataCmdEnd rest }
  | send {b : Box} {rest : List Box} (next : s.line.todo = b :: rest) :
      Step s .parser { s.setPost b ((s.post b).send s.line.mail) with line := s.line.sent rest }
  | boot {b : Box} (booting : (s.post b).reader = .booting) :
      Step s (.consumer b)
        { s.setPost b (s.post b).wait with frames := s.frames ++ [frameText utf82gbk synInitCMD] }
  | poll (waiting : (s.post .mbTime).reader = .waiting)
      (none : (s.post .mbTime).mb.queue = []) : Step s (.consumer .mbTime) s
  | receive {b : Box} {mail : Mail} {mb : Mailbox Mail} (waiting : (s.post b).reader = .waiting)
      (received : (s.post b).mb.rtMbRecv = some (mail, mb)) :
      Step s (.consumer b)
        (s.setPost b { s.post b with mb, reader := .copying mail (startIndex b) [] })
  | copy {b : Box} {mail : Mail} {k : Nat} {copied : List UInt8}
      (copying : (s.post b).reader = .copying mail k copied) :
      Step s (.consumer b) (s.setPost b ((s.post b).copy s.line.parser.data mail k copied))
  | handle {b : Box} {mail : Mail} {copied : List UInt8}
      (handling : (s.post b).reader = .handling mail copied) :
      Step s (.consumer b) ((s.setPost b (s.post b).wait).handle utf82gbk b copied)

variable {utf82gbk} {s t : Board} {a : Act} {p : Parser} {input : List UInt8} {b c : Box}

theorem step_of_next (moved : (board utf82gbk p input).next s a = some t) :
    Step utf82gbk s a t := by
  cases a with
  | parser =>
    change s.parserStep = some t at moved
    unfold parserStep at moved
    split at moved
    · rename_i b rest next
      obtain rfl := Option.some.inj moved
      exact .send next
    · rename_i idle
      split at moved
      · simp at moved
      · rename_i ch rest next
        split at moved
        · rename_i ends
          subst ends
          obtain rfl := Option.some.inj moved
          exact .terminator idle next
        · rename_i differs
          obtain rfl := Option.some.inj moved
          exact .payload idle next differs
  | consumer b =>
    change s.consumerStep utf82gbk b = some t at moved
    unfold consumerStep at moved
    split at moved
    · rename_i booting
      obtain rfl := Option.some.inj moved
      exact .boot booting
    · rename_i waiting
      split at moved
      · rename_i q received
        obtain ⟨⟨mail, mb⟩, taken, rfl⟩ := Option.map_eq_some_iff.mp received
        obtain rfl := Option.some.inj moved
        exact .receive waiting taken
      · rename_i none
        split at moved
        · rename_i time
          subst time
          obtain rfl := Option.some.inj moved
          exact .poll waiting (Mailbox.rtMbRecv_none.mp (Option.map_eq_none_iff.mp none))
        · simp at moved
    · rename_i mail k copied copying
      obtain rfl := Option.some.inj moved
      exact .copy copying
    · rename_i mail copied handling
      obtain rfl := Option.some.inj moved
      exact .handle handling
    · simp at moved

@[simp] theorem handle_line (s : Board) (b : Box) (copied : List UInt8) :
    (s.handle utf82gbk b copied).line = s.line := by cases b <;> rfl

@[simp] theorem handle_post (s : Board) (b : Box) (copied : List UInt8) :
    (s.handle utf82gbk b copied).post = s.post := by cases b <;> rfl

@[simp] theorem setPost_line (s : Board) (b : Box) (q : Post) : (s.setPost b q).line = s.line := rfl

@[simp] theorem setPost_same (s : Board) (b : Box) (q : Post) : (s.setPost b q).post b = q := by
  simp [setPost]

theorem setPost_other (s : Board) (q : Post) (differs : c ≠ b) :
    (s.setPost b q).post c = s.post c := by
  simp [setPost, differs]

theorem forall_setPost {P : Box → Post → Prop} {q : Post} (new : P b q)
    (others : ∀ c, c ≠ b → P c (s.post c)) : ∀ c, P c ((s.setPost b q).post c) := by
  intro c
  by_cases same : c = b
  · subst same
    rwa [setPost_same]
  · rw [setPost_other s q same]
    exact others c same

end Board
end BleSpeaker.Ble
