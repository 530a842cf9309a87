import BleSpeaker.Ble.Board
import BleSpeaker.Kernel.Ipc
import BleSpeaker.Lib.Copying
import BleSpeaker.Lib.Transition

/-!
# The text on the display

`u8g2_get_txt` replaces `text` and releases `oled_sem_event`; `u8g2_dst_thread` takes it without
waiting and replaces `d_text` by `text`. There is no lock, so each of the two copies can be torn by
the other thread at any byte. What saves the display is the order: the semaphore is released behind
the last store into `text`, so a torn `d_text` comes with a semaphore that will be taken again.

`Current` is the invariant. It asks for nothing while `u8g2_get_txt` is busy or the semaphore is
positive; otherwise `text` is at rest, and the copy of it that is under way or made is a copy of the
text that is there now.
-/

namespace BleSpeaker.Display
open Ble Kernel Lib

abbrev Text := Fin maxStr → UInt8

inductive GetTxt where
  | waiting
  | copying (c : Copying maxStr)
  deriving DecidableEq

inductive Dst where
  | outside
  | updating (c : Copying maxStr)
  deriving DecidableEq

structure Screen (ω : Type) where
  text : Text
  dText : Text
  width : ω
  oledSemEvent : Semaphore Unit
  getTxt : GetTxt
  dst : Dst

/-- `seen` is the byte that a load through the mail pointer finds. -/
inductive Act where
  | getTxt (seen : UInt8)
  | dst

variable {ω : Type} (getUTF8Width : Text → ω)

def beginCopy : Copying maxStr := .clearing ⟨0, by decide⟩

def u8g2GetTxt (s : Screen ω) (seen : UInt8) : Screen ω :=
  match s.getTxt with
  | .waiting => { s with getTxt := .copying beginCopy }
  | .copying .finished =>
    { s with oledSemEvent := s.oledSemEvent.rtSemRelease.2.2, getTxt := .waiting }
  | .copying c =>
    { s with
      text := (c.step (fun _ => seen) s.text).2
      getTxt := .copying (c.step (fun _ => seen) s.text).1 }

def u8g2DstThread (s : Screen ω) : Screen ω :=
  match s.dst with
  | .outside =>
    let take := s.oledSemEvent.rtSemTake () false
    { s with oledSemEvent := take.2, dst := if take.1 = .taken then .updating beginCopy else .outside }
  | .updating .finished => { s with width := getUTF8Width s.dText, dst := .outside }
  | .updating c =>
    { s with dText := (c.step s.text s.dText).2, dst := .updating (c.step s.text s.dText).1 }

/-- `启动成功` -/
def tStr : List UInt8 := [229, 144, 175, 229, 138, 168, 230, 136, 144, 229, 138, 159]

def screen : System (Screen ω) Act where
  start :=
    { text := fun i => tStr.getD i 0
      dText := fun _ => 0
      width := getUTF8Width fun _ => 0
      oledSemEvent := { value := 1, value_le := by decide }
      getTxt := .waiting
      dst := .outside }
  next s
    | .getTxt seen => some (u8g2GetTxt s seen)
    | .dst => some (u8g2DstThread getUTF8Width s)

/-! ### The invariant -/

def GetTxt.Sound (text : Text) : GetTxt → Prop
  | .waiting => Copying.Padded text
  | .copying c => c.Written text

def Dst.Follows (text dText : Text) (width : ω) : Dst → Prop
  | .outside => dText = text ∧ width = getUTF8Width text
  | .updating c => c.Matches text dText

structure Current (s : Screen ω) : Prop where
  nobody : s.oledSemEvent.suspendThread = []
  text : s.getTxt.Sound s.text
  follows : s.getTxt = .waiting → s.oledSemEvent.value = 0 →
    s.dst.Follows getUTF8Width s.text s.dText s.width

variable {getUTF8Width} {s : Screen ω}

theorem start_current : Current getUTF8Width (screen getUTF8Width).start := by
  refine ⟨rfl, ?_, fun _ zero => absurd (show 1 = 0 from zero) Nat.one_ne_zero⟩
  show Copying.Padded fun i : Fin maxStr => tStr.getD i 0
  unfold Copying.Padded
  decide

theorem getTxt_current (current : Current getUTF8Width s) (seen : UInt8) :
    Current getUTF8Width (u8g2GetTxt s seen) := by
  have text := current.text
  unfold u8g2GetTxt
  split
  · exact ⟨current.nobody, trivial, fun waiting => GetTxt.noConfusion waiting⟩
  · rename_i finished
    rw [finished] at text
    obtain ⟨-, positive, nobody⟩ := Semaphore.rtSemRelease_pos current.nobody
    exact ⟨nobody, text, fun _ zero => absurd zero (Nat.ne_of_gt positive)⟩
  · rename_i c _ copying
    rw [copying] at text
    exact ⟨current.nobody, Copying.Written.step text _, fun waiting => GetTxt.noConfusion waiting⟩

theorem dst_current (current : Current getUTF8Width s) :
    Current getUTF8Width (u8g2DstThread getUTF8Width s) := by
  have text := current.text
  have follows := current.follows
  unfold u8g2DstThread
  split
  · rename_i outside
    rw [outside] at follows
    by_cases available : 0 < s.oledSemEvent.value
    · obtain ⟨taken, -, list⟩ := Semaphore.rtSemTake_pos () false available
      refine ⟨list.trans current.nobody, text, fun _ _ => ?_⟩
      simp only [taken, if_true]
      trivial
    · rw [Semaphore.rtSemTake_timeout available]
      exact ⟨current.nobody, text, follows⟩
  · rename_i finished
    refine ⟨current.nobody, text, fun waiting zero => ?_⟩
    have copied := follows waiting zero
    rw [finished] at copied
    have same : s.dText = s.text := copied
    exact ⟨same, congrArg getUTF8Width same⟩
  · rename_i c _ updating
    rw [updating] at follows
    refine ⟨current.nobody, text, fun waiting zero => ?_⟩
    -- Nobody writes `text` now, and it ends in its first NUL.
    have padded : Copying.Padded s.text := by
      have waiting : s.getTxt = .waiting := waiting
      rwa [waiting] at text
    exact Copying.Matches.step (follows waiting zero) padded

theorem reachable_current (reached : (screen getUTF8Width).Reachable s) :
    Current getUTF8Width s := by
  refine reached.invariant start_current ?_
  intro s a t current moved
  cases a with
  | getTxt seen =>
    obtain rfl := Option.some.inj moved
    exact getTxt_current current seen
  | dst =>
    obtain rfl := Option.some.inj moved
    exact dst_current current

/-- Whenever `u8g2_get_txt` waits and `u8g2_dst_thread` is outside its update, either an update is
announced or the two modes draw the same text with its own width. -/
theorem text_current (reached : (screen getUTF8Width).Reachable s) (waiting : s.getTxt = .waiting)
    (outside : s.dst = .outside) :
    0 < s.oledSemEvent.value ∨ s.dText = s.text ∧ s.width = getUTF8Width s.text := by
  rcases Nat.eq_zero_or_pos s.oledSemEvent.value with zero | positive
  · have follows := (reachable_current reached).follows waiting zero
    rw [outside] at follows
    exact Or.inr follows
  · exact Or.inl positive

/-- 12 pixels for each character that is not ASCII, which is all that `启动成功` needs. -/
def chineseWidth (text : Text) : Nat :=
  12 * ((List.ofFn text).filter (fun b => 0xC0 ≤ b)).length

theorem text_current_started : ∃ s : Screen Nat, (screen chineseWidth).Reachable s ∧
    s.oledSemEvent.value = 0 ∧ s.dText = s.text ∧ s.width = chineseWidth s.text := by
  have shows : ((screen chineseWidth).run (List.replicate 137 .dst) (screen chineseWidth).start).map
      (fun s => (s.oledSemEvent.value, s.getTxt, s.dst)) = some (0, .waiting, .outside) := by
    decide +kernel
  obtain ⟨s, ran, found⟩ := Option.map_eq_some_iff.mp shows
  simp only [Prod.mk.injEq] at found
  obtain ⟨zero, waiting, outside⟩ := found
  have reached := System.reachable_of_run ran
  rcases text_current reached waiting outside with positive | same
  · omega
  · exact ⟨s, reached, zero, same⟩

end BleSpeaker.Display
