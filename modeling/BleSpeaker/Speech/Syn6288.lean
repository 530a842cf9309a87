import BleSpeaker.Kernel.Serial
import BleSpeaker.Lib.CString
import BleSpeaker.Lib.Frames
import BleSpeaker.Lib.Memory

/-!
# The SYN6288 frames

`SYN_FrameInfo` and `YS_SYN_Set` of `syn6288.c`. `Frame_Info` is a local array of 50 bytes, so a call
starts from whatever the stack holds there. `HZdata` is the memory behind the argument, with the NUL
of its string in it.

A frame has room for a text of 44 bytes: `synFrameInfo_exact_iff`. The frames of a run of calls can be
told apart again: `decode` reads the length of a frame and never looks for the head byte, so a text may
have the head byte in it.
-/

namespace BleSpeaker.Speech
open Kernel Lib

structure FrameInfo where
  stores : List Store
  written : List UInt8

def frameInfoSize : Nat := 50

/-- `0x01 | Music << 4` -/
def commandParameter (music : UInt8) : UInt8 := (0x01 : UInt8) ||| music <<< (4 : UInt8)

def synFrameInfo (stack : Nat → UInt8) (music : UInt8) (hzData : List UInt8) : FrameInfo :=
  let hzLength := UInt8.ofNat (strlen hzData)
  let header : List Store :=
    [⟨0, 0xFD⟩, ⟨1, 0x00⟩, ⟨2, hzLength + 3⟩, ⟨3, 0x01⟩, ⟨4, commandParameter music⟩]
  let frameInfo := storeAll stack header
  let ecc := (List.range 5).foldl (fun ecc i => ecc ^^^ frameInfo i) 0
  let ecc := (List.range hzLength.toNat).foldl (fun ecc i => ecc ^^^ hzData.getD i 0) ecc
  let stores := header ++ copyStores 5 (hzData.take hzLength.toNat) ++ [⟨5 + hzLength.toNat, ecc⟩]
  { stores, written := deviceWrite (load (storeAll stack stores) (5 + hzLength.toNat + 1)) }

inductive Com where
  | stop | suspend | recover | chack | powerDown
  deriving DecidableEq, Repr

/-- `SYN_StopCom`, `SYN_SuspendCom`, `SYN_RecoverCom`, `SYN_ChackCom` and `SYN_PowerDownCom` -/
def Com.infoData : Com → List UInt8
  | .stop => [0xFD, 0x00, 0x02, 0x02, 0xFD]
  | .suspend => [0xFD, 0x00, 0x02, 0x03, 0xFC]
  | .recover => [0xFD, 0x00, 0x02, 0x04, 0xFB]
  | .chack => [0xFD, 0x00, 0x02, 0x21, 0xDE]
  | .powerDown => [0xFD, 0x00, 0x02, 0x88, 0x77]

def ysSynSet (infoData : List UInt8) (length : Nat) : List UInt8 := deviceWrite (infoData.take length)

/-! ### The frame of a text -/

variable {stack : Nat → UInt8} {music : UInt8} {hzData : List UInt8}

def frameFront (music : UInt8) (text : List UInt8) : List UInt8 :=
  [0xFD, 0x00, UInt8.ofNat text.length + 3, 0x01, commandParameter music] ++ text

theorem foldl_range_getD (s : List UInt8) (n : Nat) (e : UInt8) (bounded : n ≤ s.length) :
    (List.range n).foldl (fun ecc i => ecc ^^^ s.getD i 0) e = (s.take n).foldl (· ^^^ ·) e := by
  induction n with
  | zero => rfl
  | succ n ih =>
    rw [List.range_succ, List.foldl_append, ih (by omega), List.take_succ_eq_append_getElem (by omega),
      List.foldl_append]
    simp [show n < s.length by omega]

theorem synFrameInfo_stores (short : strlen hzData < 256) :
    (synFrameInfo stack music hzData).stores =
      copyStores 0 (frameFront music (cstr hzData) ++ [xorSum (frameFront music (cstr hzData))]) := by
  have small : (UInt8.ofNat (strlen hzData)).toNat = strlen hzData := UInt8.toNat_ofNat_of_lt' short
  unfold synFrameInfo
  simp only [small]
  rw [foldl_range_getD _ _ _ (strlen_le hzData), take_strlen, copyStores_append, frameFront,
    copyStores_append]
  have checksum : (List.range 5).foldl (fun ecc i => ecc ^^^ storeAll stack
      [⟨0, 0xFD⟩, ⟨1, 0x00⟩, ⟨2, UInt8.ofNat (strlen hzData) + 3⟩, ⟨3, 0x01⟩,
        ⟨4, commandParameter music⟩] i) 0 =
      [0xFD, 0x00, UInt8.ofNat (strlen hzData) + 3, 0x01, commandParameter music].foldl (· ^^^ ·) 0 := rfl
  rw [checksum, ← List.foldl_append]
  simp [copyStores, xorSum, strlen]
  omega

theorem synFrameInfo_written (short : strlen hzData < 256) :
    (synFrameInfo stack music hzData).written =
      frameFront music (cstr hzData) ++ [xorSum (frameFront music (cstr hzData))] := by
  have small : (UInt8.ofNat (strlen hzData)).toNat = strlen hzData := UInt8.toNat_ofNat_of_lt' short
  have whole : (synFrameInfo stack music hzData).written = deviceWrite
      (load (storeAll stack (synFrameInfo stack music hzData).stores) (5 + strlen hzData + 1)) := by
    unfold synFrameInfo
    simp only [small]
  have size : 5 + strlen hzData + 1 =
      (frameFront music (cstr hzData) ++ [xorSum (frameFront music (cstr hzData))]).length := by
    simp [frameFront, strlen]
    omega
  rw [whole, deviceWrite_eq, synFrameInfo_stores short, size, load_copyStores]

theorem synFrameInfo_inBounds (short : strlen hzData ≤ 44) :
    ∀ store ∈ (synFrameInfo stack music hzData).stores, store.index < frameInfoSize := by
  intro store member
  rw [synFrameInfo_stores (by omega)] at member
  have bound := (mem_copyStores member).2
  have size : (cstr hzData).length ≤ 44 := short
  simp only [frameFront, List.length_append, List.length_cons, List.length_nil] at bound
  unfold frameInfoSize
  omega

theorem toNat_length_byte {n : Nat} (short : n ≤ 252) : (UInt8.ofNat n + 3).toNat = n + 3 := by
  rw [UInt8.toNat_add, UInt8.toNat_ofNat_of_lt' (by omega : n < 256)]
  exact Nat.mod_eq_of_lt (by simp; omega)

/-! ### Texts of any length -/

/-- The stores are inside `Frame_Info`, and a text of `n` bytes is on the wire as a whole, with the
number of the bytes that follow in the two bytes of the length. -/
structure FrameInfo.Exact (f : FrameInfo) (n : Nat) : Prop where
  inside : ∀ store ∈ f.stores, store.index < frameInfoSize
  whole : f.written.length = n + 6
  announced : ∃ hi lo, f.written[1]? = some hi ∧ f.written[2]? = some lo ∧
    256 * hi.toNat + lo.toNat = n + 3

theorem length_written (hzData : List UInt8) :
    (synFrameInfo stack music hzData).written.length = (UInt8.ofNat (strlen hzData)).toNat + 6 := by
  unfold synFrameInfo
  dsimp only
  rw [deviceWrite_eq, load, List.length_map, List.length_range]
  omega

theorem checksum_stored (stack : Nat → UInt8) (music : UInt8) (hzData : List UInt8) :
    ∃ store ∈ (synFrameInfo stack music hzData).stores,
      store.index = 5 + (UInt8.ofNat (strlen hzData)).toNat :=
  ⟨_, List.mem_append_right _ (List.mem_singleton_self _), rfl⟩

/-- Of the three limits, the size of the array is the lowest: a text of at most 44 bytes passes all of
them. A longer one that wraps `HZ_Length` to a small number is inside the array again and is not
written as a whole. -/
theorem synFrameInfo_exact_iff {text rest : List UInt8} (nulFree : 0 ∉ text) :
    (synFrameInfo stack music (text ++ 0 :: rest)).Exact text.length ↔ text.length ≤ 44 := by
  have string : cstr (text ++ 0 :: rest) = text := by
    rw [cstr_append_zero, cstr_of_nul_free nulFree]
  have size : strlen (text ++ 0 :: rest) = text.length := by rw [strlen, string]
  constructor
  · rintro ⟨inside, whole, -⟩
    obtain ⟨store, member, index⟩ := checksum_stored stack music (text ++ 0 :: rest)
    have bound := inside store member
    rw [length_written] at whole
    unfold frameInfoSize at bound
    omega
  · intro short
    have written : (synFrameInfo stack music (text ++ 0 :: rest)).written = _ :=
      synFrameInfo_written (by omega)
    rw [string] at written
    refine ⟨synFrameInfo_inBounds (by omega), ?_, 0x00, UInt8.ofNat text.length + 3, ?_, ?_, ?_⟩
    · rw [written]
      simp [frameFront]
    · rw [written]
      rfl
    · rw [written]
      rfl
    · rw [toNat_length_byte (by omega)]
      simp

theorem synFrameInfo_exact_short :
    (synFrameInfo (fun _ => 7) 2 ([98, 99, 100] ++ [0])).Exact 3 := by
  have free : 0 ∉ ([98, 99, 100] : List UInt8) := by decide
  exact (synFrameInfo_exact_iff free).mpr (by decide)

/-- The text of the usage example in `syn6288.h`. -/
def usageExample : List UInt8 :=
  [91, 118, 55, 93, 91, 109, 49, 93, 91, 116, 53, 93, 230, 172, 162, 232, 191, 142, 228, 189, 191,
    231, 148, 168, 231, 187, 191, 230, 183, 177, 230, 151, 151, 232, 136, 176, 229, 186, 151, 83, 89, 78,
    54, 50, 56, 56, 232, 175, 173, 233, 159, 179, 229, 144, 136, 230, 136, 144, 230, 168, 161, 229, 157,
    151]

/-- The usage example has 64 bytes, and its checksum is stored at index 69. -/
theorem usageExample_overruns :
    ¬ ∀ (stack : Nat → UInt8) (music : UInt8) (text rest : List UInt8), music ≤ 15 → 0 ∉ text →
      (synFrameInfo stack music (text ++ 0 :: rest)).Exact text.length := by
  intro always
  have exact := always (fun _ => 0) 2 usageExample [] (by decide) (by decide)
  obtain ⟨store, member, index⟩ := checksum_stored (fun _ => 0) 2 (usageExample ++ [0])
  have bound := exact.inside store member
  rw [index] at bound
  exact absurd bound (by decide)

/-! ### Decoding -/

inductive Command where
  | frameInfo (music : UInt8) (text : List UInt8)
  | set (com : Com)
  deriving DecidableEq

/-- The bytes a call puts on the UART, with the stack it finds. -/
def Command.transmit (stack : Nat → UInt8) : Command → List UInt8
  | .frameInfo music text => (synFrameInfo stack music (text ++ [0])).written
  | .set com => ysSynSet com.infoData 5

def Com.ofByte (b : UInt8) : Option Com :=
  if b = 0x02 then some .stop
  else if b = 0x03 then some .suspend
  else if b = 0x04 then some .recover
  else if b = 0x21 then some .chack
  else if b = 0x88 then some .powerDown
  else none

/-- The command of a frame's body: command byte, parameters and checksum. -/
def decodeBody (body : List UInt8) : Option Command :=
  match body.dropLast with
  | [] => none
  | [command] => (Com.ofByte command).map .set
  | command :: parameter :: text =>
    if command = 0x01 then some (.frameInfo (parameter >>> (4 : UInt8)) text) else none

def decode (bytes : List UInt8) : Option (List Command) :=
  (readStream 0xFD bytes).bind (·.mapM decodeBody)

/-- A command `SYN_FrameInfo` is made for: a known music and a text that fits into `Frame_Info`. -/
def Command.Fits : Command → Prop
  | .frameInfo music text => music ≤ 15 ∧ 0 ∉ text ∧ text.length ≤ 44
  | .set _ => True

theorem shiftRight_commandParameter (known : music ≤ 15) :
    commandParameter music >>> (4 : UInt8) = music := by
  have all : ∀ n : Fin 16, commandParameter (UInt8.ofNat n) >>> (4 : UInt8) = UInt8.ofNat n := by
    decide
  have bound : music.toNat < 16 := by
    have := UInt8.le_iff_toNat_le.mp known
    change music.toNat ≤ 15 at this
    omega
  have here := all ⟨music.toNat, bound⟩
  rwa [UInt8.ofNat_toNat] at here

def Command.body : Command → List UInt8
  | .frameInfo music text =>
    0x01 :: commandParameter music :: text ++ [xorSum (frameFront music text)]
  | .set com => com.infoData.drop 3

theorem Command.transmit_isFrame {c : Command} (fits : c.Fits) (stack : Nat → UInt8) :
    IsFrame 0xFD (c.transmit stack) c.body := by
  cases c with
  | frameInfo music text =>
    obtain ⟨-, nulFree, short⟩ := fits
    have string : cstr (text ++ [0]) = text := by rw [cstr_append_zero, cstr_of_nul_free nulFree]
    have written : (synFrameInfo stack music (text ++ [0])).written = _ :=
      synFrameInfo_written (by rw [strlen, string]; omega)
    rw [string] at written
    refine ⟨⟨0x00, UInt8.ofNat text.length + 3, written, ?_⟩, ?_⟩
    · rw [toNat_length_byte (by omega)]
      simp [Command.body]
    · show xorSum (synFrameInfo stack music (text ++ [0])).written = 0
      rw [written]
      exact xorSum_append_self _
  | set com =>
    show IsFrame 0xFD (deviceWrite (com.infoData.take 5)) _
    rw [deviceWrite_eq]
    refine ⟨⟨0x00, 0x02, ?_, ?_⟩, ?_⟩ <;> cases com <;> decide

theorem Command.decodeBody_body {c : Command} (fits : c.Fits) : decodeBody c.body = some c := by
  cases c with
  | frameInfo music text =>
    simp only [Command.body, decodeBody, List.dropLast_concat, if_true]
    rw [shiftRight_commandParameter fits.1]
  | set com => cases com <;> decide

theorem Command.mapM_decodeBody {commands : List Command} (fits : ∀ c ∈ commands, c.Fits) :
    (commands.map Command.body).mapM decodeBody = some commands := by
  induction commands with
  | nil => rfl
  | cons c commands ih =>
    have first := Command.decodeBody_body (fits c List.mem_cons_self)
    have others := ih fun d member => fits d (List.mem_cons_of_mem _ member)
    simp only [List.map_cons, List.mapM_cons, first, others]
    rfl

/-- Whatever commands are sent, the concatenation of their frames decodes to them. -/
theorem decode_transmit (calls : List ((Nat → UInt8) × Command)) (fits : ∀ c ∈ calls, c.2.Fits) :
    decode (calls.flatMap fun c => c.2.transmit c.1) = some (calls.map Prod.snd) := by
  have frames : List.Forall₂ (IsFrame 0xFD) (calls.map fun c => c.2.transmit c.1)
      ((calls.map Prod.snd).map Command.body) := by
    rw [List.map_map, List.forall₂_map_left_iff, List.forall₂_map_right_iff, List.forall₂_same]
    intro c member
    exact Command.transmit_isFrame (fits c member) c.1
  have each : ∀ c ∈ calls.map Prod.snd, c.Fits := by
    intro c member
    obtain ⟨call, called, rfl⟩ := List.mem_map.mp member
    exact fits call called
  rw [decode, List.flatMap_def, readStream_flatten frames, Option.bind_some,
    Command.mapM_decodeBody each]

theorem decode_transmit_head_byte :
    decode (Com.stop.infoData ++
      [0xFD, 0x00, 0x05, 0x01, 0x21, 0xFD, 0xFD, 0xD8] ++ Com.chack.infoData) =
      some [.set .stop, .frameInfo 2 [0xFD, 0xFD], .set .chack] :=
  decode_transmit [(fun _ => 0, .set .stop), (fun _ => 7, .frameInfo 2 [0xFD, 0xFD]),
    (fun _ => 0, .set .chack)] (by
      simp only [List.forall_mem_cons, List.not_mem_nil, false_implies, implies_true, and_true]
      exact ⟨trivial, ⟨by decide, by decide, by decide⟩, trivial⟩)

end BleSpeaker.Speech
