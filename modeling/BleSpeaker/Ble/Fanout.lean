import Mathlib.Data.List.Nodup
import BleSpeaker.Ble.Conservation

/-!
# A text for both boxes

`data_parsing` sends a text to `ble_mb_6288` and then to `ble_mb_oled` and looks at neither result.
The two boxes fill independently, so a text can be spoken and not shown, or shown and not spoken.
`enqueued_both_iff` says exactly when this does not happen: whenever the two sends of a text found
their boxes both full or both not full.
-/

namespace BleSpeaker.Ble
open Kernel Lib

namespace Board
variable {utf82gbk : List UInt8 → List UInt8} {s : Board} {p : Parser} {stream : List UInt8}
  {b : Box} {n : Nat} {seg : List UInt8}

def Enqueued (s : Board) (b : Box) (n : Nat) : Prop := ∃ mail ∈ (s.post b).accepted, mail.ordinal = n

/-- The parser has made all the sends of the `n`-th segment. -/
def Settled (s : Board) (n : Nat) : Prop := s.line.todo = [] ∨ n ≠ s.line.mail.ordinal

/-- The number of mails a send of a text found, being 8 or not, is the same for its two boxes. -/
def LevelsAgree (s : Board) : Prop :=
  ∀ x ∈ s.attempts .mb6288, ∀ y ∈ s.attempts .mbOled, x.mail.ordinal = y.mail.ordinal →
    IsText x.mail.segment → (x.level = 8 ↔ y.level = 8)

theorem Sound.enqueued_iff (sound : Sound stream s) (tracked : Tracked s.line s.attempts)
    {x : Attempt} (member : x ∈ s.attempts b) : s.Enqueued b x.mail.ordinal ↔ x.level ≠ 8 := by
  unfold Enqueued
  rw [(sound.post b).counted]
  constructor
  · rintro ⟨mail, accepted, same⟩
    obtain ⟨y, kept, rfl⟩ := List.mem_map.mp accepted
    obtain ⟨attempted, level⟩ := List.mem_filter.mp kept
    -- A box is sent a segment once, so this is the same attempt.
    obtain rfl : y = x := List.inj_on_of_nodup_map (tracked.once b) attempted member same
    simpa using level
  · intro level
    refine ⟨x.mail, List.mem_map_of_mem (List.mem_filter.mpr ⟨member, ?_⟩), rfl⟩
    simpa using level

theorem Tracked.attempted (tracked : Tracked s.line s.attempts)
    (here : (completed dataCmdEnd s.line.consumed)[n]? = some seg) (text : IsText seg)
    (settled : s.Settled n) (both : b ∈ [Box.mb6288, Box.mbOled]) :
    ∃ x ∈ s.attempts b, x.mail.ordinal = n := by
  rcases tracked.text n seg here text b both with ⟨waiting, newest⟩ | sent
  · rcases settled with idle | older
    · rw [idle] at waiting
      simp at waiting
    · exact absurd newest older
  · exact sent

theorem Sound.settled_of_sent (sound : Sound stream s) (tracked : Tracked s.line s.attempts)
    {x y : Attempt} (spoken : x ∈ s.attempts .mb6288) (shown : y ∈ s.attempts .mbOled)
    (same : x.mail.ordinal = y.mail.ordinal) (text : IsText x.mail.segment) :
    s.Settled x.mail.ordinal := by
  by_cases newest : x.mail.ordinal = s.line.mail.ordinal
  · refine Or.inl (List.eq_nil_iff_forall_not_mem.mpr fun c waiting => ?_)
    have sending := sound.line.sending (List.ne_nil_of_mem waiting)
    obtain ⟨front, done, ordinal⟩ := sending.newest
    have segment : x.mail.segment = s.line.mail.segment := by
      have known := tracked.known _ x spoken
      rw [newest, done, ordinal, List.getElem?_concat_length] at known
      exact (Option.some.inj known).symm
    obtain ⟨q, holds, parser⟩ := sending.parsed
    have routed := sending.suffix.subset waiting
    rw [segment] at text
    rw [parser, holds.route_text text.1 text.2] at routed
    simp only [List.mem_cons, List.not_mem_nil, or_false] at routed
    rcases routed with rfl | rfl
    · exact tracked.pending _ waiting x spoken newest
    · exact tracked.pending _ waiting y shown (same ▸ newest)
  · exact Or.inr newest

/-- In every reachable state: the completed texts whose sends are made are enqueued in both boxes or
in neither, exactly when their sends found the boxes both full or both not full. -/
theorem enqueued_both_iff (reached : (board utf82gbk p stream).Reachable s) :
    (∀ n seg, (completed dataCmdEnd s.line.consumed)[n]? = some seg → IsText seg → s.Settled n →
      (s.Enqueued .mb6288 n ↔ s.Enqueued .mbOled n)) ↔ s.LevelsAgree := by
  obtain ⟨sound, tracked⟩ := reachable_tracked reached
  constructor
  · intro together x spoken y shown same text
    have settled := sound.settled_of_sent tracked spoken shown same text
    have both := together _ _ (tracked.known _ x spoken) text settled
    rw [sound.enqueued_iff tracked spoken, same, sound.enqueued_iff tracked shown] at both
    exact not_iff_not.mp both
  · intro agree n seg here text settled
    obtain ⟨x, spoken, rfl⟩ := tracked.attempted here text settled (b := .mb6288) (by simp)
    obtain ⟨y, shown, same⟩ := tracked.attempted here text settled (b := .mbOled) (by simp)
    have segment := tracked.known _ x spoken
    rw [here] at segment
    obtain rfl := Option.some.inj segment
    have levels := agree x spoken y shown same.symm text
    rw [sound.enqueued_iff tracked spoken, ← same, sound.enqueued_iff tracked shown]
    exact not_congr levels

theorem enqueued_both_iff_plain : ∃ s : Board, (board id .zeroed [98, 97]).Reachable s ∧
    completed dataCmdEnd s.line.consumed = [[98]] ∧
    ((∀ n seg, (completed dataCmdEnd s.line.consumed)[n]? = some seg → IsText seg → s.Settled n →
      (s.Enqueued .mb6288 n ↔ s.Enqueued .mbOled n)) ↔ s.LevelsAgree) := by
  have sends : ((board id .zeroed [98, 97]).run (List.replicate 4 .parser)
      (start .zeroed [98, 97])).map (fun s => completed dataCmdEnd s.line.consumed) =
      some [[98]] := by decide
  obtain ⟨s, ran, done⟩ := Option.map_eq_some_iff.mp sends
  have reached := System.reachable_of_run ran
  exact ⟨s, reached, done, enqueued_both_iff reached⟩

/-- Eight control messages `[` fill the box of `main`, which has not asked for one yet. The text `b`
behind them is shown and not spoken. -/
theorem shown_not_spoken :
    ¬ ∀ (utf82gbk : List UInt8 → List UInt8) (p : Parser) (stream : List UInt8) (s : Board),
      (board utf82gbk p stream).Reachable s →
      ∀ n seg, (completed dataCmdEnd s.line.consumed)[n]? = some seg → IsText seg → s.Settled n →
        (s.Enqueued .mb6288 n ↔ s.Enqueued .mbOled n) := by
  intro always
  let stream : List UInt8 := (List.replicate 8 [91, 97]).flatten ++ [98, 97]
  have sends : ((board id .zeroed stream).run (List.replicate 28 .parser)
      (start .zeroed stream)).map (fun s => (s.line.todo, (s.post .mb6288).accepted.map Mail.ordinal,
        (s.post .mbOled).accepted.map Mail.ordinal, (completed dataCmdEnd s.line.consumed)[8]?)) =
      some ([], [0, 1, 2, 3, 4, 5, 6, 7], [8], some [98]) := by decide
  obtain ⟨s, ran, found⟩ := Option.map_eq_some_iff.mp sends
  simp only [Prod.mk.injEq] at found
  obtain ⟨idle, spoken, shown, text⟩ := found
  have both := always id .zeroed stream s (System.reachable_of_run ran) 8 [98] text
    ⟨by decide, by decide⟩ (Or.inl idle)
  have isShown : s.Enqueued .mbOled 8 := List.mem_map.mp (by rw [shown]; simp)
  have isSpoken := List.mem_map.mpr (both.mpr isShown)
  rw [spoken] at isSpoken
  exact absurd isSpoken (by decide)

end Board
end BleSpeaker.Ble
