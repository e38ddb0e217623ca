import Mathlib
import Hunks.Proofs.Block.Lengths
import Hunks.Proofs.Loops

namespace Hunks

open Decoder
open Hunks.Action (run)

namespace Header

/-- A round of the loop over the names of resident libraries. -/
def decodeLibrary? : Decoder (Option String) := do
  let library ← name
  return if library.isEmpty then none else some library

theorem decodeLibrary?_takes : Takes 4 decodeLibrary? := by
  refine name_spends.bind fun library n hn ↦ .pure fun _ ↦ ?_
  rw [Text.nameSize] at hn
  omega

end Header

namespace RelocGroup

theorem decode?_takes (size : Nat) (text : Nat → Nat → String) : Takes size (decode? size text) :=
  .of_spends (decode?_spends size text) fun _ ↦ Nat.le_mul_of_pos_right size (Nat.succ_pos _)

end RelocGroup

namespace SymbolEntry

theorem decode?_takes : Takes 4 decode? :=
  .of_spends decode?_spends fun _ ↦ Nat.le_add_left 4 _

end SymbolEntry

namespace External

theorem decode?_takes : Takes 4 decode? :=
  .of_spends decode?_spends fun _ ↦ Nat.le_add_right_of_le (Nat.le_add_right 4 _)

end External

namespace Index

theorem decodeUnit?_takes (left : Int) : Takes 6 (decodeUnit? left) := by
  refine .ite (fun _ ↦ .pure fun h ↦ by cases h) fun _ ↦
    IndexUnit.decode_spends.bind fun unit n hn ↦ .pure fun _ ↦ ?_
  rw [IndexUnit.shortCount_eq] at hn
  omega

end Index

namespace Block

variable {executable : Bool} {window : Window} {pos mid pos' : Int}

theorem four_le_encodedSize (block : Block) : 4 ≤ block.encodedSize := by
  cases block with
  | plain frame body =>
    rw [encodedSize]
    exact Nat.le_add_right 4 _
  | library frame blocks =>
    rw [encodedSize]
    omega

/-- A round of the loop over the blocks up to a position. -/
def next? (stop : Int) (block : Decoder Block) : Decoder (Option Block) := do
  if stop ≤ (← position) then
    return none
  return some (← block)

/-- A round of the loop over the blocks of a file. -/
def nextOfAll? (executable : Bool) : Decoder (Option Block) := do
  if ← atEnd then
    return none
  if (← remaining) < 4 then
    fail (.shortTag (← position))
  return some (← decodeWith (nested executable) executable)

theorem decodeAll_eq (executable : Bool) : decodeAll executable = many (nextOfAll? executable) :=
  rfl

theorem run_next?_of_le {stop : Int} {block : Decoder Block} (h : stop ≤ pos) :
    run (next? stop block window) pos = (.ok none, pos) := by
  refine (run_bind_ok run_position).trans ?_
  rw [if_pos h]
  rfl

theorem run_next?_of_lt {stop : Int} {block : Decoder Block} (h : pos < stop) :
    run (next? stop block window) pos = run ((some <$> block) window) pos := by
  refine (run_bind_ok run_position).trans ?_
  rw [if_neg (Int.not_le.mpr h)]
  rfl

theorem run_nextOfAll?_of_le (h : window.stop ≤ pos) :
    run (nextOfAll? executable window) pos = (.ok none, pos) := by
  refine (run_bind_ok run_atEnd).trans ?_
  rw [if_pos (by simpa using h)]
  rfl

theorem run_nextOfAll?_short (h : pos < window.stop) (hs : window.stop - pos < 4) :
    run (nextOfAll? executable window) pos = (.error (.shortTag pos), pos) := by
  refine (run_bind_ok run_atEnd).trans ?_
  rw [if_neg (by simpa using h)]
  refine (run_bind_ok run_remaining).trans ?_
  rw [if_pos hs]
  rfl

theorem run_nextOfAll?_of_lt (h : 4 ≤ window.stop - pos) :
    run (nextOfAll? executable window) pos =
      run ((some <$> decodeWith (nested executable) executable) window) pos := by
  refine (run_bind_ok run_atEnd).trans ?_
  rw [if_neg (by simp; omega)]
  refine (run_bind_ok run_remaining).trans ?_
  rw [if_neg (by omega)]
  rfl

section Takes

variable {block : Decoder Block}

theorem next?_takes (hb : Spends block fun n block ↦ block.encodedSize ≤ n) (stop : Int) :
    Takes 4 (next? stop block) := by
  refine (Spends.free (x := position) fun _ _ ↦ rfl).bind fun here n hn ↦ .ite (fun _ ↦ ?_) fun _ ↦
    hb.bind fun block m hm ↦ .pure ?_
  · exact .pure fun h ↦ by cases h
  · intro _
    have hsize := four_le_encodedSize block
    omega

theorem decodeNested_takes (depth : Nat) (stop : Int) :
    Takes 4 (next? stop (decodeWith (decodeNested executable depth) executable)) :=
  next?_takes (decodeWith_spends fun stop ↦ decodeNested_spends depth stop) stop

theorem nested_takes (stop : Int) :
    Takes 4 (next? stop (decodeWith (nested executable) executable)) :=
  next?_takes (decodeWith_spends nested_spends) stop

theorem nextOfAll?_takes : Takes 4 (nextOfAll? executable) := by
  intro window pos r pos' h
  by_cases hend : window.stop ≤ pos
  · rw [run_nextOfAll?_of_le hend] at h
    cases h
    exact ⟨0, by omega, Or.inl rfl, fun hr ↦ by cases hr⟩
  · by_cases hshort : window.stop - pos < 4
    · rw [run_nextOfAll?_short (by omega) hshort] at h
      cases h
    · rw [run_nextOfAll?_of_lt (by omega)] at h
      obtain ⟨block, hblock, rfl⟩ := map_eq_ok.mp h
      obtain ⟨n, he, hstop, hn⟩ := decodeWith_spends nested_spends _ _ _ _ hblock
      exact ⟨n, he, hstop, fun _ ↦ (four_le_encodedSize block).trans hn⟩

end Takes

/-- A block behaves alike with readers of nested blocks that do so behind its first two words. -/
theorem decodeWith_congr {x y : Int → Decoder (List Block)}
    (h : ∀ stop mid, pos + 8 ≤ mid → mid ≤ window.stop →
      run (x stop window) mid = run (y stop window) mid) :
    run (decodeWith x executable window) pos = run (decodeWith y executable window) pos := by
  refine run_bind_congr rfl fun start here hstart ↦ ?_
  rw [run_position] at hstart
  cases hstart
  refine run_bind_congr rfl fun tag mid htag ↦ ?_
  obtain ⟨n, rfl, -, rfl⟩ := word_spends _ _ _ _ htag
  have hcontent : ∀ kind, run (decodeContent x tag pos kind window) (pos + (4 : Nat)) =
      run (decodeContent y tag pos kind window) (pos + (4 : Nat)) := by
    intro kind
    cases kind with
    | library =>
      refine run_bind_congr rfl fun longs mid hlongs ↦ ?_
      obtain ⟨m, rfl, hstop, rfl⟩ := word_spends _ _ _ _ hlongs
      refine run_bind_congr rfl fun here _ hhere ↦ ?_
      rw [run_position] at hhere
      cases hhere
      refine run_bind_congr rfl fun _ _ hinfo ↦ ?_
      rw [run_info] at hinfo
      cases hinfo
      refine run_bind_congr (h _ _ ?_ ?_) fun _ _ _ ↦ rfl
      · omega
      · omega
    | _ => rfl
  cases kindOfTag? executable tag with
  | none => rfl
  | some kind =>
    dsimp only
    split
    · refine run_bind_congr rfl fun _ _ hdebug ↦ ?_
      cases hdebug
      refine run_bind_congr rfl fun _ _ hdebug ↦ ?_
      cases hdebug
      exact hcontent kind
    · refine run_bind_congr rfl fun _ _ hdebug ↦ ?_
      cases hdebug
      exact hcontent kind

theorem next?_congr {x y : Int → Decoder (List Block)} {stop : Int}
    (h : ∀ stop mid, pos + 8 ≤ mid → mid ≤ window.stop →
      run (x stop window) mid = run (y stop window) mid) :
    run (next? stop (decodeWith x executable) window) pos =
      run (next? stop (decodeWith y executable) window) pos := by
  rcases le_or_gt stop pos with hle | hlt
  · rw [run_next?_of_le hle, run_next?_of_le hle]
  · rw [run_next?_of_lt hlt, run_next?_of_lt hlt, run_map, run_map, decodeWith_congr h]

/-- The depth does not show where it is more than the rest of the window has room for. -/
theorem decodeNested_congr {n m : Nat} (hn : (window.stop - pos).toNat / 8 < n)
    (hm : (window.stop - pos).toNat / 8 < m) (stop : Int) :
    run (decodeNested executable n stop window) pos =
      run (decodeNested executable m stop window) pos := by
  induction n generalizing m stop pos with
  | zero => exact absurd hn (Nat.not_lt_zero _)
  | succ n ih =>
    cases m with
    | zero => exact absurd hm (Nat.not_lt_zero _)
    | succ m =>
      refine many_congr ((decodeNested_takes n stop).mono (by decide)) fun mid hmid ↦ ?_
      refine next?_congr fun stop' mid' hmid' hstop ↦ ?_
      apply ih
      · omega
      · omega

theorem nested_eq_decodeNested {n : Nat} (hn : (window.stop - pos).toNat / 8 < n) (stop : Int) :
    run (nested executable stop window) pos = run (decodeNested executable n stop window) pos :=
  (run_bind_ok run_remaining).trans (decodeNested_congr (Nat.lt_succ_self _) hn stop)

/-- Nested blocks are read by the recursion without a bound on its depth. -/
theorem nested_eq (stop : Int) :
    run (nested executable stop window) pos =
      run (untilStop stop (decodeWith (nested executable) executable) window) pos := by
  rw [nested_eq_decodeNested (Nat.lt_succ_self _)]
  refine many_congr ((decodeNested_takes _ stop).mono (by decide)) fun mid hmid ↦ ?_
  refine next?_congr fun stop' mid' hmid' hstop ↦ ?_
  rw [nested_eq_decodeNested]
  omega

end Block

end Hunks
