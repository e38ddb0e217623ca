import Mathlib
import Hunks.Descriptor.Parser
import Hunks.Proofs.Outcome

namespace Hunks.Descriptor

open Hunks.Action (run)
open Text

/-- The lines in front of the end directive with their numbers. -/
def body (text : String) : List (Line × Nat) :=
  (((Text.lines text).map Line.ofString).zipIdx 1).takeWhile fun (line, _) ↦ !line.isEnd

/-- What the lines come to in the end. -/
def Draft.finish (draft : Draft) (source : String) : Descriptor :=
  ofFunctions (draft.library.getD (libraryOfPath source)) draft.base draft.functions.toList

variable {source text : String} {library : Option String} {number : Nat} {line : Line}
  {draft draft' : Draft} {e : DescriptorError} {descriptor : Descriptor}

/-- A text is read line by line. -/
theorem run_parse (text source : String) (library : Option String) :
    (run (parse text source library) ()).1 =
      (run (Action.forEach (body text) fun (line, number) ↦ Draft.add source number line)
        (Draft.start library)).1.map fun _ ↦
          (run (Action.forEach (body text) fun (line, number) ↦ Draft.add source number line)
            (Draft.start library)).2.finish source := by
  rw [parse, Action.run_bind, Action.run_within]
  rw [show ((((Text.lines text).map Line.ofString).zipIdx 1).takeWhile fun (line, _) ↦ !line.isEnd) =
    body text from rfl]
  rcases run (Action.forEach (body text) fun (line, number) ↦ Draft.add source number line)
    (Draft.start library) with ⟨e | _, draft⟩
  · rfl
  · rfl

/-- What is wrong with a line. -/
inductive Line.Fault (source : String) (number : Nat) : Line → DescriptorError → Prop
  | bias {value : String} : decimal? value = none →
    Fault source number (.directive "bias" value) (.bias source number value)
  | reserve {value : String} : value ≠ "" → decimal? value = none →
    Fault source number (.directive "reserve" value) (.reserve source number value)
  | function {text : String} : shortForm? text.toList = none → longForm? text.toList = none →
    Fault source number (.function text) (.function source number text)

namespace Draft

theorem run_pairUp (source : String) (line : Nat) (arguments : List (List Char × Option (List Char)))
    (registers : List (List Char)) (draft : Draft) :
    run (pairUp source line arguments registers) draft =
      (.ok ((arguments.zip registers).map fun ((name, type), register) ↦
        ⟨String.ofList name, String.ofList register, type.map String.ofList⟩), draft) := by
  rw [pairUp]
  split
  · rfl
  · rfl

/-- What a line declares is told by the line alone. -/
theorem fault_of_prototype
    (hr : run (prototype source number text) draft = (.error e, draft')) :
    Line.Fault source number (.function text) e := by
  rw [prototype] at hr
  split at hr <;> rename_i hshort
  · rw [Action.run_bind_ok (run_pairUp ..)] at hr
    cases hr
  · split at hr <;> rename_i hlong
    · rw [Action.run_bind_ok (run_pairUp ..)] at hr
      cases hr
    · cases hr
      exact .function hshort hlong

theorem fault_of_add (hr : run (add source number line) draft = (.error e, draft')) :
    line.Fault source number e := by
  cases line with
  | comment => cases hr
  | directive name value =>
    rw [add, directive, Action.run_bind_ok (Action.run_get _)] at hr
    split at hr
    case h_2 =>
      split at hr <;> rename_i hvalue
      · cases hr
      · cases hr
        exact .bias hvalue
    case h_5 =>
      split at hr <;> rename_i hvalue
      · cases hr
      · cases hr
        split at hvalue <;> rename_i hempty
        · cases hvalue
        · exact .reserve hempty hvalue
    case h_8 =>
      split at hr
      · cases hr
      · cases hr
    all_goals cases hr
  | function text =>
    rw [add, function, Action.run_bind_eq_error] at hr
    obtain hr | ⟨_, _, -, hr⟩ := hr
    · exact fault_of_prototype hr
    · rw [Action.run_bind_ok (Action.run_get _)] at hr
      split at hr
      · cases hr
      · cases hr

end Draft

/-- A text that is refused has a line with this fault in front of its end directive. -/
theorem fault_of_parse (h : (parse text source library ()).result = .error e) :
    ∃ entry ∈ body text, entry.1.Fault source entry.2 e := by
  have hr : (run (parse text source library) ()).1 = .error e := h
  rw [run_parse] at hr
  rcases hrun : run (Action.forEach (body text) fun (line, number) ↦ Draft.add source number line)
    (Draft.start library) with ⟨e' | _, draft⟩
  · rw [hrun] at hr
    cases hr
    obtain ⟨done, entry, rest, middle, hsplit, -, hlast⟩ := Action.of_run_forEach_eq_error hrun
    exact ⟨entry, by simp [hsplit], Draft.fault_of_add hlast⟩
  · rw [hrun] at hr
    cases hr

end Hunks.Descriptor
