import Mathlib
import Hunks.Proofs.Descriptor.Renderings

namespace Hunks.Descriptor

open Hunks.Action (run)
open Text

/-- The two ways to declare a function in a line. -/
inductive Form where
  | short
  | long
  deriving DecidableEq, Repr

namespace Form

/-- The fields of a list of arguments, without the empty ones. -/
def fields : Form → List Char → List (List Char)
  | short, text => Descriptor.fields text
  | long, text => ((splitArgsFrom 0 [] text).map stripChars).filter (· ≠ [])

/-- In the long form a list without arguments may say so. -/
def isArgument : Form → List Char → Bool
  | short, _ => true
  | long, field => field ≠ "void".toList

/-- The name and the type in a field. -/
def argument : Form → List Char → List Char × Option (List Char)
  | short, field => (field, none)
  | long, field => ((Descriptor.argument field).1, some (Descriptor.argument field).2)

end Form

/-- The fields of a line that declares a function, as they stand there. -/
structure Signature where
  form : Form
  arguments : List (List Char)
  registers : List (List Char)
  deriving DecidableEq, Repr

namespace Signature

def ofLine? (line : List Char) : Option Signature :=
  match shortForm? line with
  | some (_, arguments, registers) => some ⟨.short, Form.short.fields arguments, fields registers⟩
  | none =>
    (longForm? line).map fun ((_, _, arguments), registers) ↦
      ⟨.long, Form.long.fields arguments, fields registers⟩

/-- A field of the list of registers that names one. -/
def namesRegister (field : List Char) : Bool :=
  isRegister (field.map Char.toUpper)

/-- The fields that count, with their places. -/
def kept (counts : List Char → Bool) (parts : List (List Char)) : List (List Char × Nat) :=
  parts.zipIdx.filter fun field ↦ counts field.1

variable (signature : Signature)

/-- The argument that two fields make. -/
def pair (field register : List Char) : Argument :=
  ⟨String.ofList (signature.form.argument field).1, String.ofList (register.map Char.toUpper),
    (signature.form.argument field).2.map String.ofList⟩

/-- The fields that are paired: those that do not count are left out of either list on its own. -/
def pairs : List ((List Char × Nat) × (List Char × Nat)) :=
  (kept signature.form.isArgument signature.arguments).zip (kept namesRegister signature.registers)

/-- The fields that are paired stand at the same place of their lists. -/
def InStep : Prop :=
  ∀ fields ∈ signature.pairs, fields.1.2 = fields.2.2

instance : Decidable signature.InStep :=
  inferInstanceAs (Decidable (∀ fields ∈ signature.pairs, fields.1.2 = fields.2.2))

/-- As many registers as arguments, and fields that all count. -/
structure Complete : Prop where
  length : signature.arguments.length = signature.registers.length
  arguments : ∀ field ∈ signature.arguments, signature.form.isArgument field
  registers : ∀ field ∈ signature.registers, namesRegister field

/-- An argument with the register that stands where its own field does. -/
def Own (argument : Argument) : Prop :=
  ∃ (i : Nat) (field register : List Char), signature.arguments[i]? = some field ∧
    signature.registers[i]? = some register ∧ argument = signature.pair field register

/-- What becomes of the fields of a line. -/
structure Assigns (arguments : List Argument) : Prop where
  inOrder : arguments = signature.pairs.map fun fields ↦ signature.pair fields.1.1 fields.2.1
  own : signature.InStep → ∀ argument ∈ arguments, signature.Own argument
  complete : signature.Complete → signature.InStep ∧ arguments.length = signature.arguments.length

variable {signature} {counts : List Char → Bool} {parts : List (List Char)} {argument : Argument}

theorem own_iff : signature.Own argument ↔
    ∃ fields ∈ signature.arguments.zip signature.registers, argument = signature.pair fields.1 fields.2 := by
  simp only [Own, List.mem_iff_getElem?, List.getElem?_zip_eq_some, Prod.exists]
  constructor
  · intro ⟨i, field, register, hfield, hregister, hpair⟩
    exact ⟨field, register, ⟨i, hfield, hregister⟩, hpair⟩
  · intro ⟨field, register, ⟨i, hfield, hregister⟩, hpair⟩
    exact ⟨i, field, register, hfield, hregister, hpair⟩

instance : Decidable (signature.Own argument) :=
  decidable_of_iff _ own_iff.symm

theorem getElem?_of_mem_kept {field : List Char × Nat} (h : field ∈ kept counts parts) :
    parts[field.2]? = some field.1 :=
  List.mem_zipIdx_iff_getElem?.mp (List.mem_filter.mp h).1

theorem kept_eq_zipIdx (h : ∀ field ∈ parts, counts field) : kept counts parts = parts.zipIdx := by
  apply List.filter_eq_self.mpr
  intro field hm
  exact h field.1 (List.fst_mem_of_mem_zipIdx hm)

theorem map_fst_kept (counts : List Char → Bool) (parts : List (List Char)) :
    (kept counts parts).map Prod.fst = parts.filter counts := by
  have hfilter := List.filter_map (f := Prod.fst) (p := counts) (l := parts.zipIdx)
  rw [List.zipIdx_map_fst] at hfilter
  exact hfilter.symm

theorem own_of_inStep (h : signature.InStep) {fields : (List Char × Nat) × (List Char × Nat)}
    (hm : fields ∈ signature.pairs) : signature.Own (signature.pair fields.1.1 fields.2.1) := by
  have hfield := getElem?_of_mem_kept (List.of_mem_zip hm).1
  have hregister := getElem?_of_mem_kept (List.of_mem_zip hm).2
  rw [← h fields hm] at hregister
  exact ⟨fields.1.2, fields.1.1, fields.2.1, hfield, hregister, rfl⟩

theorem Complete.pairs_eq (h : signature.Complete) :
    signature.pairs = signature.arguments.zipIdx.zip signature.registers.zipIdx := by
  rw [pairs, kept_eq_zipIdx h.arguments, kept_eq_zipIdx h.registers]

theorem Complete.inStep (h : signature.Complete) : signature.InStep := by
  intro fields hm
  rw [h.pairs_eq] at hm
  obtain ⟨i, hi⟩ := List.mem_iff_getElem?.mp hm
  simp only [List.getElem?_zip_eq_some, List.getElem?_zipIdx, Option.map_eq_some_iff] at hi
  obtain ⟨⟨_, -, hfield⟩, _, -, hregister⟩ := hi
  rw [← hfield, ← hregister]

theorem Complete.length_pairs (h : signature.Complete) :
    signature.pairs.length = signature.arguments.length := by
  simp [h.pairs_eq, h.length]

theorem assigns_pairs :
    signature.Assigns (signature.pairs.map fun fields ↦ signature.pair fields.1.1 fields.2.1) where
  inOrder := rfl
  own h := by
    intro argument hm
    obtain ⟨fields, hfields, rfl⟩ := List.mem_map.mp hm
    exact own_of_inStep h hfields
  complete h := by
    rw [List.length_map]
    exact ⟨h.inStep, h.length_pairs⟩

theorem registers_eq (text : List Char) :
    Descriptor.registers text = ((fields text).filter namesRegister).map (List.map Char.toUpper) :=
  List.filter_map

theorem splitArgs_eq (text : List Char) :
    splitArgs text = (Form.long.fields text).filter Form.long.isArgument := by
  rw [splitArgs, Form.fields, List.filter_filter]
  congr 1
  funext field
  simp [Form.isArgument, Bool.and_comm]

/-- What a line of either form is read as. -/
theorem assigns_paired (form : Form) (arguments registers : List Char) :
    (⟨form, form.fields arguments, fields registers⟩ : Signature).Assigns
      (paired (((form.fields arguments).filter form.isArgument).map form.argument)
        (Descriptor.registers registers)) := by
  have hpairs := @assigns_pairs ⟨form, form.fields arguments, fields registers⟩
  rw [paired, registers_eq, List.zip_map, List.map_map, ← map_fst_kept, ← map_fst_kept, List.zip_map,
    List.map_map]
  exact hpairs

end Signature

variable {source text : String} {library : Option String} {number : Nat} {name value : String}
  {arguments : List Argument} {returnType : Option String} {draft draft' : Draft} {descriptor : Descriptor}

/-- The lines among these that add a function, the first one behind the directive of an alias or not. -/
def declaring : (isAlias : Bool) → List Line → List String
  | _, [] => []
  | isAlias, .comment :: lines => declaring isAlias lines
  | isAlias, .directive name _ :: lines => declaring (isAlias || name = "alias" || name = "varargs") lines
  | isAlias, .function text :: lines =>
    if isAlias then declaring false lines else text :: declaring false lines

/-- A function with the arguments of the line. -/
def DeclaredBy (line : String) (function : Prototype) : Prop :=
  ∃ signature, Signature.ofLine? line.toList = some signature ∧ signature.Assigns function.arguments

namespace Draft

theorem of_prototype
    (h : run (prototype source number text) draft = (.ok (name, arguments, returnType), draft')) :
    draft' = draft ∧ ∃ signature, Signature.ofLine? text.toList = some signature ∧
      signature.Assigns arguments := by
  rw [prototype] at h
  split at h <;> rename_i hshort
  · rename_i fields registers
    rw [Action.run_bind_ok (run_pairUp ..)] at h
    cases h
    refine ⟨rfl, _, by rw [Signature.ofLine?, hshort], ?_⟩
    have hassigns := Signature.assigns_paired .short fields registers
    rw [List.filter_eq_self (p := Form.short.isArgument) |>.mpr fun _ _ ↦ rfl] at hassigns
    exact hassigns
  · split at h <;> rename_i hlong
    · rename_i fields registers
      rw [Action.run_bind_ok (run_pairUp ..)] at h
      cases h
      refine ⟨rfl, _, by rw [Signature.ofLine?, hshort, hlong]; rfl, ?_⟩
      have hassigns := Signature.assigns_paired .long fields registers
      rw [← Signature.splitArgs_eq] at hassigns
      exact hassigns
    · cases h

theorem of_directive (h : run (directive source number name value) draft = (.ok (), draft')) :
    draft'.functions = draft.functions ∧
      draft'.isAlias = (draft.isAlias || name = "alias" || name = "varargs") := by
  rw [directive, Action.run_bind_ok (Action.run_get _)] at h
  split at h
  case h_2 =>
    split at h
    · rw [Action.run_set] at h
      cases h
      simp
    · cases h
  case h_5 =>
    split at h
    · rw [Action.run_set] at h
      cases h
      simp
    · cases h
  case h_8 halias hvarargs =>
    have hflag : (draft.isAlias || name = "alias" || name = "varargs") = draft.isAlias := by
      rw [decide_eq_false halias, decide_eq_false hvarargs, Bool.or_false, Bool.or_false]
    rw [hflag]
    split at h
    · rw [Action.run_set] at h
      cases h
      exact ⟨rfl, rfl⟩
    · rw [Action.run_debug] at h
      cases h
      exact ⟨rfl, rfl⟩
  all_goals
    rw [Action.run_set] at h
    cases h
    simp

theorem of_function (h : run (function source number text) draft = (.ok (), draft')) :
    draft'.isAlias = false ∧
      if draft.isAlias then draft'.functions = draft.functions
      else ∃ function, draft'.functions = draft.functions.push function ∧ DeclaredBy text function := by
  rw [function, Action.run_bind_eq_ok] at h
  obtain ⟨⟨name, arguments, returnType⟩, middle, hprototype, h⟩ := h
  obtain ⟨rfl, signature, hline, hassigns⟩ := of_prototype hprototype
  rw [Action.run_bind_ok (Action.run_get _)] at h
  split at h <;> rename_i halias
  · rw [Action.run_bind_ok (Action.run_debug ..), Action.run_set] at h
    cases h
    simp [halias]
  · rw [Action.run_set] at h
    cases h
    rw [if_neg halias]
    exact ⟨by simpa using halias, _, rfl, signature, hline, hassigns⟩

/-- The functions of the lines come in the order of the lines. -/
theorem of_forEach {entries : List (Line × Nat)}
    (h : run (Action.forEach entries fun (line, number) ↦ add source number line) draft = (.ok (), draft')) :
    ∃ functions, draft'.functions.toList = draft.functions.toList ++ functions ∧
      List.Forall₂ DeclaredBy (declaring draft.isAlias (entries.map Prod.fst)) functions := by
  -- the flag of an alias is all that one line leaves for the next one
  induction entries generalizing draft with
  | nil =>
    cases h
    exact ⟨[], (List.append_nil _).symm, .nil⟩
  | cons entry entries ih =>
    obtain ⟨line, number⟩ := entry
    rw [Action.forEach, Action.run_foldl_cons, Action.run_bind_eq_ok] at h
    obtain ⟨_, middle, hadd, hrest⟩ := h
    obtain ⟨functions, hfunctions, hall⟩ := ih hrest
    cases line with
    | comment =>
      cases hadd
      exact ⟨functions, hfunctions, hall⟩
    | directive name value =>
      obtain ⟨hsame, halias⟩ := of_directive hadd
      rw [hsame] at hfunctions
      rw [halias] at hall
      exact ⟨functions, hfunctions, hall⟩
    | function text =>
      obtain ⟨halias, hfunction⟩ := of_function hadd
      rw [halias] at hall
      rw [List.map_cons, declaring]
      split at hfunction <;> rename_i hflag
      · rw [if_pos hflag]
        rw [hfunction] at hfunctions
        exact ⟨functions, hfunctions, hall⟩
      · obtain ⟨function, hpush, hdeclared⟩ := hfunction
        rw [if_neg hflag]
        refine ⟨function :: functions, ?_, .cons hdeclared hall⟩
        rw [hfunctions, hpush, Array.toList_push, List.append_assoc]
        rfl

end Draft

/-- The functions of a text have the arguments of its lines. -/
theorem functions_declared (h : (parse text source library ()).result = .ok descriptor) :
    ∃ library base functions, descriptor = ofFunctions library base functions ∧
      List.Forall₂ DeclaredBy (declaring false ((body text).map Prod.fst)) functions := by
  have hr : (run (parse text source library) ()).1 = .ok descriptor := h
  rw [run_parse] at hr
  rcases hrun : run (Action.forEach (body text) fun (line, number) ↦ Draft.add source number line)
    (Draft.start library) with ⟨_ | _, draft⟩
  · rw [hrun] at hr
    cases hr
  · rw [hrun] at hr
    cases hr
    obtain ⟨functions, hfunctions, hall⟩ := Draft.of_forEach hrun
    exact ⟨_, _, _, rfl, by rwa [hfunctions]⟩

/-- Lines of both forms with an alias between them. -/
def sampleSource : String :=
  "DoThis(value)(d0)\n##alias\nDoIt(value)(d0)\nLONG DoThat(struct Hook *hook, LONG (*cb)(APTR, LONG)) (a0/A2)"

def sampleDeclared : List String :=
  ["DoThis(value)(d0)", "LONG DoThat(struct Hook *hook, LONG (*cb)(APTR, LONG)) (a0/A2)"]

theorem functions_declared_sample :
    ∃ descriptor, (parse sampleSource "<fd>" none ()).result = .ok descriptor ∧
      declaring false ((body sampleSource).map Prod.fst) = sampleDeclared ∧
      (∀ line ∈ sampleDeclared, ∃ signature ∈ Signature.ofLine? line.toList, signature.InStep ∧
        ∀ field ∈ signature.arguments, signature.form.isArgument field) ∧
      ∃ library base functions, descriptor = ofFunctions library base functions ∧
        List.Forall₂ DeclaredBy sampleDeclared functions := by
  have hparse : (parse sampleSource "<fd>" none ()).result = .ok ⟨"<fd>_library", none,
      [(0, ⟨"DoThis", [⟨"value", "D0", none⟩], 30, false, none⟩),
        (1, ⟨"DoThat", [⟨"hook", "A0", some "struct Hook *"⟩, ⟨"cb", "A2", some "LONG (*cb)(APTR, LONG)"⟩],
          36, false, some "LONG"⟩)]⟩ := by
    decide +kernel
  have hlines : declaring false ((body sampleSource).map Prod.fst) = sampleDeclared := by decide +kernel
  have hdeclared := functions_declared hparse
  rw [hlines] at hdeclared
  exact ⟨_, hparse, hlines, by decide +kernel, hdeclared⟩

/-- A field that names two registers is left out, and the register behind it goes to its argument. -/
def shifted : Signature :=
  ⟨.short, ["x".toList, "y".toList], ["d0-d1".toList, "d2".toList]⟩

theorem registers_shifted :
    (parse "Scale(x,y)(d0-d1,d2)\n" "<fd>" none ()).result =
        .ok ⟨"<fd>_library", none, [(0, ⟨"Scale", [⟨"x", "D2", none⟩], 30, false, none⟩)]⟩ ∧
      declaring false ((body "Scale(x,y)(d0-d1,d2)\n").map Prod.fst) = ["Scale(x,y)(d0-d1,d2)"] ∧
      Signature.ofLine? "Scale(x,y)(d0-d1,d2)".toList = some shifted ∧
      shifted.arguments.length = shifted.registers.length ∧ ¬ shifted.Own ⟨"x", "D2", none⟩ := by
  decide +kernel

end Hunks.Descriptor
