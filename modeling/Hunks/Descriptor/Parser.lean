import Hunks.Action
import Hunks.Descriptor.Basic
import Hunks.Descriptor.Declaration
import Hunks.Text.LetterCase
import Hunks.Text.Literal

namespace Hunks.Descriptor

open Text

/-- A line of a descriptor file, the blanks around it left out. -/
inductive Line where
  | comment
  | directive (name value : String)
  | function (text : String)
  deriving DecidableEq, Repr

namespace Line

def ofDirective (text : List Char) : Line :=
  let text := dropBlanks text
  let name := text.takeWhile (!isBlank ·)
  let value := stripChars (text.dropWhile (!isBlank ·))
  directive (lower (String.ofList name)) (String.ofList value)

def ofString (line : String) : Line :=
  match stripChars line.toList with
  | [] => comment
  | '*' :: _ => comment
  | '#' :: '#' :: rest => ofDirective rest
  | '=' :: '=' :: rest => ofDirective rest
  | text => function (String.ofList text)

def isEnd : Line → Bool
  | directive name _ => name = "end"
  | _ => false

end Line

/-- What the lines read so far say. -/
structure Draft where
  library : Option String
  base : Option String
  bias : Int
  isPrivate : Bool
  isAlias : Bool
  functions : Array Prototype

namespace Draft

def start (library : Option String) : Draft where
  library
  base := none
  bias := firstBias
  isPrivate := false
  isAlias := false
  functions := #[]

abbrev Drafting (α : Type) : Type := Action Draft DescriptorError α

def directive (source : String) (line : Nat) (name value : String) : Drafting Unit := do
  let draft ← get
  match name with
  | "base" => set { draft with base := some value }
  | "bias" =>
    match decimal? value with
    | some bias => set { draft with bias }
    | none => throw (.bias source line value)
  | "public" => set { draft with isPrivate := false }
  | "private" => set { draft with isPrivate := true }
  | "reserve" =>
    match if value = "" then some 1 else decimal? value with
    | some count => set { draft with bias := draft.bias + count * vectorSize }
    | none => throw (.reserve source line value)
  | "alias" | "varargs" => set { draft with isAlias := true }
  | _ =>
    if name = "libname" ∧ draft.library.isNone then
      set { draft with library := some (value.replace "." "_") }
    else
      Action.debug s!"{source}:{line}: ignoring directive {name}"

def pairUp (source : String) (line : Nat) (arguments : List (List Char × Option (List Char)))
    (registers : List (List Char)) : Drafting (List Argument) := do
  if arguments.length ≠ registers.length then
    Action.warn s!"{source}:{line}: {arguments.length} arguments but {registers.length} registers"
  return (arguments.zip registers).map fun ((name, type), register) ↦
    ⟨String.ofList name, String.ofList register, type.map String.ofList⟩

/-- The name, the arguments and the type of a function in one of the two forms. -/
def prototype (source : String) (line : Nat) (text : String) :
    Drafting (String × List Argument × Option String) := do
  match shortForm? text.toList with
  | some (name, arguments, registers) =>
    let arguments := (fields arguments).map fun name ↦ (name, none)
    let arguments ← pairUp source line arguments (Descriptor.registers registers)
    return (String.ofList name, arguments, none)
  | none =>
    match longForm? text.toList with
    | some ((type, name, arguments), registers) =>
      let arguments := (splitArgs arguments).map fun declaration ↦
        let (name, type) := argument declaration
        (name, some type)
      let arguments ← pairUp source line arguments (Descriptor.registers registers)
      let type := stripChars type
      return (String.ofList name, arguments, if type = [] then none else some (String.ofList type))
    | none => throw (.function source line text)

/-- An alias shares the place of the function before it. -/
def function (source : String) (line : Nat) (text : String) : Drafting Unit := do
  let (name, arguments, returnType) ← prototype source line text
  let draft ← get
  if draft.isAlias then
    Action.debug s!"{source}:{line}: {name} is an alias"
    set { draft with isAlias := false }
  else
    let function := ⟨name, arguments, draft.bias, draft.isPrivate, returnType⟩
    set { draft with bias := draft.bias + vectorSize, functions := draft.functions.push function }

def add (source : String) (number : Nat) : Line → Drafting Unit
  | .comment => pure ()
  | .directive name value => directive source number name value
  | .function text => function source number text

end Draft

/-- The last part of a path, without its ending. -/
def stem (path : String) : List Char :=
  let name := (path.toList.reverse.takeWhile (· ≠ '/')).reverse
  match name.reverse.dropWhile (· ≠ '.') with
  | _ :: front => if front.all (· = '.') then name else front.reverse
  | [] => name

def libraryOfPath (path : String) : String :=
  let name := lower (String.ofList (stem path))
  let name := if name.endsWith "_lib" then (name.dropEnd 4).copy else name
  name ++ "_library"

/-- The descriptor that a text holds up to its end directive. Without a name of its own the library
is called after the source. -/
def parse (text source : String) (library : Option String) :
    Action Unit DescriptorError Descriptor := do
  let numbered := ((Text.lines text).map Line.ofString).zipIdx 1
  let body := numbered.takeWhile fun (line, _) ↦ !line.isEnd
  let (_, draft) ← Action.within (Draft.start library)
    (Action.forEach body fun (line, number) ↦ Draft.add source number line)
  let library := draft.library.getD (libraryOfPath source)
  let descriptor := ofFunctions library draft.base draft.functions.toList
  Action.info s!"read {descriptor.functions.length} functions of {library} from {source}"
  return descriptor

end Hunks.Descriptor
