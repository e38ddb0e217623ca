import Hunks.Descriptor.Parser
import Hunks.FileTree

namespace Hunks

/-- Why nobody could say what a library's functions are. -/
inductive ResolveError where
  | descriptor (e : DescriptorError)
  | file (e : FileError)
  | endOfInput
  deriving DecidableEq, Repr

namespace ResolveError

def message : ResolveError → String
  | descriptor e => e.message
  | file e => e.message
  | endOfInput => "EOF when reading a line"

/-- Whether it is enough to mention the error and to go on without a descriptor. -/
def isMild : ResolveError → Bool
  | descriptor (.reserve ..) => false
  | descriptor _ => true
  | file _ => true
  | endOfInput => false

end ResolveError

/-- Finds the descriptor of a library; `ρ` is the state of where it looks. -/
def Resolver (ρ : Type) : Type := String → Action ρ ResolveError (Option Descriptor)

/-- Someone to ask. -/
structure Prompt (ρ : Type) where
  confirm : (question : String) → Action ρ ResolveError Bool
  pickFile : (title : String) → (endings : List String) → Action ρ ResolveError (Option String)

namespace Resolver

variable {ρ : Type}

def parse (text source library : String) : Action ρ ResolveError Descriptor := do
  let (descriptor, ()) ← Action.within ()
    ((Descriptor.parse text source (some library)).mapError .descriptor)
  return descriptor

def readFile (files : FileTree) (path library : String) : Action ρ ResolveError Descriptor :=
  match files.read path with
  | .ok content => parse (Text.ofLatin1 content.toList) path library
  | .error e => throw (.file e)

def ofRegistry (registry : Registry) : Resolver ρ :=
  fun library ↦ pure (registry.get? library)

/-- What is in front of the last underscore. -/
def shortName (library : String) : String :=
  match library.toList.reverse.dropWhile (· ≠ '_') with
  | _ :: front => String.ofList front.reverse
  | [] => library

def candidates (library : String) : List String :=
  let short := shortName library
  [library ++ ".sfd", library ++ ".fd", short ++ "_lib.sfd", short ++ "_lib.fd"]

def ofDirectory (files : FileTree) (directory : String) : Resolver ρ := fun library ↦
  match ((candidates library).map (FileTree.below directory)).find? files.isFile with
  | some path => some <$> readFile files path library
  | none => pure none

def ofPrompt (files : FileTree) (prompt : Prompt ρ) : Resolver ρ := fun library ↦ do
  if ← prompt.confirm s!"Do you have {library}.sfd file for this library?" then
    match ← prompt.pickFile "Select file..." ["fd", "sfd"] with
    | some path => some <$> readFile files path library
    | none => return none
  else
    return none

end Resolver

end Hunks
