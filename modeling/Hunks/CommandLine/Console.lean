import Hunks.CommandLine.Arguments
import Hunks.Load

namespace Hunks.CommandLine

/-- The world of a command: files, lines to read and what was printed. -/
structure Console where
  files : FileTree
  input : List String
  output : String

/-- An error that a command does not handle. -/
inductive Crash where
  | resolve (e : ResolveError)
  | file (e : FileError)
  deriving DecidableEq, Repr

namespace Crash

def message : Crash → String
  | resolve e => e.message
  | file e => e.message

def isEndOfInput : Crash → Bool
  | resolve .endOfInput => true
  | _ => false

end Crash

/-- A command ends with a code, if it ends by itself. -/
abbrev Command : Type := Action Console Crash Nat

namespace Console

variable {ε : Type}

def print (text : String) : Action Console ε Unit :=
  modify fun console ↦ { console with output := console.output ++ text }

def printLine (text : String) : Action Console ε Unit :=
  print (text ++ "\n")

/-- Shows a text and waits for a line. -/
def ask (text : String) : Action Console ResolveError String := do
  print text
  match (← get).input with
  | [] => throw .endOfInput
  | line :: rest =>
    modify fun console ↦ { console with input := rest }
    return line

def prompt : Prompt Console where
  confirm question := do
    let answer := Text.lower (Text.strip (← ask s!"{question} [y/N] "))
    return answer = "y" || answer = "yes"
  pickFile title endings := do
    let shown := ", ".intercalate (endings.map ("*." ++ ·))
    let path := Text.strip (← ask s!"{title} ({shown}): ")
    return if path = "" then none else some path

/-- The lines of an input, the last one perhaps without an end. -/
def linesOf (input : String) : List String :=
  let lines := input.splitOn "\n"
  if lines.getLast? = some "" then lines.dropLast else lines

end Console

def logError (text : String) : Action Console Crash Unit :=
  Action.report .error text

end Hunks.CommandLine
