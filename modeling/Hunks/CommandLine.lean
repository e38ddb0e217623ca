import Hunks.CommandLine.Info
import Hunks.CommandLine.Load

namespace Hunks.CommandLine

inductive Tool where
  | load
  | info
  deriving DecidableEq, Repr

namespace Tool

def ofName? : String → Option Tool
  | "load" => some load
  | "info" => some info
  | _ => none

def usage : Tool → String
  | load => "load [-h] [-b BASE] [-o FILE] [--fd-dir DIR] [--interactive] [-v] FILE"
  | info => "info [-h] [-v] [-s] FILE"

end Tool

/-- What a command line comes to: it is left early, or a command runs. -/
inductive Run where
  | left (exit : Exit)
  | ran (result : Except Crash Nat) (console : Console) (reports : List Report)

def level (verbose : Bool) : Level :=
  if verbose then .debug else .info

def finish (verbose : Bool) (command : Command) (console : Console) : Run :=
  let outcome := command console
  .ran outcome.result outcome.state (outcome.log.atLeast (level verbose))

def run (tool : Tool) (arguments : List String) (console : Console) : Run :=
  match tool with
  | .load =>
    match LoadSettings.grammar.read .default arguments with
    | .error exit => .left exit
    | .ok (settings, path) => finish settings.verbose (LoadTool.run settings path) console
  | .info =>
    match InfoSettings.grammar.read .default arguments with
    | .error exit => .left exit
    | .ok (settings, path) => finish settings.verbose (InfoTool.run settings path) console

/-- The paths that a command line names. -/
structure Paths where
  read : List String
  write : Option String

def paths (tool : Tool) (arguments : List String) : Except Exit Paths := do
  match tool with
  | .load =>
    let (settings, path) ← LoadSettings.grammar.read .default arguments
    return ⟨[path, settings.descriptors], if settings.output = "" then none else some settings.output⟩
  | .info =>
    let (_, path) ← InfoSettings.grammar.read .default arguments
    return ⟨[path], none⟩

def reportLine (report : Report) : String :=
  s!"{report.level.name}: {report.text}\n"

end Hunks.CommandLine
