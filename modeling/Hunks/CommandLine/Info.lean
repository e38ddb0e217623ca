import Hunks.Block.Listing
import Hunks.CommandLine.Console

namespace Hunks.CommandLine

structure InfoSettings where
  verbose : Bool
  summary : Bool

namespace InfoSettings

def default : InfoSettings := ⟨false, false⟩

def grammar : Grammar InfoSettings := [
  ⟨["-h", "--help"], .help⟩,
  ⟨["-v"], .flag fun settings ↦ { settings with verbose := true }⟩,
  ⟨["-s"], .flag fun settings ↦ { settings with summary := true }⟩]

end InfoSettings

namespace InfoTool

inductive InfoError where
  | file (e : FileError)
  | parse (e : ParseError)

namespace InfoError

def message : InfoError → String
  | file e => e.message
  | parse e => e.message

end InfoError

def read (path : String) : Action Console InfoError File := do
  let data ← Action.ofExcept (((← get).files.read path).mapError .file)
  let (file, _) ← Action.within 0 ((File.decode none (.ofBytes data none)).mapError .parse)
  return file

/-- Lists the blocks of a file. -/
def run (settings : InfoSettings) (path : String) : Command := do
  match ← (read path).attempt with
  | .error e =>
    logError s!"can't read {path}: {e.message}"
    return 1
  | .ok file =>
    if settings.summary then
      Action.forEach (Listing.summary file) Console.printLine
    else
      Action.tell (Listing.blocks file.blocks)
    return 0

end InfoTool

end Hunks.CommandLine
