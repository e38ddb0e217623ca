import Hunks.CommandLine

namespace Hunks.CommandLine

def gatherFile (files : FileTree) (path : String) : IO FileTree := do
  match ← (IO.FS.readBinFile path).toBaseIO with
  | .ok content => return files.put path content.data
  | .error _ => return files

/-- The names of what is in a directory. -/
def entryNames (path : String) : IO (List String) := do
  let entries ← (← IO.FS.realPath path).readDir
  return entries.toList.map fun entry ↦ entry.fileName

/-- Adds what is at a path to the files that a run can see, of a directory the descriptors in it. -/
def gather (files : FileTree) (path : String) : IO FileTree := do
  match ← (entryNames path).toBaseIO with
  | .error _ => gatherFile files path
  | .ok names =>
    let names := names.filter (·.endsWith "fd")
    (names.map (FileTree.below path)).foldlM gatherFile ((FileTree.normal path, none) :: files)

/-- How much of a run is on the screen already. -/
structure Shown where
  output : Nat
  reports : Nat

def Shown.next (shown : Shown) (console : Console) (reports : List Report) : IO Shown := do
  IO.print (String.ofList (console.output.toList.drop shown.output))
  (← IO.getStdout).flush
  (reports.drop shown.reports).forM fun report ↦ IO.eprint (reportLine report)
  return ⟨console.output.length, reports.length⟩

def save (console : Console) (path : Option String) : IO Unit := do
  let some path := path | return
  match console.files.read path with
  | .ok content => IO.FS.writeBinFile path ⟨content⟩
  | .error _ => return

/-- A run that lacks a line of input starts again with one more; what it printed before stays the
same and is not shown again. -/
partial def converse (tool : Tool) (arguments : List String) (output : Option String)
    (files : FileTree) (lines : List String) (shown : Shown) : IO UInt32 := do
  match run tool arguments ⟨files, lines, ""⟩ with
  | .left exit => return exit.code.toUInt32
  | .ran result console reports =>
    let shown ← shown.next console reports
    match result with
    | .ok code =>
      save console output
      return code.toUInt32
    | .error crash =>
      let line ← if crash.isEndOfInput then (← IO.getStdin).getLine else pure ""
      if line = "" then
        IO.eprintln crash.message
        return 1
      let line := (Console.linesOf line).headD ""
      converse tool arguments output (← gather files (Text.strip line)) (lines ++ [line]) shown

def start (tool : Tool) (arguments : List String) : IO UInt32 := do
  match paths tool arguments with
  | .error exit =>
    IO.eprintln tool.usage
    return exit.code.toUInt32
  | .ok paths =>
    let folders := paths.write.toList.map fun path ↦ (FileTree.normal (FileTree.parent path), none)
    converse tool arguments paths.write (← paths.read.foldlM gather folders) [] ⟨0, 0⟩

/-- The first argument names the tool; without one a file is loaded. -/
def launch (arguments : List String) : IO UInt32 := do
  match arguments with
  | [] =>
    IO.eprintln Tool.load.usage
    IO.eprintln Tool.info.usage
    return Exit.usage.code.toUInt32
  | name :: rest =>
    match Tool.ofName? name with
    | some tool => start tool rest
    | none => start .load arguments

end Hunks.CommandLine

def main (arguments : List String) : IO UInt32 :=
  Hunks.CommandLine.launch arguments
