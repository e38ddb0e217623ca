import Hunks.Bytes
import Hunks.Text.Quoted

namespace Hunks

inductive FileError where
  | missing (path : String)
  | notDirectory (path : String)
  | isDirectory (path : String)
  | other (text : String)
  deriving DecidableEq, Repr

namespace FileError

def message : FileError → String
  | missing path => s!"[Errno 2] No such file or directory: {Text.quoted path}"
  | notDirectory path => s!"[Errno 20] Not a directory: {Text.quoted path}"
  | isDirectory path => s!"[Errno 21] Is a directory: {Text.quoted path}"
  | other text => text

end FileError

/-- Files and directories by the parts of their paths; a directory has no content. A file's
directories are there without being listed. -/
abbrev FileTree := List (List String × Option Bytes)

namespace FileTree

inductive Entry where
  | file (content : Bytes)
  | directory
  | missing
  | notDirectory

def parts (path : String) : List String :=
  let names := (path.splitOn "/").filter fun part ↦ part ≠ "" ∧ part ≠ "."
  if path.startsWith "/" then "/" :: names else names

/-- One step along a path whose parts so far are given from its end. -/
def step (upward : List String) (part : String) : List String :=
  match part, upward with
  | "..", ["/"] => ["/"]
  | "..", ".." :: _ => part :: upward
  | "..", _ :: rest => rest
  | _, _ => part :: upward

def normal (path : String) : List String :=
  ((parts path).foldl step []).reverse

def isAbove (path : List String) : Bool :=
  path = ["/"] ∨ path.all (· = "..")

def at? (tree : FileTree) (path : List String) : Entry :=
  match tree.lookup path with
  | some (some content) => .file content
  | some none => .directory
  | none =>
    if isAbove path ∨ tree.any fun (other, _) ↦ path.isPrefixOf other then .directory else .missing

/-- Follows a path; every part of it but the last one has to lead to a directory. -/
def follow (tree : FileTree) (upward : List String) : List String → Entry
  | [] => tree.at? upward.reverse
  | part :: rest =>
    match tree.at? upward.reverse with
    | .directory => follow tree (step upward part) rest
    | .file _ => .notDirectory
    | entry => entry

def entry (tree : FileTree) (path : String) : Entry :=
  if path = "" then
    .missing
  else
    match follow tree [] (parts path) with
    | .file content =>
      if path.endsWith "/" || path.endsWith "/." then .notDirectory else .file content
    | other => other

def isFile (tree : FileTree) (path : String) : Bool :=
  match tree.entry path with
  | .file _ => true
  | _ => false

def read (tree : FileTree) (path : String) : Except FileError Bytes :=
  match tree.entry path with
  | .file content => .ok content
  | .directory => .error (.isDirectory path)
  | .missing => .error (.missing path)
  | .notDirectory => .error (.notDirectory path)

def put (path : String) (content : Bytes) (tree : FileTree) : FileTree :=
  let path := normal path
  (path, some content) :: tree.filter fun (other, _) ↦ other ≠ path

/-- The directory that a path leads into. -/
def parent (path : String) : String :=
  match path.toList.reverse.dropWhile (· ≠ '/') with
  | [] => "."
  | front => String.ofList front.reverse

/-- Writes a file into a directory that is there. -/
def write (path : String) (content : Bytes) (tree : FileTree) : Except FileError FileTree :=
  match tree.entry path with
  | .file _ => .ok (tree.put path content)
  | .directory => .error (.isDirectory path)
  | .notDirectory => .error (.notDirectory path)
  | .missing =>
    match if path = "" then .missing else tree.entry (parent path) with
    | .directory =>
      if path.endsWith "/" then .error (.isDirectory path) else .ok (tree.put path content)
    | _ => .error (.missing path)

/-- A path below a directory, unless it starts from the top. -/
def below (directory path : String) : String :=
  if path.startsWith "/" then path
  else if directory = "" || directory.endsWith "/" then directory ++ path
  else directory ++ "/" ++ path

end FileTree

end Hunks
