import Hunks.IntMap
import Hunks.Memory

namespace Hunks

structure DataType where
  name : String
  size : Int
  deriving DecidableEq, Repr

/-- Data types by name; of two with one name the later counts. -/
abbrev Catalog := List DataType

namespace Catalog

/-- A few structures of the operating system, enough to annotate what a load finds. -/
def system : Catalog := [
  ⟨"byte", 1⟩, ⟨"word", 2⟩, ⟨"dword", 4⟩, ⟨"pointer", 4⟩, ⟨"Resident", 26⟩, ⟨"InitTable", 16⟩,
  ⟨"Library", 34⟩, ⟨"ExecBase", 632⟩, ⟨"Custom", 0x200⟩]

def get? (catalog : Catalog) (name : String) : Option DataType :=
  catalog.reverse.find? fun type ↦ type.name = name

def pointer (catalog : Catalog) (name : String) : DataType :=
  match catalog.get? name with
  | some target => ⟨target.name ++ " *", 4⟩
  | none => ⟨"void *", 4⟩

end Catalog

structure Parameter where
  name : String
  type : Option String
  register : Option String
  deriving DecidableEq, Repr

structure Function where
  name : String
  parameters : List Parameter
  deriving DecidableEq, Repr

structure Label where
  address : Int
  name : String
  origin : String
  deriving DecidableEq, Repr

namespace Label

def imported : String := "imported"

def userDefined : String := "user-defined"

def analysis : String := "analysis"

end Label

/-- A program database: memory with labels, functions, types and references in it. -/
structure Program where
  memory : Memory
  labels : Array Label
  functions : IntMap Function
  entryPoints : Array Int
  data : IntMap (Option DataType)
  references : Array (Int × Int)
  deriving DecidableEq, Repr

namespace Program

def empty : Program := ⟨[], #[], [], #[], [], #[]⟩

def address? (program : Program) (name : String) : Option Int :=
  (program.labels.find? fun label ↦ label.name = name).map Label.address

/-- Names are unique: a second label of one name changes nothing, and the first one's address is
the answer. -/
def addLabel (label : Label) (program : Program) : Int × Program :=
  match program.address? label.name with
  | some address => (address, program)
  | none => (label.address, { program with labels := program.labels.push label })

def labelsAt (program : Program) (address : Int) : List String :=
  (program.labels.toList.filter fun label ↦ label.address = address).map Label.name

def setFunction (address : Int) (function : Function) (program : Program) : Program :=
  { program with functions := program.functions.put address function }

def addEntryPoint (address : Int) (program : Program) : Program :=
  if program.entryPoints.contains address then program else
    { program with entryPoints := program.entryPoints.push address }

def setData (address : Int) (type : Option DataType) (program : Program) : Program :=
  { program with data := program.data.put address type }

def addReference (source target : Int) (program : Program) : Program :=
  { program with references := program.references.push (source, target) }

end Program

end Hunks
