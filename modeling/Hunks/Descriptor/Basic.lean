import Hunks.IntMap

namespace Hunks

namespace Descriptor

structure Argument where
  name : String
  register : String
  type : Option String
  deriving DecidableEq, Repr

structure Prototype where
  name : String
  arguments : List Argument
  bias : Int
  isPrivate : Bool
  returnType : Option String
  deriving DecidableEq, Repr

def firstBias : Int := 30

def vectorSize : Int := 6

end Descriptor

/-- The functions of a shared library by their places after the four standard vectors. -/
structure Descriptor where
  library : String
  base : Option String
  functions : IntMap Descriptor.Prototype
  deriving DecidableEq, Repr

namespace Descriptor

def at? (descriptor : Descriptor) (index : Int) : Option Prototype :=
  descriptor.functions.get? index

def named? (descriptor : Descriptor) (name : String) : Option Prototype :=
  descriptor.functions.values.find? fun function ↦ function.name = name

def ordered (descriptor : Descriptor) : List Prototype :=
  descriptor.functions.sorted.values

/-- The place of the function at a bias. -/
def indexOf (bias : Int) : Int :=
  Int.fdiv (bias - firstBias) vectorSize

/-- Of two functions at one place the later one counts. -/
def ofFunctions (library : String) (base : Option String) (functions : List Prototype) :
    Descriptor where
  library
  base
  functions := functions.foldl (fun map function ↦ map.put (indexOf function.bias) function) []

end Descriptor

inductive DescriptorError where
  | bias (source : String) (line : Nat) (value : String)
  | function (source : String) (line : Nat) (text : String)
  | reserve (source : String) (line : Nat) (value : String)
  deriving DecidableEq, Repr

namespace DescriptorError

def message : DescriptorError → String
  | bias source line value => s!"{source}:{line}: invalid bias '{value}'"
  | function source line text => s!"{source}:{line}: can't parse function '{text}'"
  | reserve _ _ value => s!"invalid literal for int() with base 10: '{value}'"

end DescriptorError

/-- The descriptors of the libraries known so far, by the names of the libraries. -/
abbrev Registry := List (String × Descriptor)

namespace Registry

def add (descriptor : Descriptor) : Registry → Registry
  | [] => [(descriptor.library, descriptor)]
  | (name, other) :: registry =>
    if name = descriptor.library then
      (name, descriptor) :: registry
    else
      (name, other) :: add descriptor registry

def get? (registry : Registry) (library : String) : Option Descriptor :=
  registry.lookup library

def libraries (registry : Registry) : List String :=
  (registry.map Prod.fst).mergeSort

end Registry

end Hunks
