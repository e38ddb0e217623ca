import Hunks.Bytes
import Hunks.Text.Number

namespace Hunks

/-- A named range of memory; without data its bytes are not initialized. -/
structure Region where
  name : String
  start : Int
  size : Int
  data : Option Bytes
  read : Bool
  write : Bool
  execute : Bool
  deriving DecidableEq, Repr

namespace Region

def stop (region : Region) : Int :=
  region.start + region.size

def initialized (region : Region) : Bool :=
  region.data.isSome

def contains (region : Region) (address : Int) : Bool :=
  region.start ≤ address ∧ address < region.stop

def access (region : Region) : String :=
  flag region.read 'r' ++ flag region.write 'w' ++ flag region.execute 'x'
where
  flag (there : Bool) (letter : Char) : String := if there then letter.toString else "-"

def describe (region : Region) : String :=
  let range := s!"{Text.address region.start}-{Text.address region.stop}"
  let state := if region.initialized then "" else ", uninitialized"
  s!"MemoryBlock({region.name}, {range}, {region.access}{state})"

/-- What is asked for when a region is created. Of data and size one has to be given. -/
structure Plan where
  name : String
  address : Int
  data : Option Bytes := none
  size : Option Int := none
  read : Bool := true
  write : Bool := false
  execute : Bool := false
  initialized : Bool := true

end Region

/-- The operations of a program database. -/
inductive Operation where
  | createBlock
  | getBlock
  | setBytes
  | readBytes
  | readByte
  | readShort
  | readInt
  | contains
  | find
  | join
  | convert
  | createLabel
  | lookupGlobal
  | getLabels
  | declareFunction
  | addEntryPoint
  | createData
  | addReference
  deriving DecidableEq, Repr

namespace Operation

def all : List Operation :=
  [createBlock, getBlock, setBytes, readBytes, readByte, readShort, readInt, contains, find, join,
    convert, createLabel, lookupGlobal, getLabels, declareFunction, addEntryPoint, createData,
    addReference]

def name : Operation → String
  | createBlock => "create_block"
  | getBlock => "get_block"
  | setBytes => "set_bytes"
  | readBytes => "read_bytes"
  | readByte => "read_byte"
  | readShort => "read_short"
  | readInt => "read_int"
  | contains => "contains"
  | find => "find"
  | join => "join"
  | convert => "convert_to_initialized"
  | createLabel => "create_label"
  | lookupGlobal => "lookup_global"
  | getLabels => "get_labels"
  | declareFunction => "declare_function"
  | addEntryPoint => "add_entry_point"
  | createData => "create_data"
  | addReference => "add_reference"

end Operation

/-- Why an operation on a program failed. -/
inductive AccessError where
  | invalidSize (name : String) (size : Int)
  | overlap (name : String) (address : Int) (other : Region)
  | crossesEnd (address size : Int) (region : Region)
  | uninitialized (address : Int) (region : Region)
  | unmapped (address : Int)
  | apart (first second : Region)
  | mixed (first second : Region)
  | injected (operation : Operation)
  | noSize
  | noRegion (field : String)
  | fillRange (fill : Int)
  deriving DecidableEq, Repr

namespace AccessError

def message : AccessError → String
  | invalidSize name size => s!"block {name} has invalid size {size}"
  | overlap name address other =>
    s!"block {name} at {Text.address address} overlaps {other.describe}"
  | crossesEnd address size region =>
    s!"access of {size} bytes at {Text.address address} crosses end of {region.describe}"
  | uninitialized address region =>
    s!"access at {Text.address address} to uninitialized {region.describe}"
  | unmapped address => s!"no memory at {Text.address address}"
  | apart first second =>
    s!"can't join {first.describe} and {second.describe}, they are not adjacent"
  | mixed first second =>
    s!"can't join {first.describe} and {second.describe}, only one of them is initialized"
  | injected operation => s!"injected failure of {operation.name}"
  | noSize => "object of type 'NoneType' has no len()"
  | noRegion field => s!"'NoneType' object has no attribute '{field}'"
  | fillRange _ => "byte must be in range(0, 256)"

end AccessError

/-- Regions in the order of their addresses. -/
abbrev Memory := List Region

namespace Memory

def insert (region : Region) : Memory → Memory
  | [] => [region]
  | other :: memory =>
    if region.start < other.start then region :: other :: memory else other :: insert region memory

def plannedSize (plan : Region.Plan) : Except AccessError Int :=
  match plan.size, plan.data with
  | some size, _ => .ok size
  | none, some data => .ok data.size
  | none, none => .error .noSize

def plannedData (plan : Region.Plan) (size : Int) : Option Bytes :=
  match plan.data with
  | some data => some (data ++ Bytes.zeros (size - data.size).toNat)
  | none => if plan.initialized then some (Bytes.zeros size.toNat) else none

def overlapping? (memory : Memory) (address size : Int) : Option Region :=
  memory.find? fun other ↦ address < other.stop ∧ other.start < address + size

/-- Adds a region, which must not overlap another one. -/
def create (plan : Region.Plan) (memory : Memory) : Except AccessError (Region × Memory) := do
  let size ← plannedSize plan
  if size ≤ 0 then
    throw (.invalidSize plan.name size)
  if let some other := memory.overlapping? plan.address size then
    throw (.overlap plan.name plan.address other)
  let region : Region := {
    name := plan.name
    start := plan.address
    size
    data := plannedData plan size
    read := plan.read
    write := plan.write
    execute := plan.execute }
  return (region, memory.insert region)

def named? (memory : Memory) (name : String) : Option Region :=
  memory.find? fun region ↦ region.name = name

def contains (memory : Memory) (address : Int) : Bool :=
  memory.any fun region ↦ region.contains address

/-- The region and content of `size` bytes at an address, all of which lie in it. -/
def accessible (memory : Memory) (address size : Int) : Except AccessError (Region × Bytes) :=
  match memory.find? fun region ↦ region.contains address with
  | none => .error (.unmapped address)
  | some region =>
    if region.stop < address + size then
      .error (.crossesEnd address size region)
    else
      match region.data with
      | none => .error (.uninitialized address region)
      | some data => .ok (region, data)

/-- Replaces the region that starts where this one does. -/
def update (region : Region) (memory : Memory) : Memory :=
  memory.map fun other ↦ if other.start = region.start then region else other

def write (address : Int) (bytes : Bytes) (memory : Memory) : Except AccessError Memory := do
  let (region, data) ← memory.accessible address bytes.size
  let data := Bytes.overwrite data (address - region.start).toNat bytes.toList
  return memory.update { region with data := some data }

def read (memory : Memory) (address size : Int) : Except AccessError Bytes := do
  let (region, data) ← memory.accessible address size
  let place := address - region.start
  return Bytes.slice data place (place + size)

/-- The first occurrence of a pattern at or after an address, within one region. -/
def find? (start : Int) (pattern : List UInt8) : Memory → Option Int
  | [] => none
  | region :: memory =>
    let here := if region.stop ≤ start then none else
      region.data.bind fun data ↦ Bytes.find? data pattern (start - region.start).toNat
    match here with
    | some place => some (region.start + place)
    | none => find? start pattern memory

/-- Appends a region to the one that ends where it starts. -/
def join (first second : Region) (memory : Memory) : Except AccessError (Region × Memory) := do
  if first.stop ≠ second.start then
    throw (.apart first second)
  if first.initialized ≠ second.initialized then
    throw (.mixed first second)
  let region := { first with
    size := first.size + second.size
    data := first.data.map fun data ↦ data ++ second.data.getD #[] }
  return (region, update region (memory.filter fun other ↦ other.start ≠ second.start))

/-- Fills a region that is not initialized. -/
def convert (region : Region) (fill : Int) (memory : Memory) :
    Except AccessError (Region × Memory) :=
  if region.initialized then
    .ok (region, memory)
  else if 0 ≤ fill ∧ fill < 256 then
    let region := { region with
      data := some (Array.replicate region.size.toNat fill.toNat.toUInt8) }
    .ok (region, memory.update region)
  else
    .error (.fillRange fill)

end Memory

end Hunks
