import Hunks.Action
import Hunks.Error
import Hunks.Program

namespace Hunks

/-- A program whose operations may fail: one with a limit works that many times more. -/
structure Host where
  program : Program
  limits : List (Operation × Nat)

structure HostError where
  operation : Operation
  address : Option Int
  inner : AccessError
  deriving DecidableEq, Repr

namespace HostError

def message (e : HostError) : String :=
  match e.address with
  | some address => s!"{e.operation.name} at {Text.address address} failed: {e.inner.message}"
  | none => s!"{e.operation.name} failed: {e.inner.message}"

end HostError

namespace Host

def ofProgram (program : Program) : Host := ⟨program, []⟩

abbrev Access (α : Type) : Type := Action Host AccessError α

def spend (operation : Operation) : List (Operation × Nat) → List (Operation × Nat)
  | [] => []
  | (other, n) :: limits =>
    if other = operation then (other, n - 1) :: limits else (other, n) :: spend operation limits

/-- Every call counts, also one that an operation makes of another. -/
def enter (operation : Operation) : Access Unit := do
  let host ← get
  match host.limits.lookup operation with
  | some 0 => throw (.injected operation)
  | some _ => set { host with limits := spend operation host.limits }
  | none => pure ()

def ask {α : Type} (operation : Operation) (f : Program → Except AccessError α) : Access α := do
  enter operation
  Action.ofExcept (f (← get).program)

def change (f : Program → Program) : Access Unit :=
  modify fun host ↦ { host with program := f host.program }

def changeMemory {α : Type} (operation : Operation)
    (f : Memory → Except AccessError (α × Memory)) : Access α := do
  let (a, memory) ← ask operation fun program ↦ f program.memory
  change fun program ↦ { program with memory }
  return a

def createBlock (plan : Region.Plan) : Access Region := do
  let region ← changeMemory .createBlock (Memory.create plan)
  Action.debug s!"created {region.describe}"
  return region

def getBlock (name : String) : Access (Option Region) :=
  ask .getBlock fun program ↦ .ok (program.memory.named? name)

def setBytes (address : Int) (bytes : Bytes) : Access Unit :=
  changeMemory .setBytes fun memory ↦ do return ((), ← memory.write address bytes)

def readBytes (address size : Int) : Access Bytes :=
  ask .readBytes fun program ↦ program.memory.read address size

def readNumber (operation : Operation) (size : Nat) (address : Int) : Access Nat := do
  enter operation
  return Bytes.toNat (← readBytes address size).toList

def contains (address : Int) : Access Bool :=
  ask .contains fun program ↦ .ok (program.memory.contains address)

def find (start : Int) (pattern : List UInt8) : Access (Option Int) :=
  ask .find fun program ↦ .ok (program.memory.find? start pattern)

def join (first second : Option Region) : Access Region :=
  changeMemory .join fun memory ↦
    match first, second with
    | some first, some second => memory.join first second
    | none, _ => .error (.noRegion "end")
    | _, none => .error (.noRegion "start")

def convert (region : Option Region) (fill : Int) : Access Region :=
  changeMemory .convert fun memory ↦
    match region with
    | some region => memory.convert region fill
    | none => .error (.noRegion "initialized")

def createLabel (address : Int) (name origin : String) : Access Int := do
  enter .createLabel
  let (address, program) := (← get).program.addLabel ⟨address, name, origin⟩
  change fun _ ↦ program
  return address

def lookupGlobal (name : String) : Access (Option Int) :=
  ask .lookupGlobal fun program ↦ .ok (program.address? name)

def getLabels (address : Int) : Access (List String) :=
  ask .getLabels fun program ↦ .ok (program.labelsAt address)

def declareFunction (address : Int) (name : String) (parameters : List Parameter) :
    Access Unit := do
  enter .declareFunction
  change (·.setFunction address ⟨name, parameters⟩)
  let _ ← createLabel address name Label.imported

def addEntryPoint (address : Int) : Access Unit := do
  enter .addEntryPoint
  change (·.addEntryPoint address)

def createData (address : Int) (type : Option DataType) : Access Unit := do
  enter .createData
  change (·.setData address type)

def addReference (source target : Int) : Access Unit := do
  enter .addReference
  change (·.addReference source target)

/-- Tells which operation failed where. -/
def call {α : Type} (operation : Operation) (address : Option Int) (x : Access α) :
    Action Host HostError α :=
  x.mapError fun inner ↦ ⟨operation, address, inner⟩

end Host

end Hunks
