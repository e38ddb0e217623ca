import Hunks.Host
import Hunks.Image.Relocate
import Hunks.Slots

namespace Hunks

inductive LinkError where
  | host (e : HostError)
  | relocation (e : RelocationError)
  deriving DecidableEq, Repr

/-- Binds the external symbols of an image. Absolute values get a slot in `defs` that holds them,
names nobody has defined so far get one in `refs`. -/
structure Linker where
  host : Host
  buffers : Array Bytes
  defs : SlotStore
  refs : SlotStore
  entryPoints : Array Int
  diagnostics : Array Diagnostic

namespace Linker

def defsName : String := "DEFS"

def refsName : String := "REFS"

/-- How far above the base of an image the slots of absolute values start. -/
def defsDistance : Int := 0x10000

def startupName : String := "___startup"

def start (host : Host) (buffers : List Bytes) (base imageEnd : Int) : Linker where
  host
  buffers := buffers.toArray
  defs := .empty defsName (base + defsDistance) true
  refs := .empty refsName imageEnd false
  entryPoints := #[]
  diagnostics := #[]

abbrev Link (α : Type) : Type := Action Linker LinkError α

def onHost {α : Type} (operation : Operation) (address : Option Int) (x : Host.Access α) : Link α :=
  ((Host.call operation address x).mapError .host).focus Linker.host
    fun host linker ↦ { linker with host }

def label (address : Int) (name origin : String) : Link Unit := do
  match ← (onHost .createLabel (some address) (Host.createLabel address name origin)).attempt with
  | .ok _ => pure ()
  | .error (.host e) => Action.warn s!"can't create label {name}: {e.message}"
  | .error e => throw e

def lookup (name : String) : Link (Option Int) :=
  onHost .lookupGlobal none (Host.lookupGlobal name)

def defineAbsolute (name : String) (value : Int) : Link Int := do
  if let some address ← lookup name then
    return address
  if let some address := (← get).defs.lookup? name then
    return address
  let (address, defs) := (← get).defs.add name (some value)
  modify fun linker ↦ { linker with defs }
  let place := Text.address address
  Action.debug s!"absolute symbol {name} = {Text.address value} stored at {place}"
  label address name Label.userDefined
  return address

def define (name : String) (address : Int) : Link Int := do
  if let some known ← lookup name then
    if known ≠ address then
      let place := Text.address known
      Action.debug s!"symbol {name} already defined at {place}, ignoring definition at {Text.address address}"
    return known
  label address name Label.userDefined
  return address

/-- The address of a name, for an unknown one that of a new slot. -/
def resolve (name : String) : Link Int := do
  if let some address ← lookup name then
    return address
  if let some address := (← get).refs.lookup? name then
    return address
  let (address, refs) := (← get).refs.add name none
  modify fun linker ↦ { linker with
    refs, diagnostics := linker.diagnostics.push ⟨.unresolvedExternal, name, address⟩ }
  Action.info s!"unresolved external symbol {name}, placeholder at {Text.address address}"
  label address name Label.imported
  return address

def patchValue (kind : RefKind) (target site imageEnd : Int) : Int :=
  match kind with
  | .absolute => target
  | .smallData => target - imageEnd
  | .pcRelative => target - site

def patch (imageEnd segmentAddress : Int) (id : Nat) (reference : Reference) (target offset : Int) :
    Link Unit := do
  let width := reference.width
  let size := ((← get).buffers.getD id #[]).size
  if size < offset + width.bytes then
    throw (.relocation (.reference reference.name id offset))
  let site := segmentAddress + offset
  let value := patchValue reference.kind target site imageEnd
  let place := Text.address site
  let shown := Text.address (Bytes.low32 value)
  Action.debug s!"patching {reference.kind.name} reference to {reference.name} at {place} with {shown}"
  match Bytes.place? ((← get).buffers.getD id #[]) offset width.bytes with
  | none => throw (.relocation (.beforeStart id offset))
  | some start =>
    modify fun linker ↦ { linker with
      buffers := linker.buffers.modify id (Bytes.overwrite · start (Bytes.ofInt width.bytes value)) }

def addDefinition (segmentAddress : Int) (definition : Definition) : Link Unit := do
  if definition.absolute then
    let _ ← defineAbsolute definition.name definition.offset
  else
    let address ← define definition.name (segmentAddress + definition.offset)
    if definition.name = startupName ∧ !(← get).entryPoints.contains address then
      modify fun linker ↦ { linker with entryPoints := linker.entryPoints.push address }

def addReference (imageEnd segmentAddress : Int) (id : Nat) (reference : Reference) : Link Unit := do
  let target ← resolve reference.name
  Action.forEach reference.offsets (patch imageEnd segmentAddress id reference target)

/-- Goes through the segments in order, in each through the definitions and then the references. A
reference to a name that a later segment defines gets a slot, which the definition then keeps. -/
def link (image : Image) (addresses : List Int) (imageEnd : Int) : Link Unit :=
  Action.forEach image.segments.zipIdx fun (segment, id) ↦ do
    let address := addresses.getD id 0
    Action.forEach segment.definitions (addDefinition address)
    Action.forEach segment.references (addReference imageEnd address id)

end Linker

end Hunks
