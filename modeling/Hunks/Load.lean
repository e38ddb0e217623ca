import Hunks.Link
import Hunks.Resident

namespace Hunks

open Resident (ScanError Scanner Sources)

/-- What an input holds and where it goes. A hunk file goes to a base of the user's choice. -/
inductive LoadSpec where
  | hunks
  | kickstart (base : Int)
  deriving DecidableEq, Repr

namespace LoadSpec

def kickstartEnd : Nat := 0x1000000

def kickstartMagic : List UInt8 := [0x11, 0x11]

/-- Kickstart images end at a fixed address, so their base follows from their length. -/
def ofBytes? (data : Bytes) : Except ParseError (Option LoadSpec) := do
  let kind ← (File.peekKind (.ofBytes data none) 0).result
  if kind ≠ .unknown then
    return some hunks
  if data.size ≤ kickstartEnd ∧ (data.extract 0 2).toList = kickstartMagic then
    return some (kickstart (kickstartEnd - data.size))
  return none

end LoadSpec

inductive LoadError where
  | imageBase (base : Int)
  | parse (e : ParseError)
  | relocation (e : RelocationError)
  | host (e : HostError)
  | access (e : AccessError)
  | resolve (e : ResolveError)
  deriving DecidableEq, Repr

namespace ImageBase

def default : Int := 0x21f000

def least : Int := 0x1000

def limit : Int := 0x80000000

def validate (base : Int) : Except LoadError Int :=
  if least ≤ base ∧ base < limit then .ok base else .error (.imageBase base)

end ImageBase

namespace LoadError

def ofLink : LinkError → LoadError
  | .host e => host e
  | .relocation e => relocation e

def ofScan : ScanError → LoadError
  | .host e => host e
  | .resolve e => resolve e

def message : LoadError → String
  | imageBase base =>
    let range := s!"0x{Text.hex 1 ImageBase.least}..0x{Text.hex 1 (ImageBase.limit - 1)}"
    s!"image base 0x{Text.hex 1 base} outside of {range}"
  | parse e => e.message
  | relocation e => e.message
  | host e => e.message
  | access e => e.message
  | resolve e => e.message

end LoadError

/-- The regions of slots that a load ended with. -/
structure Linkage where
  defs : SlotStore
  refs : SlotStore
  entryPoints : List Int
  deriving DecidableEq, Repr

structure LoadResult where
  kind : FileKind
  image : Option Image
  addresses : List Int
  buffers : List Bytes
  linkage : Option Linkage
  residents : List Resident
  entry : Option Int
  diagnostics : List Diagnostic
  deriving DecidableEq, Repr

/-- How to load: types and base, and whom to ask for descriptors. -/
structure Loader (ρ : Type) where
  types : Catalog
  base : Int
  resolver : Option (Resolver ρ)

/-- What loads change. Without a registry each load starts one of its own. -/
structure Loading (ρ : Type) where
  host : Host
  registry : Option Registry
  lookups : ρ

namespace Loading

variable {ρ : Type}

abbrev Load (ρ α : Type) : Type := Action (Loading ρ) LoadError α

def onHost {α : Type} (x : Host.Access α) : Load ρ α :=
  (x.mapError .access).focus Loading.host fun host loading ↦ { loading with host }

/-- Mentions a failure of the host and goes on without the result. -/
def attempt {α : Type} (operation : Operation) (address : Int) (x : Host.Access α) :
    Load ρ (Option α) := do
  match ← ((Host.call operation (some address) x).attempt (δ := LoadError)).focus Loading.host
      fun host loading ↦ { loading with host } with
  | .ok a => return some a
  | .error e =>
    Action.warn e.message
    return none

def annotate {α : Type} (operation : Operation) (address : Int) (x : Host.Access α) :
    Load ρ Unit := do
  let _ ← attempt operation address x

def createBlock (plan : Region.Plan) : Load ρ (Option Region) :=
  attempt .createBlock plan.address (Host.createBlock plan)

def setFunction (address : Int) (name : String) : Load ρ Unit := do
  annotate .declareFunction address (Host.declareFunction address name [])
  annotate .addEntryPoint address (Host.addEntryPoint address)

def segmentPlan (id : Nat) (segment : Segment) (address : Int) (data : Bytes) : Region.Plan :=
  let name := if segment.name = "" then s!"{segment.kind.name}_{id}" else segment.name
  if segment.kind = .bss then
    { name, address, size := some segment.size, write := true, initialized := false }
  else
    { name, address, data := some data, write := segment.kind = .data,
      execute := segment.kind = .code }

def createSegment (id : Nat) (segment : Segment) (address : Int) (data : Bytes) : Load ρ Unit := do
  if segment.size = 0 then
    Action.debug s!"skipping empty hunk #{id}"
  else
    let _ ← createBlock (segmentPlan id segment address data)

/-- Brings patched references into memory; a BSS segment has no bytes there to patch. -/
def writeBack (id : Nat) (segment : Segment) (address : Int) (data : Bytes) : Load ρ Unit := do
  if segment.references.isEmpty then
    pure ()
  else if segment.kind = .bss then
    Action.warn
      s!"hunk #{id} is a BSS hunk, can't patch references to external symbols in it"
  else
    annotate .setBytes address (Host.setBytes address data)

/-- Slots that an earlier load created keep their addresses. -/
def reserveSlots (store : SlotStore) : Load ρ SlotStore := do
  match ← attempt .getBlock store.base (Host.getBlock store.name) with
  | some (some region) =>
    return { store with base := region.start }.reserve (Int.fdiv region.size SlotStore.slotSize)
  | _ => return store

def createSlots (store : SlotStore) : Load ρ (Option Region) :=
  if store.initialized then
    createBlock { name := store.name, address := store.base, data := some store.content, write := true }
  else
    createBlock {
      name := store.name, address := store.base, size := some store.size, write := true,
      initialized := false }

/-- Appends memory for new slots to the region of the old ones. -/
def extendSlots (store : SlotStore) (region : Region) : Load ρ (Option Region) := do
  let tail ← createBlock {
    name := store.name ++ ".exp", address := region.stop, size := some (store.size - region.size),
    write := true, initialized := false }
  match tail with
  | none => return none
  | some tail =>
    let tail ←
      if store.initialized then
        attempt .convert tail.start (Host.convert (some tail) 0)
      else
        pure (some tail)
    attempt .join region.start (Host.join (some region) tail)

def slotRegion (store : SlotStore) : Load ρ (Option Region) := do
  match (← attempt .getBlock store.base (Host.getBlock store.name)).join with
  | none => createSlots store
  | some region =>
    if region.size < store.size then extendSlots store region else return some region

def fillSlot (loader : Loader ρ) (store : SlotStore) (slot : Slot) (index : Nat) : Load ρ Unit := do
  if slot.name.isSome then
    let address := store.addressOf index
    if store.initialized then
      let bytes := (Bytes.long (slot.value.getD 0)).toArray
      annotate .setBytes address (Host.setBytes address bytes)
    annotate .createData address (Host.createData address (loader.types.get? "dword"))

/-- Creates or extends the region of the slots and writes the new ones. -/
def materialize (loader : Loader ρ) (store : SlotStore) : Load ρ Unit := do
  if store.slots.any fun slot ↦ slot.name.isSome then
    if let some _ ← slotRegion store then
      Action.info s!"{store.name} region at {Text.address store.base} with {store.length} slots"
      Action.forEach store.slots.toList.zipIdx fun (slot, index) ↦ fillSlot loader store slot index

def execBase : Int := 4

def createExec (loader : Loader ρ) : Load ρ Unit := do
  if (← onHost (Host.getBlock "EXEC")).isNone then
    let _ ← createBlock { name := "EXEC", address := execBase, size := some 4, initialized := false }
    annotate .createData execBase
      (Host.createData execBase (some (loader.types.pointer "ExecBase")))

def customBase : Int := 0xdff000

def customSize : Int := 0x200

def createCustom (loader : Loader ρ) : Load ρ Unit := do
  if (← onHost (Host.getBlock "Custom")).isNone then
    Action.info "creating custom chips memory block"
    let _ ← createBlock {
      name := "Custom", address := customBase, size := some customSize, write := true,
      initialized := false }
    annotate .createData customBase (Host.createData customBase (loader.types.get? "Custom"))
    annotate .createLabel customBase (Host.createLabel customBase "Custom" Label.imported)

def scanner (loading : Loading ρ) : Scanner ρ where
  host := loading.host
  registry := loading.registry.getD []
  asked := []
  diagnostics := #[]
  lookups := loading.lookups

def afterScan (scanner : Scanner ρ) (loading : Loading ρ) : Loading ρ where
  host := scanner.host
  registry := loading.registry.map fun _ ↦ scanner.registry
  lookups := scanner.lookups

def scanResidents (loader : Loader ρ) (start : Int) : Load ρ (List Resident × List Diagnostic) := do
  let sources : Sources ρ := ⟨some loader.types, loader.resolver⟩
  let (result, diagnostics) ← Action.focus scanner afterScan (do
    let result ← (Scanner.scan sources start).attempt
    return (result, (← get).diagnostics.toList))
  match result with
  | .ok residents => return (residents, diagnostics)
  | .error (.host e) =>
    Action.warn s!"scanning for resident modules stopped: {e.message}"
    return ([], diagnostics)
  | .error e => throw (.ofScan e)

def runLinker (image : Image) (addresses : List Int) (buffers : List Bytes) (base imageEnd : Int) :
    Load ρ Linker := do
  let linker := Linker.start (← get).host buffers base imageEnd
  let defs ← reserveSlots linker.defs
  let refs ← reserveSlots linker.refs
  let work : Linker.Link Linker := do
    Linker.link image addresses imageEnd
    get
  (work.mapError .ofLink).focus (fun loading ↦ { linker with host := loading.host, defs, refs })
    fun linker loading ↦ { loading with host := linker.host }

def imageEnd (image : Image) (base : Int) (addresses : List Int) : Int :=
  ((addresses.zip image.sizes).map fun (address, size) ↦ address + size).foldl max base

def eachSegment (image : Image) (addresses : List Int) (buffers : List Bytes)
    (f : Nat → Segment → Int → Bytes → Load ρ Unit) : Load ρ Unit :=
  Action.forEach (image.segments.zip (addresses.zip buffers)).zipIdx
    fun ((segment, address, data), id) ↦ f id segment address data

def labelSymbols (segment : Segment) (address : Int) : Load ρ Unit :=
  Action.forEach segment.symbols fun symbol ↦ do
    let place := address + symbol.value
    annotate .createLabel place (Host.createLabel place symbol.name Label.imported)

def entryName : String := "start"

def loadFile (loader : Loader ρ) (file : File) : Load ρ LoadResult := do
  let base := loader.base
  Action.info s!"loading {file.kind.name} at {Text.address base}"
  let (image, ()) ← Action.within () ((Image.ofFile file).mapError .parse)
  let addresses := image.layout base 0
  let (buffers, ()) ← Action.within () ((image.relocate addresses).mapError .relocation)
  eachSegment image addresses buffers createSegment
  Action.info "resolving external symbols..."
  let linker ← runLinker image addresses buffers base (imageEnd image base addresses)
  let buffers := linker.buffers.toList
  eachSegment image addresses buffers writeBack
  materialize loader linker.defs
  materialize loader linker.refs
  Action.forEach linker.entryPoints.toList fun address ↦ setFunction address Linker.startupName
  createExec loader
  createCustom loader
  let first := addresses.head?
  let (residents, notes) ← match first with
    | some address => scanResidents loader address
    | none => pure ([], [])
  let entry := if image.isProgram then first else none
  if let some address := entry then
    setFunction address entryName
  eachSegment image addresses buffers fun _ segment address _ ↦ labelSymbols segment address
  return {
    kind := image.kind
    image := some image
    addresses
    buffers
    linkage := some ⟨linker.defs, linker.refs, linker.entryPoints.toList⟩
    residents
    entry
    diagnostics := linker.diagnostics.toList ++ notes }

def loadKickstart (loader : Loader ρ) (data : Bytes) (base : Int) : Load ρ LoadResult := do
  Action.info s!"loading Kickstart image with {data.size} bytes at {Text.address base}"
  let _ ← createBlock { name := "ROM", address := base, data := some data, execute := true }
  createCustom loader
  let entry := base + 2
  let (residents, notes) ← scanResidents loader entry
  setFunction entry entryName
  return {
    kind := .unknown
    image := none
    addresses := [base]
    buffers := [data]
    linkage := none
    residents
    entry := some entry
    diagnostics := notes }

def emptyResult (kind : FileKind) : LoadResult where
  kind
  image := none
  addresses := []
  buffers := []
  linkage := none
  residents := []
  entry := none
  diagnostics := []

/-- Loads a program, an object file or a Kickstart image. Of a library there is nothing to load. -/
def load (loader : Loader ρ) (data : Bytes) : Load ρ LoadResult := do
  match ← Action.ofExcept ((LoadSpec.ofBytes? data).mapError .parse) with
  | none => throw (.parse .unknownInput)
  | some (.kickstart base) => loadKickstart loader data base
  | some .hunks =>
    let (file, _) ← Action.within 0
      ((File.decode none (.ofBytes data none)).mapError .parse)
    if file.kind = .library then
      Action.info s!"library file with {file.blocks.length} blocks, nothing to load"
      return emptyResult file.kind
    loadFile loader file

end Loading

end Hunks
